import ReKernelX.Client.Connection

/-!
# How long a connection lasts

With at most one `pollEvent` at a time, a connection that `connect` reported
should last until somebody calls `disconnect` afterwards. It does exactly when
nothing is under way that ends it: no signal waits in the eventfd, no
`disconnect` waits for the mutex, and no `pollEvent` is past the point of no
return. None of this is checked by `connect`, which reports any connection it
finds: after `connect`, `disconnect`, `connect` the old signal is still there,
and the next `pollEvent` closes the connection at once.
-/

set_option autoImplicit false

namespace ReKernelX.Client

open Transition

variable {T : Type*} {s s' : ConnState T} {conn : Connection}

/-- A step with at most one `pollEvent` active. -/
def SoloStep [DecidableEq T] (s : ConnState T) (label : T × Action) (s' : ConnState T) : Prop :=
  ConnStep s label s' ∧ (label.2 = .beginPoll → ∀ u, ¬ (s.pc u).Polling)

/-- The actions of a run. -/
def actions (trace : List ((T × Action) × ConnState T)) : List Action :=
  trace.map fun entry => entry.1.2

/-- Both descriptors of the connection are open. -/
def ConnOpen (s : ConnState T) (conn : Connection) : Prop :=
  s.shared.files conn.fd = some (.socket conn.serial) ∧
    ∃ counter, s.shared.files conn.disconnectFd = some (.event conn.serial counter)

/-- As long as no `disconnect` begins, the descriptors stay open and no
`pollEvent` that begins returns. -/
def StaysConnected [DecidableEq T] (s : ConnState T) (conn : Connection) : Prop :=
  ∀ trace s', Run SoloStep s trace s' → Action.beginDisconnect ∉ actions trace →
    ConnOpen s' conn ∧ ¬ List.Sublist [.beginPoll, .returnPoll] (actions trace)

/-- The thread will not end the connection by itself: it is not a `disconnect`
before its section, nor a `pollEvent` that left its loop or is about to. -/
def Pc.Calm : Pc → Prop
  | .disconnecting => False
  | .pollLeaving => False
  | .pollLoaded fd => 0 ≤ fd
  | _ => True

/-- The descriptors are open, no signal is pending and every thread is calm. -/
structure Settled (s : ConnState T) (conn : Connection) : Prop where
  socket : s.shared.files conn.fd = some (.socket conn.serial)
  silent : s.shared.files conn.disconnectFd = some (.event conn.serial 0)
  calm : ∀ u, (s.pc u).Calm

/-! ### What holds in every run with one poller -/

/-- What a poller loaded is still in the globals. -/
def Pc.Tracks (sh : Shared) : Pc → Prop
  | .pollLoaded fd => 0 ≤ fd → sh.gFd = fd
  | .pollWaiting fd disconnectFd =>
    0 ≤ fd ∧ 0 ≤ disconnectFd ∧ sh.gFd = fd ∧ sh.gDisconnectFd = disconnectFd
  | _ => True

structure SoloInv (s : ConnState T) : Prop where
  wf : s.shared.Wf
  alone : ∀ t u, (s.pc t).Polling → (s.pc u).Polling → t = u
  tracks : ∀ t, (s.pc t).Tracks s.shared

theorem soloInv_initial : SoloInv (ConnState.initial T) where
  wf := Or.inr ⟨rfl, rfl, fun _ => rfl⟩
  alone _ _ h := h.elim
  tracks _ := trivial

/-- Loaded descriptors stay current unless the connection ends. -/
theorem Pc.Tracks.congr {sh sh' : Shared} {pc : Pc} (tracks : pc.Tracks sh)
    (same : sh.gFd < 0 ∨ sh'.gFd = sh.gFd ∧ sh'.gDisconnectFd = sh.gDisconnectFd) :
    pc.Tracks sh' := by
  cases pc with
  | pollLoaded fd =>
    intro hfd
    have hloaded := tracks hfd
    rcases same with hdown | ⟨hsame, -⟩ <;> omega
  | pollWaiting fd disconnectFd =>
    obtain ⟨hfd, hdfd, hcurrent, hcurrent'⟩ := tracks
    refine ⟨hfd, hdfd, ?_⟩
    rcases same with hdown | ⟨hsame, hsame'⟩ <;> omega
  | _ => trivial

/-- Only a poller tracks anything. -/
theorem Pc.tracks_of_not_polling {pc : Pc} (h : ¬ pc.Polling) (sh : Shared) : pc.Tracks sh := by
  cases pc with
  | pollLoaded fd => exact absurd trivial h
  | pollWaiting fd disconnectFd => exact absurd trivial h
  | _ => trivial

/-- A step of a poller leaves it tracking the globals. -/
theorem CallStep.tracks {sh sh' : Shared} {pc pc' : Pc} {a : Action}
    (step : CallStep sh pc a sh' pc') (tracks : pc.Tracks sh) : pc'.Tracks sh' := by
  cases step with
  | loadFd => exact fun _ => rfl
  | loadDisconnectFd fd =>
    rw [afterLoads]
    split
    · trivial
    · next h =>
      rw [not_or, not_lt, not_lt] at h
      exact ⟨h.1, h.2, tracks h.1, rfl⟩
  | _ => trivial

/-- A thread is inside `pollEvent` after a step only if it was before, or if it
has just begun. -/
theorem CallStep.polling {sh sh' : Shared} {pc pc' : Pc} {a : Action}
    (step : CallStep sh pc a sh' pc') (polling : pc'.Polling) : a = .beginPoll ∨ pc.Polling := by
  cases step with
  | beginPoll => exact Or.inl rfl
  | loadFd | loadDisconnectFd | pollAgain | readEvent | teardown => exact Or.inr trivial
  | _ => exact polling.elim

theorem Settled.connOpen (settled : Settled s conn) : ConnOpen s conn :=
  ⟨settled.socket, 0, settled.silent⟩

theorem ConnOpen.current (wf : s.shared.Wf) (hopen : ConnOpen s conn) :
    s.shared.Up ∧ conn.fd = s.shared.gFd ∧ conn.disconnectFd = s.shared.gDisconnectFd := by
  obtain ⟨hsocket, counter, hevent⟩ := hopen
  have up := wf.up_of_file hsocket
  exact ⟨up, (up.eq_of_socket hsocket).1, (up.eq_of_event hevent).1⟩

/-- Without a new `disconnect`, a step in a settled state changes no global and
no file, and no thread gets past the point of no return. -/
theorem Settled.callStep {t : T} {a : Action} {sh : Shared} {pc : Pc} (inv : SoloInv s)
    (settled : Settled s conn) (step : CallStep s.shared (s.pc t) a sh pc)
    (later : a ≠ .beginDisconnect) :
    sh = s.shared ∧ pc.Calm ∧ pc ≠ .pollTornDown := by
  obtain ⟨up, -, hdfd⟩ := settled.connOpen.current inv.wf
  have hcalm := settled.calm t
  have htracks := inv.tracks t
  generalize s.pc t = pcBefore at step hcalm htracks
  cases step with
  | beginDisconnect => exact absurd rfl later
  | connectSection os fresh => exact ⟨by rw [connect_of_up up], trivial, nofun⟩
  | disconnectSection room => exact hcalm.elim
  | loadFd => exact ⟨rfl, up.fd_nonneg, nofun⟩
  | loadDisconnectFd fd =>
    have hfd : 0 ≤ fd := hcalm
    have hnonneg := up.disconnectFd_nonneg
    rw [afterLoads, if_neg (by omega)]
    exact ⟨rfl, trivial, nofun⟩
  | readEvent fd disconnectFd serial counter readable =>
    -- the poller waits on the current eventfd, and its counter is zero
    obtain ⟨-, -, -, rfl⟩ := htracks
    rw [← hdfd, settled.silent] at readable
    cases readable
  | teardown => exact hcalm.elim
  | _ => exact ⟨rfl, trivial, nofun⟩

theorem actions_append_singleton (trace : List ((T × Action) × ConnState T)) (t : T) (a : Action)
    (s : ConnState T) : actions (trace ++ [((t, a), s)]) = actions trace ++ [a] :=
  List.map_append

variable [DecidableEq T]

theorem SoloInv.step {t : T} {a : Action} (inv : SoloInv s) (step : SoloStep s (t, a) s') :
    SoloInv s' := by
  obtain ⟨⟨sh, pc, hstep, rfl⟩, hsolo⟩ := step
  have hpolling (u : T) (hu : (Function.update s.pc t pc u).Polling) :
      u = t ∧ a = .beginPoll ∨ (s.pc u).Polling := by
    by_cases hut : u = t
    · subst hut
      rw [Function.update_self] at hu
      rcases hstep.polling hu with hbegin | hwas
      · exact Or.inl ⟨rfl, hbegin⟩
      · exact Or.inr hwas
    · rw [Function.update_of_ne hut] at hu
      exact Or.inr hu
  refine ⟨hstep.wf inv.wf, ?_, ?_⟩
  · intro u v hu hv
    rcases hpolling u hu with ⟨rfl, hbegin⟩ | hu
    · rcases hpolling v hv with ⟨rfl, -⟩ | hv
      · rfl
      · exact absurd hv (hsolo hbegin v)
    · rcases hpolling v hv with ⟨-, hbegin⟩ | hv
      · exact absurd hu (hsolo hbegin u)
      · exact inv.alone u v hu hv
  · intro u
    by_cases hut : u = t
    · subst hut
      change (Function.update s.pc u pc u).Tracks sh
      rw [Function.update_self]
      exact hstep.tracks (inv.tracks u)
    · change (Function.update s.pc t pc u).Tracks sh
      rw [Function.update_of_ne hut]
      rcases hstep.shared_cases inv.wf with rfl | ⟨down, -⟩ | ⟨-, counter, rfl⟩ | ⟨hleaving, -⟩
      · exact inv.tracks u
      · exact (inv.tracks u).congr (Or.inl (by rw [down.fd]; decide))
      · exact (inv.tracks u).congr (Or.inr ⟨rfl, rfl⟩)
      · -- the connection ends, but its poller is `t`, so `u` has nothing loaded
        refine Pc.tracks_of_not_polling (fun hu => hut (inv.alone u t hu ?_)) sh
        rw [hleaving]
        trivial

theorem SoloInv.of_run {init : ConnState T} {trace : List ((T × Action) × ConnState T)}
    (inv : SoloInv init) (run : Run SoloStep init trace s) : SoloInv s :=
  run.invariant inv fun _ _ _ hinv hstep => hinv.step hstep

/-! ### A settled connection lasts -/

theorem Settled.step {t : T} {a : Action} (inv : SoloInv s) (settled : Settled s conn)
    (step : SoloStep s (t, a) s') (later : a ≠ .beginDisconnect) :
    Settled s' conn ∧ ∀ u, s'.pc u = .pollTornDown → s.pc u = .pollTornDown := by
  obtain ⟨⟨sh, pc, hstep, rfl⟩, -⟩ := step
  obtain ⟨rfl, hcalm, hpc⟩ := settled.callStep inv hstep later
  refine ⟨⟨settled.socket, settled.silent, fun u => ?_⟩, fun u hu => ?_⟩
  · change (Function.update s.pc t pc u).Calm
    by_cases hut : u = t
    · rw [hut, Function.update_self]
      exact hcalm
    · rw [Function.update_of_ne hut]
      exact settled.calm u
  · change Function.update s.pc t pc u = _ at hu
    by_cases hut : u = t
    · rw [hut, Function.update_self] at hu
      exact absurd hu hpc
    · rw [Function.update_of_ne hut] at hu
      exact hu

/-- A settled state stays settled along every run without a new `disconnect`. A
`pollEvent` that returns in such a run closed an earlier connection, so none has
begun before it in the run. -/
theorem Settled.run {trace : List ((T × Action) × ConnState T)} (inv : SoloInv s)
    (settled : Settled s conn) (run : Run SoloStep s trace s')
    (later : Action.beginDisconnect ∉ actions trace) :
    Settled s' conn ∧
      (Action.beginPoll ∈ actions trace → ∀ u, s'.pc u ≠ .pollTornDown) ∧
      ¬ List.Sublist [.beginPoll, .returnPoll] (actions trace) := by
  -- along the run; a `pollEvent` behind its teardown can only be one from before the run
  induction run with
  | nil => exact ⟨settled, nofun, nofun⟩
  | @snoc trace s₁ s₂ label run hstep ih =>
    obtain ⟨t, a⟩ := label
    rw [actions_append_singleton, List.mem_append, List.mem_singleton, not_or] at later
    obtain ⟨hsettled, htorn, hnone⟩ := ih later.1
    obtain ⟨hsettled', hkept⟩ := hsettled.step (inv.of_run run) hstep (Ne.symm later.2)
    rw [actions_append_singleton]
    refine ⟨hsettled', ?_, ?_⟩
    · intro hbegin u hu
      have hwas := hkept u hu
      rcases List.mem_append.mp hbegin with hbefore | hnow
      · exact htorn hbefore u hwas
      · -- the poll that begins here is the only one
        refine hstep.2 (List.mem_singleton.mp hnow).symm u ?_
        rw [hwas]
        trivial
    · intro hsub
      rcases pair_sublist_append_singleton hsub with hsub | ⟨rfl, hbegin⟩
      · exact hnone hsub
      · obtain ⟨⟨sh, pc, hcall, -⟩, -⟩ := hstep
        generalize hpc : s₁.pc t = pcBefore at hcall
        cases hcall
        exact htorn hbegin t hpc

theorem Settled.staysConnected (inv : SoloInv s) (settled : Settled s conn) :
    StaysConnected s conn := by
  intro trace s' run later
  obtain ⟨hsettled, -, hnone⟩ := settled.run inv run later
  exact ⟨hsettled.connOpen, hnone⟩

/-! ### An unsettled connection can end -/

/-- Some run without a new `disconnect` closes the connection. -/
def Doomed (s : ConnState T) (conn : Connection) : Prop :=
  ∃ trace s', Run SoloStep s trace s' ∧ Action.beginDisconnect ∉ actions trace ∧ ¬ ConnOpen s' conn

/-- The state after a step of one thread. -/
def ConnState.after (s : ConnState T) (t : T) (sh : Shared) (pc : Pc) : ConnState T :=
  ⟨sh, Function.update s.pc t pc⟩

theorem ConnState.pc_after (s : ConnState T) (t : T) (sh : Shared) (pc : Pc) :
    (s.after t sh pc).pc t = pc := Function.update_self _ _ _

theorem soloStep_after {t : T} {a : Action} {sh : Shared} {pc pc' : Pc} (here : s.pc t = pc)
    (call : CallStep s.shared pc a sh pc')
    (solo : a = .beginPoll → ∀ u, ¬ (s.pc u).Polling) : SoloStep s (t, a) (s.after t sh pc') :=
  ⟨⟨sh, pc', here ▸ call, rfl⟩, solo⟩

theorem Doomed.of_step {t : T} {a : Action} (step : SoloStep s (t, a) s')
    (later : a ≠ .beginDisconnect) (doomed : Doomed s' conn) : Doomed s conn := by
  obtain ⟨trace, s₁, hrun, hlater, hclosed⟩ := doomed
  refine ⟨_, s₁, Run.head step hrun, ?_, hclosed⟩
  exact fun hmem => (List.mem_cons.mp hmem).elim (fun h => later h.symm) hlater

/-- A poller that left its loop closes whatever is connected. -/
theorem doomed_of_leaving {t : T} (inv : SoloInv s) (here : s.pc t = .pollLeaving) :
    Doomed s conn := by
  have hstep : SoloStep s (t, .teardown) (s.after t (teardown s.shared) .pollTornDown) :=
    soloStep_after here .teardown nofun
  refine Doomed.of_step hstep nofun ⟨[], _, Run.nil, nofun, ?_⟩
  rintro ⟨hsocket, -⟩
  have hclosed := (teardown_down inv.wf).closed conn.fd
  cases hclosed.symm.trans hsocket

theorem doomed_of_loaded_negative {t : T} {fd : ℤ} (inv : SoloInv s)
    (here : s.pc t = .pollLoaded fd) (negative : fd < 0) : Doomed s conn := by
  have hleaving : afterLoads fd s.shared.gDisconnectFd = .pollLeaving := if_pos (Or.inl negative)
  have hstep := soloStep_after here (.loadDisconnectFd fd) nofun
  exact (doomed_of_leaving (inv.step hstep) ((s.pc_after _ _ _).trans hleaving)).of_step hstep nofun

section Signalled

/-- A signal waits in the eventfd of the current connection. -/
def Signalled (sh : Shared) : Prop :=
  sh.Up ∧ ∃ counter, sh.files sh.gDisconnectFd = some (.event sh.serial (counter + 1))

variable {t : T} (inv : SoloInv s) (signalled : Signalled s.shared)

include inv signalled

theorem doomed_of_waiting {fd disconnectFd : ℤ} (here : s.pc t = .pollWaiting fd disconnectFd) :
    Doomed s conn := by
  obtain ⟨-, counter, hevent⟩ := signalled
  have htracks := inv.tracks t
  rw [here] at htracks
  obtain ⟨-, -, -, rfl⟩ := htracks
  have hstep := soloStep_after here (.readEvent fd _ _ counter hevent) nofun
  exact (doomed_of_leaving (inv.step hstep) (s.pc_after _ _ _)).of_step hstep nofun

theorem doomed_of_loaded {fd : ℤ} (here : s.pc t = .pollLoaded fd) : Doomed s conn := by
  by_cases hnegative : fd < 0
  · exact doomed_of_loaded_negative inv here hnegative
  · have hnonneg := signalled.1.disconnectFd_nonneg
    have hwaiting : afterLoads fd s.shared.gDisconnectFd =
        .pollWaiting fd s.shared.gDisconnectFd := if_neg (by omega)
    have hstep := soloStep_after here (.loadDisconnectFd fd) nofun
    exact (doomed_of_waiting (inv.step hstep) signalled
      ((s.pc_after _ _ _).trans hwaiting)).of_step hstep nofun

theorem doomed_of_top (here : s.pc t = .pollTop) : Doomed s conn := by
  have hstep := soloStep_after here .loadFd nofun
  exact (doomed_of_loaded (inv.step hstep) signalled (s.pc_after _ _ _)).of_step hstep nofun

/-- A thread that is free to call `pollEvent` may do so. -/
theorem doomed_of_idle (here : s.pc t = .idle) (nobody : ∀ u, ¬ (s.pc u).Polling) :
    Doomed s conn := by
  have hstep := soloStep_after here .beginPoll fun _ => nobody
  exact (doomed_of_top (inv.step hstep) signalled (s.pc_after _ _ _)).of_step hstep nofun

/-- Wherever the poller is, and also if there is none, the signal is found. -/
theorem doomed_of_signalled (here : s.pc t = .idle) : Doomed s conn := by
  by_cases hnobody : ∀ u, ¬ (s.pc u).Polling
  · exact doomed_of_idle inv signalled here hnobody
  · rw [not_forall_not] at hnobody
    obtain ⟨u, hu⟩ := hnobody
    cases hpc : s.pc u with
    | pollTop => exact doomed_of_top inv signalled hpc
    | pollLoaded fd => exact doomed_of_loaded inv signalled hpc
    | pollWaiting fd disconnectFd => exact doomed_of_waiting inv signalled hpc
    | pollLeaving => exact doomed_of_leaving inv hpc
    | pollTornDown =>
      -- the poller returns, and then nobody polls
      have hstep := soloStep_after hpc .returnPoll nofun
      refine (doomed_of_idle (inv.step hstep) signalled (s.pc_after u _ _) ?_).of_step hstep nofun
      intro v hv
      change (Function.update s.pc u .idle v).Polling at hv
      by_cases hvu : v = u
      · rw [hvu, Function.update_self] at hv
        exact hv
      · rw [Function.update_of_ne hvu] at hv
        exact hvu (inv.alone v u hv hu)
    | _ =>
      rw [hpc] at hu
      exact hu.elim

end Signalled

/-- A `disconnect` that waits for the mutex will signal, unless the counter is
full already. -/
theorem doomed_of_disconnecting {t u : T} (inv : SoloInv s) (up : s.shared.Up)
    (here : s.pc t = .idle) (waiting : s.pc u = .disconnecting) : Doomed s conn := by
  obtain ⟨counter, hevent⟩ := up.event
  cases counter with
  | succ counter => exact doomed_of_signalled inv ⟨up, counter, hevent⟩ here
  | zero =>
    have hroom : s.shared.CanSignal := by
      intro serial counter h
      cases hevent.symm.trans h
      decide
    have hstep := soloStep_after waiting (.disconnectSection hroom) nofun
    have hsignalled : Signalled (disconnect s.shared) := by
      rw [disconnect_of_up up hevent]
      exact ⟨up.setEvent _, 0, Function.update_self _ _ _⟩
    have hne : t ≠ u := by
      rintro rfl
      cases here.symm.trans waiting
    have hidle : (s.after u (disconnect s.shared) .disconnected).pc t = .idle :=
      (Function.update_of_ne hne _ _).trans here
    exact (doomed_of_signalled (inv.step hstep) hsignalled hidle).of_step hstep nofun

theorem StaysConnected.settled {t : T} (inv : SoloInv s) (here : s.pc t = .idle)
    (stays : StaysConnected s conn) : Settled s conn := by
  have hnot : ¬ Doomed s conn := by
    rintro ⟨trace, s', hrun, hlater, hclosed⟩
    exact hclosed (stays trace s' hrun hlater).1
  have hopen : ConnOpen s conn := (stays [] s Run.nil nofun).1
  obtain ⟨up, -, hdfd⟩ := hopen.current inv.wf
  obtain ⟨hsocket, counter, hevent⟩ := hopen
  refine ⟨hsocket, ?_, fun u => ?_⟩
  · -- a signal would be found by some `pollEvent`, at the latest one that `t` begins
    cases counter with
    | zero => exact hevent
    | succ counter =>
      have hserial := (up.eq_of_event hevent).2
      rw [hdfd, hserial] at hevent
      exact absurd (doomed_of_signalled inv ⟨up, counter, hevent⟩ here) hnot
  · cases hpc : s.pc u with
    | disconnecting => exact hnot (doomed_of_disconnecting inv up here hpc)
    | pollLeaving => exact hnot (doomed_of_leaving inv hpc)
    | pollLoaded fd =>
      by_contra hnegative
      exact hnot (doomed_of_loaded_negative inv hpc (not_le.mp hnegative))
    | _ => trivial

/-- **A connection lasts until a later `disconnect` exactly when it was settled
as `connect` returned.** In every run with at most one `pollEvent` active at a
time, when a call of `connect` returns true: from then on, until a `disconnect`
begins, the descriptors stay open and no `pollEvent` that begins returns, if and
only if at the return the descriptors are open, the eventfd holds no signal and
every thread is calm. -/
theorem staysConnected_iff_settled {trace : List ((T × Action) × ConnState T)} {t : T}
    (run : Run SoloStep (ConnState.initial T) trace s)
    (returns : SoloStep s (t, .returnConnect (some conn)) s') :
    StaysConnected s' conn ↔ Settled s conn := by
  have hinv := soloInv_initial.of_run run
  have hinv' := hinv.step returns
  obtain ⟨⟨sh, pc, hstep, rfl⟩, -⟩ := returns
  generalize hpc : s.pc t = pcBefore at hstep
  cases hstep
  -- the return moves one calm thread to another calm place
  have hcalm (u : T) : (Function.update s.pc t .idle u).Calm ↔ (s.pc u).Calm := by
    by_cases hut : u = t
    · rw [hut, Function.update_self, hpc]
      exact Iff.rfl
    · rw [Function.update_of_ne hut]
  constructor
  · intro stays
    have hsettled := stays.settled hinv' (Function.update_self t _ _)
    exact ⟨hsettled.socket, hsettled.silent, fun u => (hcalm u).mp (hsettled.calm u)⟩
  · intro settled
    refine Settled.staysConnected hinv' ⟨settled.socket, settled.silent, fun u => ?_⟩
    exact (hcalm u).mpr (settled.calm u)

/-! ### One thread -/

/-- A client with a single thread. -/
def oneThread (sh : Shared) (pc : Pc) : ConnState Unit := ⟨sh, fun _ => pc⟩

theorem soloStep_oneThread {sh sh' : Shared} {pc pc' : Pc} {a : Action}
    (call : CallStep sh pc a sh' pc') (solo : a = .beginPoll → ¬ pc.Polling) :
    SoloStep (oneThread sh pc) ((), a) (oneThread sh' pc') := by
  refine ⟨⟨sh', pc', call, ?_⟩, fun hbegin _ => solo hbegin⟩
  refine congrArg (ConnState.mk sh') (funext fun u => ?_)
  exact (Function.update_self () pc' fun _ => pc).symm

/-- System calls that all succeed. -/
def successfulCalls : ConnectCalls where
  socket := 5
  eventfd := 6
  bind := 0
  familyReply := some (21, 7)
  addMembership := 0

theorem fresh_successfulCalls {sh : Shared} (down : sh.Down) : successfulCalls.Fresh sh :=
  ⟨fun _ => down.closed _, fun _ => ⟨down.closed _, by decide⟩⟩

theorem down_initial : Shared.initial.Down := ⟨rfl, rfl, fun _ => rfl⟩

/-- After a first `connect`. -/
def firstConnected : Shared := (connect successfulCalls .initial).1

theorem up_firstConnected : firstConnected.Up :=
  ((connect_of_down down_initial (fresh_successfulCalls down_initial)).resolve_left
    (fun h => nomatch congrArg Prod.snd h)).1

theorem staysConnected_iff_settled_first :
    StaysConnected (oneThread firstConnected .idle) ⟨5, 6, 1⟩ := by
  have hrun : Run SoloStep (ConnState.initial Unit) _
      (oneThread firstConnected (.connected (some ⟨5, 6, 1⟩))) :=
    (Run.nil.snoc (soloStep_oneThread .beginConnect nofun)).snoc
      (soloStep_oneThread
        (.connectSection successfulCalls (fresh_successfulCalls down_initial)) nofun)
  exact (staysConnected_iff_settled hrun
    (soloStep_oneThread (.returnConnect (some ⟨5, 6, 1⟩)) nofun)).mpr
      ⟨rfl, rfl, fun _ => trivial⟩

/-- The first connection after a `disconnect` that no `pollEvent` has seen. -/
def signalledOnce : Shared := disconnect firstConnected

theorem event_firstConnected : firstConnected.files firstConnected.gDisconnectFd =
    some (.event firstConnected.serial 0) := rfl

theorem up_signalledOnce : signalledOnce.Up := by
  rw [signalledOnce, disconnect_of_up up_firstConnected event_firstConnected]
  exact up_firstConnected.setEvent 1

/-- `connect`, `disconnect` and `connect` again up to its return. -/
theorem run_reconnect : ∃ trace, Run SoloStep (ConnState.initial Unit) trace
    (oneThread signalledOnce (.connected (some ⟨5, 6, 1⟩))) := by
  have hroom : firstConnected.CanSignal := by
    intro serial counter h
    cases event_firstConnected.symm.trans h
    decide
  -- the second call opens nothing: it finds the connection
  have hagain : CallStep signalledOnce .connecting (.connectSection ⟨-1, -1, 0, none, 0⟩)
      signalledOnce (.connected (some ⟨5, 6, 1⟩)) :=
    .connectSection ⟨-1, -1, 0, none, 0⟩ ⟨nofun, nofun⟩
  exact ⟨_,
    Run.head (soloStep_oneThread .beginConnect nofun) <|
    Run.head (soloStep_oneThread
      (.connectSection successfulCalls (fresh_successfulCalls down_initial)) nofun) <|
    Run.head (soloStep_oneThread (.returnConnect _) nofun) <|
    Run.head (soloStep_oneThread .beginDisconnect nofun) <|
    Run.head (soloStep_oneThread (.disconnectSection hroom) nofun) <|
    Run.head (soloStep_oneThread .returnDisconnect nofun) <|
    Run.head (soloStep_oneThread .beginConnect nofun) <|
    Run.head (soloStep_oneThread hagain nofun) Run.nil⟩

/-- One thread connects, disconnects, and connects again: the second `connect`
returns true, and although no `disconnect` follows, the next `pollEvent` finds
the old signal, closes the connection and returns. -/
theorem reconnect_finds_old_signal :
    ∃ (before after : List ((Unit × Action) × ConnState Unit)) (s s₁ s' : ConnState Unit),
      Run SoloStep (ConnState.initial Unit) before s ∧
      SoloStep s ((), .returnConnect (some ⟨5, 6, 1⟩)) s₁ ∧
      Run SoloStep s₁ after s' ∧
      actions after =
        [.beginPoll, .loadFd, .loadDisconnectFd, .readEvent, .teardown, .returnPoll] ∧
      ¬ ConnOpen s' ⟨5, 6, 1⟩ := by
  obtain ⟨before, hbefore⟩ := run_reconnect
  have hwaiting : CallStep signalledOnce (.pollLoaded 5) .loadDisconnectFd signalledOnce
      (.pollWaiting 5 6) := .loadDisconnectFd 5
  have hread : CallStep signalledOnce (.pollWaiting 5 6) .readEvent
      (signalledOnce.setFile 6 (.event 1 0)) .pollLeaving := .readEvent 5 6 1 0 rfl
  have hdown : (teardown (signalledOnce.setFile 6 (.event 1 0))).Down :=
    teardown_down (Or.inl (up_signalledOnce.setEvent 0))
  refine ⟨before, _, _, _, _, hbefore, soloStep_oneThread (.returnConnect _) nofun,
    Run.head (soloStep_oneThread .beginPoll fun _ => id) <|
    Run.head (soloStep_oneThread .loadFd nofun) <|
    Run.head (soloStep_oneThread hwaiting nofun) <|
    Run.head (soloStep_oneThread hread nofun) <|
    Run.head (soloStep_oneThread .teardown nofun) <|
    Run.head (soloStep_oneThread .returnPoll nofun) Run.nil, rfl, ?_⟩
  rintro ⟨hsocket, -⟩
  cases (hdown.closed 5).symm.trans hsocket

end ReKernelX.Client
