import Mathlib.Logic.Function.Basic
import ReKernelX.Foundation.Transition

/-!
# The connection

`connect`, `disconnect` and `pollEvent` share two descriptors and the family
id. `connect` and `disconnect` do their work inside one section of
`g_conn_mutex`; `pollEvent` reads the globals without it, waits, and only
closes the connection inside a section. `disconnect` closes nothing: it signals
an eventfd, and the connection is closed by whichever `pollEvent` sees the
signal.

Any number of threads run these calls, one at a time each. A step is the begin
or the return of a call, a section, a load of one global, or one wait. The
kernel's descriptor table is part of the state: a descriptor number may be
given out again once it was closed, so a file carries the serial number of the
connection it was opened for.
-/

set_option autoImplicit false

namespace ReKernelX.Client

/-! ### Descriptors and globals -/

/-- An open file: the netlink socket or the eventfd of a connection. -/
inductive File
  | socket (serial : ℕ)
  | event (serial counter : ℕ)
deriving DecidableEq

/-- The globals of `rkx_jni.cpp`, the files `connect` opened and has not closed,
and how many connections there have been. -/
structure Shared where
  gFd : ℤ
  gDisconnectFd : ℤ
  gFamilyId : UInt16
  files : ℤ → Option File
  serial : ℕ

/-- The globals as they are initialised. -/
def Shared.initial : Shared where
  gFd := -1
  gDisconnectFd := -1
  gFamilyId := 0
  files _ := none
  serial := 0

/-- A descriptor with its file, new or changed. -/
def Shared.setFile (sh : Shared) (fd : ℤ) (file : File) : Shared :=
  { sh with files := Function.update sh.files fd (some file) }

/-- `close` -/
def Shared.close (sh : Shared) (fd : ℤ) : Shared :=
  { sh with files := Function.update sh.files fd none }

/-- What a call of `connect` that returned true connected to. -/
structure Connection where
  fd : ℤ
  disconnectFd : ℤ
  serial : ℕ
deriving DecidableEq

/-- The connection in the globals. -/
def Shared.current (sh : Shared) : Connection := ⟨sh.gFd, sh.gDisconnectFd, sh.serial⟩

/-! ### The sections -/

/-- What the system calls of `connect` return, the attributes of the reply to the
family request included; `0` stands for an attribute that is missing. -/
structure ConnectCalls where
  socket : ℤ
  eventfd : ℤ
  bind : ℤ
  familyReply : Option (UInt16 × UInt32)
  addMembership : ℤ

/-- New descriptors are numbers not in use. -/
def ConnectCalls.Fresh (os : ConnectCalls) (sh : Shared) : Prop :=
  (0 ≤ os.socket → sh.files os.socket = none) ∧
    (0 ≤ os.eventfd → sh.files os.eventfd = none ∧ os.eventfd ≠ os.socket)

/-- `resolve_family_group` as a function of the reply: both ids must be there. -/
def resolveFamilyGroup (reply : Option (UInt16 × UInt32)) : Option (UInt16 × UInt32) :=
  reply.filter fun ids => ids.1 ≠ 0 ∧ ids.2 ≠ 0

/-- `connect`, with the connection it returned true for. -/
def connect (os : ConnectCalls) (sh : Shared) : Shared × Option Connection :=
  -- an existing connection is reported as it is, a pending signal included
  if 0 ≤ sh.gFd then (sh, some sh.current)
  else if os.socket < 0 then (sh, none)
  else
    let opened := sh.setFile os.socket (.socket (sh.serial + 1))
    if os.eventfd < 0 then (opened.close os.socket, none)
    else
      let opened := opened.setFile os.eventfd (.event (sh.serial + 1) 0)
      if os.bind < 0 then ((opened.close os.socket).close os.eventfd, none)
      else
        match resolveFamilyGroup os.familyReply with
        | none => ((opened.close os.socket).close os.eventfd, none)
        | some (fid, gid) =>
          -- the globals are stored last, so a failed attempt is never visible in them
          if 0 < gid ∧ os.addMembership < 0 then
            ((opened.close os.socket).close os.eventfd, none)
          else
            let connected := { opened with
              gFamilyId := fid
              gDisconnectFd := os.eventfd
              gFd := os.socket
              serial := sh.serial + 1 }
            (connected, some connected.current)

/-- The largest value of an eventfd, two below `2 ^ 64`; a write that would exceed
it blocks. -/
def eventfdMax : ℕ := 18446744073709551614

/-- The write of `disconnect` does not block. -/
def Shared.CanSignal (sh : Shared) : Prop :=
  ∀ serial counter, sh.files sh.gDisconnectFd = some (.event serial counter) → counter < eventfdMax

/-- `disconnect` -/
def disconnect (sh : Shared) : Shared :=
  if 0 ≤ sh.gDisconnectFd then
    match sh.files sh.gDisconnectFd with
    | some (.event serial counter) =>
      sh.setFile sh.gDisconnectFd (.event serial (counter + 1))
    | _ => sh
  else sh

/-- The section at the end of `pollEvent`. -/
def teardown (sh : Shared) : Shared :=
  -- the globals of now, which need not be the descriptors this call has waited on
  let cleared := { sh with gFd := -1, gDisconnectFd := -1, gFamilyId := 0 }
  let closed := if 0 ≤ sh.gFd then cleared.close sh.gFd else cleared
  if 0 ≤ sh.gDisconnectFd then closed.close sh.gDisconnectFd else closed

/-! ### Calls as step sequences -/

/-- Where a thread is. -/
inductive Pc
  | idle
  | connecting
  | connected (result : Option Connection)
  | disconnecting
  | disconnected
  | pollTop
  | pollLoaded (fd : ℤ)
  | pollWaiting (fd disconnectFd : ℤ)
  | pollLeaving
  | pollTornDown
deriving DecidableEq

/-- The thread is inside `pollEvent`. -/
def Pc.Polling : Pc → Prop
  | .pollTop | .pollLoaded _ | .pollWaiting _ _ | .pollLeaving | .pollTornDown => True
  | _ => False

inductive Action
  | beginConnect
  | connectSection (os : ConnectCalls)
  | returnConnect (result : Option Connection)
  | beginDisconnect
  | disconnectSection
  | returnDisconnect
  | beginPoll
  | loadFd
  | loadDisconnectFd
  /-- The wait failed, nothing was readable, nothing was received, or a datagram
  was dispatched. -/
  | pollAgain
  | readEvent
  | teardown
  | returnPoll

/-- Behind the loads, `pollEvent` waits only if both descriptors are there. -/
def afterLoads (fd disconnectFd : ℤ) : Pc :=
  if fd < 0 ∨ disconnectFd < 0 then .pollLeaving else .pollWaiting fd disconnectFd

/-- One step of one thread. -/
inductive CallStep (sh : Shared) : Pc → Action → Shared → Pc → Prop
  | beginConnect : CallStep sh .idle .beginConnect sh .connecting
  | connectSection (os : ConnectCalls) (fresh : os.Fresh sh) :
      CallStep sh .connecting (.connectSection os) (connect os sh).1 (.connected (connect os sh).2)
  | returnConnect (result : Option Connection) :
      CallStep sh (.connected result) (.returnConnect result) sh .idle
  | beginDisconnect : CallStep sh .idle .beginDisconnect sh .disconnecting
  | disconnectSection (room : sh.CanSignal) :
      CallStep sh .disconnecting .disconnectSection (disconnect sh) .disconnected
  | returnDisconnect : CallStep sh .disconnected .returnDisconnect sh .idle
  | beginPoll : CallStep sh .idle .beginPoll sh .pollTop
  | loadFd : CallStep sh .pollTop .loadFd sh (.pollLoaded sh.gFd)
  | loadDisconnectFd (fd : ℤ) :
      CallStep sh (.pollLoaded fd) .loadDisconnectFd sh (afterLoads fd sh.gDisconnectFd)
  -- the loop goes back to its loads whatever the wait on the two descriptors gave
  | pollAgain (fd disconnectFd : ℤ) :
      CallStep sh (.pollWaiting fd disconnectFd) .pollAgain sh .pollTop
  | readEvent (fd disconnectFd : ℤ) (serial counter : ℕ)
      (readable : sh.files disconnectFd = some (.event serial (counter + 1))) :
      CallStep sh (.pollWaiting fd disconnectFd) .readEvent
        (sh.setFile disconnectFd (.event serial 0)) .pollLeaving
  | teardown : CallStep sh .pollLeaving .teardown (teardown sh) .pollTornDown
  | returnPoll : CallStep sh .pollTornDown .returnPoll sh .idle

/-- The globals and where each thread is. -/
structure ConnState (T : Type*) where
  shared : Shared
  pc : T → Pc

/-- No call has begun. -/
def ConnState.initial (T : Type*) : ConnState T where
  shared := .initial
  pc _ := .idle

variable {T : Type*} [DecidableEq T]

/-- One thread takes a step. -/
def ConnStep (s : ConnState T) (label : T × Action) (s' : ConnState T) : Prop :=
  ∃ sh pc, CallStep s.shared (s.pc label.1) label.2 sh pc ∧
    s' = ⟨sh, Function.update s.pc label.1 pc⟩

/-! ### The descriptor table follows the globals -/

namespace Shared

variable {sh : Shared}

/-- Connected: the globals hold the only two open descriptors. -/
structure Up (sh : Shared) : Prop where
  fd_nonneg : 0 ≤ sh.gFd
  disconnectFd_nonneg : 0 ≤ sh.gDisconnectFd
  distinct : sh.gDisconnectFd ≠ sh.gFd
  socket : sh.files sh.gFd = some (.socket sh.serial)
  event : ∃ counter, sh.files sh.gDisconnectFd = some (.event sh.serial counter)
  only : ∀ f, f ≠ sh.gFd → f ≠ sh.gDisconnectFd → sh.files f = none

/-- Not connected: no descriptor is open. -/
structure Down (sh : Shared) : Prop where
  fd : sh.gFd = -1
  disconnectFd : sh.gDisconnectFd = -1
  closed : ∀ f, sh.files f = none

/-- Connected or not, nothing in between. -/
def Wf (sh : Shared) : Prop := sh.Up ∨ sh.Down

theorem Up.eq_of_socket (up : sh.Up) {f : ℤ} {n : ℕ} (h : sh.files f = some (.socket n)) :
    f = sh.gFd ∧ n = sh.serial := by
  obtain ⟨counter, hevent⟩ := up.event
  by_cases hfd : f = sh.gFd
  · subst hfd
    rw [up.socket] at h
    cases h
    exact ⟨rfl, rfl⟩
  · by_cases hdfd : f = sh.gDisconnectFd
    · subst hdfd
      rw [hevent] at h
      cases h
    · rw [up.only f hfd hdfd] at h
      cases h

theorem Up.eq_of_event (up : sh.Up) {f : ℤ} {n k : ℕ} (h : sh.files f = some (.event n k)) :
    f = sh.gDisconnectFd ∧ n = sh.serial := by
  obtain ⟨counter, hevent⟩ := up.event
  by_cases hdfd : f = sh.gDisconnectFd
  · subst hdfd
    rw [hevent] at h
    cases h
    exact ⟨rfl, rfl⟩
  · by_cases hfd : f = sh.gFd
    · subst hfd
      rw [up.socket] at h
      cases h
    · rw [up.only f hfd hdfd] at h
      cases h

/-- A file is open only while connected. -/
theorem Wf.up_of_file (wf : sh.Wf) {f : ℤ} {file : File} (h : sh.files f = some file) : sh.Up := by
  rcases wf with up | down
  · exact up
  · rw [down.closed f] at h
    cases h

/-- Changing the counter of the eventfd keeps the connection. -/
theorem Up.setEvent (up : sh.Up) (counter : ℕ) :
    (sh.setFile sh.gDisconnectFd (.event sh.serial counter)).Up where
  fd_nonneg := up.fd_nonneg
  disconnectFd_nonneg := up.disconnectFd_nonneg
  distinct := up.distinct
  socket := (Function.update_of_ne up.distinct.symm _ _).trans up.socket
  event := ⟨counter, Function.update_self _ _ _⟩
  only f hfd hdfd := (Function.update_of_ne hdfd _ _).trans (up.only f hfd hdfd)

theorem close_setFile {fd : ℤ} (free : sh.files fd = none) (file : File) :
    (sh.setFile fd file).close fd = sh := by
  rw [close, setFile, Function.update_idem, ← free, Function.update_eq_self]

theorem setFile_close_comm {fd fd' : ℤ} (ne : fd ≠ fd') (file : File) :
    (sh.setFile fd' file).close fd = (sh.close fd).setFile fd' file :=
  congrArg (fun files => { sh with files := files }) (Function.update_comm ne.symm _ _ _)

end Shared

theorem connect_of_up {sh : Shared} (up : sh.Up) (os : ConnectCalls) :
    connect os sh = (sh, some sh.current) := if_pos up.fd_nonneg

/-- A new connection is complete, and a failed attempt changes nothing. -/
theorem connect_of_down {sh : Shared} (down : sh.Down) {os : ConnectCalls} (fresh : os.Fresh sh) :
    connect os sh = (sh, none) ∨
      ((connect os sh).1.Up ∧ (connect os sh).2 = some (connect os sh).1.current) := by
  have hfd : ¬ 0 ≤ sh.gFd := by
    rw [down.fd]
    decide
  rw [connect, if_neg hfd]
  by_cases hsocket : os.socket < 0
  · rw [if_pos hsocket]
    exact Or.inl rfl
  · rw [if_neg hsocket]
    have hfree := fresh.1 (by omega)
    by_cases heventfd : os.eventfd < 0
    · refine Or.inl ?_
      simp only [if_pos heventfd, Shared.close_setFile hfree]
    · obtain ⟨hfree', hne⟩ := fresh.2 (by omega)
      -- every later exit closes both descriptors
      have hundo : (((sh.setFile os.socket (.socket (sh.serial + 1))).setFile os.eventfd
          (.event (sh.serial + 1) 0)).close os.socket).close os.eventfd = sh := by
        rw [Shared.setFile_close_comm hne.symm, Shared.close_setFile hfree,
          Shared.close_setFile hfree']
      simp only [if_neg heventfd, hundo]
      split
      · exact Or.inl rfl
      · split
        · exact Or.inl rfl
        · split
          · exact Or.inl rfl
          · refine Or.inr ⟨?_, rfl⟩
            exact {
              fd_nonneg := by simpa using hsocket
              disconnectFd_nonneg := by simpa using heventfd
              distinct := hne
              socket := (Function.update_of_ne hne.symm _ _).trans (Function.update_self _ _ _)
              event := ⟨0, Function.update_self _ _ _⟩
              only := fun f hf hf' => (Function.update_of_ne hf' _ _).trans
                ((Function.update_of_ne hf _ _).trans (down.closed f)) }

/-- The signal is one more in the counter. -/
theorem disconnect_of_up {sh : Shared} (up : sh.Up) {counter : ℕ}
    (h : sh.files sh.gDisconnectFd = some (.event sh.serial counter)) :
    disconnect sh = sh.setFile sh.gDisconnectFd (.event sh.serial (counter + 1)) := by
  rw [disconnect, if_pos up.disconnectFd_nonneg, h]

theorem disconnect_of_down {sh : Shared} (down : sh.Down) : disconnect sh = sh := by
  rw [disconnect, if_neg]
  rw [down.disconnectFd]
  decide

theorem teardown_down {sh : Shared} (wf : sh.Wf) : (teardown sh).Down := by
  rcases wf with up | down
  · rw [teardown, if_pos up.fd_nonneg, if_pos up.disconnectFd_nonneg]
    refine ⟨rfl, rfl, fun f => ?_⟩
    by_cases hdfd : f = sh.gDisconnectFd
    · exact hdfd ▸ Function.update_self _ _ _
    · refine (Function.update_of_ne hdfd _ _).trans ?_
      by_cases hfd : f = sh.gFd
      · exact hfd ▸ Function.update_self _ _ _
      · exact (Function.update_of_ne hfd _ _).trans (up.only f hfd hdfd)
  · have hfd : ¬ 0 ≤ sh.gFd := by
      rw [down.fd]
      decide
    have hdfd : ¬ 0 ≤ sh.gDisconnectFd := by
      rw [down.disconnectFd]
      decide
    rw [teardown, if_neg hfd, if_neg hdfd]
    exact ⟨rfl, rfl, down.closed⟩

/-- What a step does to the globals: nothing, a new connection, a change of the
eventfd's counter, or the end of the connection. -/
theorem CallStep.shared_cases {sh sh' : Shared} {pc pc' : Pc} {a : Action} (wf : sh.Wf)
    (step : CallStep sh pc a sh' pc') :
    sh' = sh ∨ (sh.Down ∧ sh'.Up) ∨
      (sh.Up ∧ ∃ counter, sh' = sh.setFile sh.gDisconnectFd (.event sh.serial counter)) ∨
      (pc = .pollLeaving ∧ sh'.Down) := by
  cases step with
  | connectSection os fresh =>
    rcases wf with up | down
    · exact Or.inl (by rw [connect_of_up up])
    · rcases connect_of_down down fresh with h | h
      · exact Or.inl (by rw [h])
      · exact Or.inr (Or.inl ⟨down, h.1⟩)
  | disconnectSection room =>
    rcases wf with up | down
    · obtain ⟨counter, hevent⟩ := up.event
      exact Or.inr (Or.inr (Or.inl ⟨up, counter + 1, disconnect_of_up up hevent⟩))
    · exact Or.inl (disconnect_of_down down)
  | readEvent fd disconnectFd serial counter readable =>
    have up := wf.up_of_file readable
    obtain ⟨rfl, rfl⟩ := up.eq_of_event readable
    exact Or.inr (Or.inr (Or.inl ⟨up, 0, rfl⟩))
  | teardown => exact Or.inr (Or.inr (Or.inr ⟨rfl, teardown_down wf⟩))
  | _ => exact Or.inl rfl

theorem CallStep.wf {sh sh' : Shared} {pc pc' : Pc} {a : Action} (wf : sh.Wf)
    (step : CallStep sh pc a sh' pc') : sh'.Wf := by
  rcases step.shared_cases wf with rfl | ⟨-, up⟩ | ⟨up, counter, rfl⟩ | ⟨-, down⟩
  · exact wf
  · exact Or.inl up
  · exact Or.inl (up.setEvent counter)
  · exact Or.inr down

end ReKernelX.Client
