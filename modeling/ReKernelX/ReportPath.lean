import ReKernelX.Foundation.Channel
import ReKernelX.Client.Callbacks
import ReKernelX.Client.Family
import ReKernelX.EventPath
import ReKernelX.Module.Hooks
import ReKernelX.SettingsPath

/-!
# From the hooks to the callbacks

The whole way of a report. A hook finds something worth a report, `rkx_send_message`
packs it, netlink puts the datagram into the socket of the client or drops it, and the
loop of `pollEvent` takes one datagram after another, walks its messages and calls the
object in `g_callback`. Meanwhile clients change the tables, other hooks run, and the
callback object comes and goes.

The module, the socket and the client are one system here. A step is one call of a
hook, one request, one round of the loop; that each of them may be taken for a step is
shown where it is modelled call by call. Hooks run in any order, any allocation may
fail, and any datagram may be dropped because the socket is full. One thread polls, and
only the module sends to the group.

Two things are shown of every run. The callbacks are made in the order of the reports,
each at most once, and all of them if nothing was dropped. And a callback is never made
up: it goes back to a hook that saw a frozen process, or a packet for an app that the
clients had asked to monitor and not yet to forget.
-/

set_option autoImplicit false

namespace ReKernelX

open Bytes Netlink Transition

/-! ### The system -/

/-- What stays the same while the module is loaded. -/
structure Setup where
  jhash : List UInt8 → UInt32
  hash : UInt32 → Fin 64
  ipv6 : Bool
  sizeofBuffer : UInt64
  family : FamilyId

/-- The tables and `rkx_genl_registered`, whether there is an object in `g_callback`, the
datagrams in the socket of the client, and two histories: the events that were handed to
`rkx_send_message`, and the callbacks that were made. -/
structure ReportWorld where
  tables : RkxTables
  registered : Bool
  listening : Bool
  queue : List (List UInt8)
  reported : List RkxEvent
  called : List Client.Callback

/-- The module has just been loaded. -/
def ReportWorld.initial : ReportWorld where
  tables := noTables
  registered := true
  listening := false
  queue := []
  reported := []
  called := []

/-- What a hook finds when it runs. -/
def ReportWorld.env (setup : Setup) (s : ReportWorld) : ModuleEnv where
  hash := setup.hash
  netUid := s.tables.netUid
  ipv6 := setup.ipv6
  netlinkReady := s.registered
  sizeofBuffer := setup.sizeofBuffer

/-- What becomes of a send: the room in the buffer if there is one, what
`genlmsg_multicast` returns, and whether the socket of the client takes the datagram. -/
structure SendFate where
  spare : Option ℕ
  rc : ℤ
  queued : Bool

/-- The datagrams that an event puts into the socket. -/
def datagramsOf (family : FamilyId) (fate : SendFate) (event : RkxEvent) : List (List UInt8) :=
  match rkxSendMessage ⟨family, fate.spare, fun _ => fate.rc⟩ event with
  | .multicast message _ => if fate.queued then [message] else []
  | _ => []

/-- The buffer after `nl_recv`: the datagram over what was there before. -/
def nlRecv (stale : ℕ → UInt8) (datagram : List UInt8) : ℕ → UInt8 := fun a =>
  if a < 8192 then datagram.getD a (stale a) else stale a

inductive ReportLabel
  /-- A client calls one of the methods that send a request. -/
  | request (e : ClientCallEvent)
  | hook (call : HookCall) (fate : SendFate)
  | setCallback (on : Bool)
  /-- A round of the loop, with what the buffer held before. -/
  | poll (stale : ℕ → UInt8)
  /-- A round of the loop without a callback object, or without memory for a reference to it. -/
  | skip (outOfMemory : Bool)
  | unregister

/-- A step of the system. -/
inductive ReportStep (setup : Setup) (s : ReportWorld) : ReportLabel → ReportWorld → Prop
  | request {e : ClientCallEvent} (up : s.registered = true)
      (family : e.client.family = setup.family) :
      ReportStep setup s (.request e)
        { s with tables := (e.call.run setup.jhash setup.hash e.client e.env s.tables).tables }
  -- a call sends at most one event, so one fate is enough
  | hook (call : HookCall) (fate : SendFate) :
      ReportStep setup s (.hook call fate)
        { s with
          reported := s.reported ++ call.events (s.env setup)
          queue := s.queue ++ (call.events (s.env setup)).flatMap (datagramsOf setup.family fate) }
  | setCallback (on : Bool) : ReportStep setup s (.setCallback on) { s with listening := on }
  | poll {stale : ℕ → UInt8} {datagram : List UInt8} {rest : List (List UInt8)} {fuel : ℕ}
      {offsets : List ℕ} {calls : List (List Client.Callback)} (callback : s.listening = true)
      (head : s.queue = datagram :: rest)
      (walk : Client.receiveLoop (nlRecv stale datagram) fuel 0 (min datagram.length 8192 : ℕ) =
        some offsets)
      (handled : offsets.mapM (Client.handleEvent setup.family.id
        (Client.rbuf (nlRecv stale datagram))) = some calls) :
      ReportStep setup s (.poll stale)
        { s with queue := rest, called := s.called ++ calls.flatten }
  -- `NewLocalRef` is asked for an object that is there, and answers with null
  | skip {datagram : List UInt8} {rest : List (List UInt8)} {outOfMemory : Bool}
      (noReference : s.listening = false ∨ outOfMemory = true)
      (head : s.queue = datagram :: rest) :
      ReportStep setup s (.skip outOfMemory) { s with queue := rest }
  | unregister : ReportStep setup s .unregister { s with registered := false }

/-- Nothing gets lost in a step: there is memory for the message and room in the socket,
and nobody takes a datagram without handing it on. -/
def ReportLabel.Lossless : ReportLabel → Prop
  | .hook _ fate => fate.spare.isSome = true ∧ fate.queued = true
  | .skip _ => False
  | _ => True

/-- The requests of a run. -/
def requests (trace : List (ReportLabel × ReportWorld)) : List ClientCallEvent :=
  trace.filterMap fun entry =>
    match entry.1 with
    | .request e => some e
    | _ => none

/-! ### One datagram -/

/-- A datagram carries an event. -/
def Carries (family : FamilyId) (event : RkxEvent) (datagram : List UInt8) : Prop :=
  ∃ payload, event.payload = some payload ∧ datagram = eventMessage family payload

variable {family : FamilyId} {event : RkxEvent} {datagram : List UInt8}

theorem length_eventMessage (family : FamilyId) (payload : ℕ × List Attr) :
    (eventMessage family payload).length = 20 + (eventBody payload).length := by
  rw [eventMessage, List.length_append, length_genlHeader, nlmsgHdrlen, genlHdrlen]

/-- A message fits the buffer and needs no padding. -/
theorem Carries.length_bounds (h : Carries family event datagram) :
    16 ≤ datagram.length ∧ datagram.length ≤ 8192 ∧ datagram.length % 4 = 0 := by
  obtain ⟨payload, known, rfl⟩ := h
  have hbody : (eventBody payload).length ≤ 260 := length_eventBody_le known
  have hmod : (eventBody payload).length % 4 = 0 := length_encodeAttrs_mod _
  rw [length_eventMessage]
  omega

theorem holds_nlRecv (stale : ℕ → UInt8) (fits : datagram.length ≤ 8192) :
    Holds (Client.rbuf (nlRecv stale datagram)) 0 datagram := by
  refine holds_of_getElem? fun i hi => ?_
  rw [Nat.zero_add, Client.rbuf_of_lt (by omega), nlRecv, if_pos (by omega),
    List.getD_eq_getElem?_getD, List.getElem?_eq_getElem hi, Option.getD_some]

theorem Carries.nlmsgLen_eq (h : Carries family event datagram) (stale : ℕ → UInt8) :
    Client.nlmsgLen (nlRecv stale datagram) 0 = datagram.length := by
  obtain ⟨-, hfits, -⟩ := h.length_bounds
  have hholds := holds_nlRecv stale hfits
  obtain ⟨payload, known, rfl⟩ := h
  have hlength := length_eventMessage family payload
  rw [eventMessage] at hholds
  obtain ⟨hlen, -, -⟩ := Client.read_of_holds_genlHeader hholds
    (by rw [nlmsgHdrlen, genlHdrlen]; omega) family.id.toNat_lt
  rw [Client.readWord_rbuf (by omega)] at hlen
  rw [hlength]
  exact Option.some.inj hlen

/-- A datagram that is one message, with no padding missing, is dispatched once. -/
theorem receiveLoop_single {mem : ℕ → UInt8} {R : ℕ} (fits : R ≤ 8192) (header : 16 ≤ R)
    (padded : R % 4 = 0) (length : Client.nlmsgLen mem 0 = R) (fuel : ℕ) :
    Client.receiveLoop mem (fuel + 2) 0 R = some [0] := by
  have halign : align4 R = R := by
    rw [align4]
    omega
  have hfirst := Client.receiveLoop_of_message fits (Nat.zero_le R)
    (show nlmsgHdrlen ≤ Client.nlmsgLen mem 0 by rw [length]; exact header)
    (show 0 + Client.nlmsgLen mem 0 ≤ R by omega) (fuel + 1)
  -- behind the message nothing is left, and zero bytes are no message
  have hrest : Client.receiveLoop mem (fuel + 1) R 0 = some [] := by
    rw [Client.receiveLoop, if_neg]
    rw [Client.nlmsgOk_iff le_rfl (by omega), nlmsgHdrlen]
    omega
  rw [length, halign] at hfirst
  simp only [Nat.cast_zero, sub_zero, sub_self, zero_add, hrest] at hfirst
  exact hfirst

/-- With less fuel the loop is not through. -/
theorem eq_zero_of_receiveLoop {mem : ℕ → UInt8} {R fuel : ℕ} {offsets : List ℕ}
    (fits : R ≤ 8192) (header : 16 ≤ R) (padded : R % 4 = 0)
    (length : Client.nlmsgLen mem 0 = R)
    (walk : Client.receiveLoop mem fuel 0 R = some offsets) : offsets = [0] := by
  match fuel with
  | 0 => cases walk
  | 1 =>
    have hok : Client.nlmsgOk mem 0 (Client.sizeT R) = true := by
      rw [Client.nlmsgOk_iff (by omega) (by omega), nlmsgHdrlen]
      omega
    rw [Client.receiveLoop, if_pos hok, Client.receiveLoop] at walk
    cases walk
  | fuel + 2 =>
    rw [receiveLoop_single fits header padded length] at walk
    exact (Option.some.inj walk).symm

/-- What the client makes of a datagram that carries an event: one callback. -/
theorem Carries.handled (h : Carries family event datagram) (stale : ℕ → UInt8) :
    ∃ call, callbackOf event = some call ∧
      Client.handleEvent family.id (Client.rbuf (nlRecv stale datagram)) 0 = some [call] := by
  have hholds := holds_nlRecv stale h.length_bounds.2.1
  obtain ⟨payload, known, rfl⟩ := h
  have hevent := handleEvent_eventMessage family known hholds
  cases event with
  | binder b => exact ⟨_, rfl, hevent⟩
  | signal s => exact ⟨_, rfl, hevent⟩
  | network n => exact ⟨_, rfl, hevent⟩
  | other type => cases known

/-- As many callbacks as datagrams. -/
theorem length_callbacks {events : List RkxEvent} {queue : List (List UInt8)}
    (h : List.Forall₂ (Carries family) events queue) :
    (events.filterMap callbackOf).length = queue.length := by
  induction h with
  | nil => rfl
  | cons hcarries _ ih =>
    obtain ⟨call, hcall, -⟩ := hcarries.handled fun _ => 0
    rw [List.filterMap_cons_some hcall, List.length_cons, ih, List.length_cons]

theorem min_length_of_carries (h : Carries family event datagram) :
    min datagram.length 8192 = datagram.length :=
  Nat.min_eq_left h.length_bounds.2.1

/-- A round of the loop on such a datagram, whatever the buffer held. -/
theorem Carries.round (h : Carries family event datagram) {stale : ℕ → UInt8} {fuel : ℕ}
    {offsets : List ℕ} {calls : List (List Client.Callback)}
    (walk : Client.receiveLoop (nlRecv stale datagram) fuel 0 (min datagram.length 8192 : ℕ) =
      some offsets)
    (handled : offsets.mapM (Client.handleEvent family.id
      (Client.rbuf (nlRecv stale datagram))) = some calls) :
    ∃ call, callbackOf event = some call ∧ calls.flatten = [call] := by
  obtain ⟨hheader, hfits, hpadded⟩ := h.length_bounds
  rw [min_length_of_carries h] at walk
  obtain rfl := eq_zero_of_receiveLoop hfits hheader hpadded (h.nlmsgLen_eq stale) walk
  obtain ⟨call, hcall, hhandled⟩ := h.handled stale
  simp only [List.mapM_cons, List.mapM_nil, hhandled, Option.bind_eq_bind, Option.bind_some,
    pure, Option.some.injEq] at handled
  refine ⟨call, hcall, ?_⟩
  rw [← handled]
  rfl

/-! ### One send -/

/-- Every report has a message. -/
theorem HookCall.Noteworthy.exists_payload {env : ModuleEnv} {call : HookCall}
    (h : call.Noteworthy env event) : ∃ payload, event.payload = some payload := by
  cases h with
  | signalled => exact ⟨_, rfl⟩
  | replied => exact ⟨_, rfl⟩
  | filling => exact ⟨_, rfl⟩
  | called => exact ⟨_, rfl⟩
  | calledOneWay => exact ⟨_, rfl⟩
  | received => exact ⟨_, rfl⟩

/-- An event is put into the socket as a datagram that carries it, or it is lost. -/
theorem datagramsOf_cases {payload : ℕ × List Attr} (known : event.payload = some payload)
    (family : FamilyId) (fate : SendFate) :
    (∃ datagram, datagramsOf family fate event = [datagram] ∧ Carries family event datagram) ∨
      datagramsOf family fate event = [] ∧ ¬ (fate.spare.isSome = true ∧ fate.queued = true) := by
  obtain ⟨spare, rc, queued⟩ := fate
  cases spare with
  | none => exact Or.inr ⟨rfl, fun h => Bool.false_ne_true h.1⟩
  | some spare =>
    rw [datagramsOf, rkxSendMessage_eq known]
    cases queued with
    | false => exact Or.inr ⟨rfl, fun h => Bool.false_ne_true h.2⟩
    | true => exact Or.inl ⟨_, rfl, payload, known, rfl⟩

/-! ### The queue inside the system -/

/-- The system is at a state of the queue: what was reported was sent, a datagram waits
for each event that waits, and a callback was made for each event that was taken. -/
structure AtChannel (setup : Setup) (s : ReportWorld) (c : Channel.State RkxEvent) : Prop where
  sent : c.sent = s.reported
  waiting : List.Forall₂ (Carries setup.family) c.waiting s.queue
  taken : s.called = c.taken.filterMap callbackOf

variable {setup : Setup} {s s' : ReportWorld} {c : Channel.State RkxEvent} {label : ReportLabel}

theorem atChannel_initial : AtChannel setup .initial .empty := ⟨rfl, .nil, rfl⟩

/-- A hook sends, loses or has nothing to report. -/
theorem AtChannel.hook (h : AtChannel setup s c) (call : HookCall) (fate : SendFate) :
    ∃ kept c', Channel.Step c kept c' ∧
      AtChannel setup { s with
        reported := s.reported ++ call.events (s.env setup)
        queue := s.queue ++ (call.events (s.env setup)).flatMap (datagramsOf setup.family fate) }
        c' ∧
      (fate.spare.isSome = true ∧ fate.queued = true → kept = true) := by
  rcases call.events_cases (s.env setup) with hnone | ⟨event, hone, -, hnote⟩
  · refine ⟨true, c, .idle c, ?_, fun _ => rfl⟩
    simp only [hnone, List.flatMap_nil, List.append_nil]
    exact h
  · obtain ⟨payload, known⟩ := hnote.exists_payload
    rcases datagramsOf_cases known setup.family fate with ⟨datagram, hsent, hcarries⟩ |
      ⟨hlost, hbad⟩
    · refine ⟨true, _, .send c event, ?_, fun _ => rfl⟩
      simp only [hone, List.flatMap_singleton, hsent]
      exact ⟨by rw [h.sent], List.rel_append h.waiting (.cons hcarries .nil), h.taken⟩
    · refine ⟨false, _, .lose c event, ?_, fun hgood => absurd hgood hbad⟩
      simp only [hone, List.flatMap_singleton, hlost, List.append_nil]
      exact ⟨by rw [h.sent], h.waiting, h.taken⟩

/-- Every step is one of the queue. -/
theorem AtChannel.step (h : AtChannel setup s c) (step : ReportStep setup s label s') :
    ∃ kept c', Channel.Step c kept c' ∧ AtChannel setup s' c' ∧
      (label.Lossless → kept = true) := by
  cases step with
  | request up family => exact ⟨true, c, .idle c, ⟨h.sent, h.waiting, h.taken⟩, fun _ => rfl⟩
  | hook call fate => exact h.hook call fate
  | setCallback on => exact ⟨true, c, .idle c, ⟨h.sent, h.waiting, h.taken⟩, fun _ => rfl⟩
  | poll callback head walk handled =>
    have hwaiting := h.waiting
    rw [head] at hwaiting
    obtain ⟨event, events, hcarries, hrest, heq⟩ := List.forall₂_cons_right_iff.mp hwaiting
    obtain ⟨call, hcall, hcalls⟩ := hcarries.round walk handled
    refine ⟨true, _, .take heq, ⟨h.sent, hrest, ?_⟩, fun _ => rfl⟩
    rw [List.filterMap_append, ← h.taken, hcalls, List.filterMap_cons_some hcall]
    rfl
  | skip noReference head =>
    have hwaiting := h.waiting
    rw [head] at hwaiting
    obtain ⟨event, events, hcarries, hrest, heq⟩ := List.forall₂_cons_right_iff.mp hwaiting
    exact ⟨false, _, .discard heq, ⟨h.sent, hrest, h.taken⟩, False.elim⟩
  | unregister => exact ⟨true, c, .idle c, ⟨h.sent, h.waiting, h.taken⟩, fun _ => rfl⟩

/-- A datagram in the socket can always be dispatched. -/
theorem AtChannel.exists_poll (h : AtChannel setup s c) {rest : List (List UInt8)}
    (callback : s.listening = true) (head : s.queue = datagram :: rest) (stale : ℕ → UInt8) :
    ∃ call, ReportStep setup s (.poll stale)
      { s with queue := rest, called := s.called ++ [call] } := by
  have hwaiting := h.waiting
  rw [head] at hwaiting
  obtain ⟨event, events, hcarries, -, -⟩ := List.forall₂_cons_right_iff.mp hwaiting
  obtain ⟨hheader, hfits, hpadded⟩ := hcarries.length_bounds
  obtain ⟨call, -, hhandled⟩ := hcarries.handled stale
  have hwalk := receiveLoop_single hfits hheader hpadded (hcarries.nlmsgLen_eq stale) 0
  rw [← min_length_of_carries hcarries] at hwalk
  have hcalls : [0].mapM (Client.handleEvent setup.family.id
      (Client.rbuf (nlRecv stale datagram))) = some [[call]] := by
    simp [hhandled]
  exact ⟨call, .poll callback head hwalk hcalls⟩

/-! ### Every run -/

variable {trace : List (ReportLabel × ReportWorld)}

theorem exists_atChannel (run : Run (ReportStep setup) .initial trace s) :
    ∃ c, AtChannel setup s c ∧ c.InOrder ∧
      ((∀ entry ∈ trace, entry.1.Lossless) → c.Complete) :=
  Channel.exists_of_run atChannel_initial (fun _ _ _ _ h step => h.step step) run

/-- The callbacks are some of the reports, in their order. -/
theorem called_sublist (run : Run (ReportStep setup) .initial trace s) :
    s.called.Sublist (s.reported.filterMap callbackOf) := by
  obtain ⟨c, hc, hinOrder, -⟩ := exists_atChannel run
  rw [hc.taken, ← hc.sent]
  exact ((List.sublist_append_left c.taken c.waiting).trans hinOrder).filterMap callbackOf

def someSetup : Setup := ⟨fun _ => 0, uidRemainder, true, 88, someClient.family⟩

def killCall : HookCall := .sendSigInfo sigkill (some callerTask) (some (calleeTask 10001))

def keptFate : SendFate := ⟨some 0, 0, true⟩

/-- What the app is told. -/
def killCallback : Client.Callback := .signal 9 1000 1 10001 2

theorem exists_run_killed :
    ∃ trace s, Run (ReportStep someSetup) .initial trace s ∧ s.called = [killCallback] ∧
      ∀ entry ∈ trace, entry.1.Lossless := by
  have hlisten : Run (ReportStep someSetup) .initial _ _ := Run.nil.snoc (.setCallback true)
  have hkill := hlisten.snoc (.hook killCall keptFate)
  obtain ⟨datagram, hdatagram⟩ : ∃ datagram,
      (killCall.events (ReportWorld.env someSetup
        { ReportWorld.initial with listening := true })).flatMap
        (datagramsOf someSetup.family keptFate) = [datagram] := by
    have hevents : killCall.events (ReportWorld.env someSetup
        { ReportWorld.initial with listening := true }) =
          [.signal ⟨9, 1, 1000, 2, 10001⟩] := rfl
    rw [hevents, List.flatMap_singleton]
    have hknown : RkxEvent.payload (.signal ⟨9, 1, 1000, 2, 10001⟩) = some _ := rfl
    rcases datagramsOf_cases hknown someSetup.family keptFate with ⟨datagram, hsent, -⟩ | ⟨-, hbad⟩
    · exact ⟨datagram, hsent⟩
    · exact absurd ⟨rfl, rfl⟩ hbad
  obtain ⟨c, hc, -⟩ := exists_atChannel hkill
  obtain ⟨call, hpoll⟩ := hc.exists_poll rfl hdatagram fun _ => 0
  have hrun := hkill.snoc hpoll
  refine ⟨_, _, hrun, ?_, ?_⟩
  · -- the only report there is
    have hsub : [call].Sublist [killCallback] := called_sublist hrun
    exact hsub.eq_of_length rfl
  · intro entry hentry
    simp only [List.nil_append, List.cons_append, List.mem_cons, List.not_mem_nil, or_false]
      at hentry
    rcases hentry with rfl | rfl | rfl
    · trivial
    · exact ⟨rfl, rfl⟩
    · trivial

theorem requests_request (trace : List (ReportLabel × ReportWorld)) (e : ClientCallEvent)
    (s : ReportWorld) : requests (trace ++ [(.request e, s)]) = requests trace ++ [e] := by
  rw [requests, List.filterMap_append]
  rfl

theorem requests_other (trace : List (ReportLabel × ReportWorld)) (s : ReportWorld)
    (other : ∀ e, label ≠ .request e) : requests (trace ++ [(label, s)]) = requests trace := by
  rw [requests, List.filterMap_append]
  cases label with
  | request e => exact absurd rfl (other e)
  | hook call fate => exact List.append_nil _
  | setCallback on => exact List.append_nil _
  | poll stale => exact List.append_nil _
  | skip outOfMemory => exact List.append_nil _
  | unregister => exact List.append_nil _

/-- Only requests change the tables. -/
theorem ReportStep.tables_eq (step : ReportStep setup s label s')
    (other : ∀ e, label ≠ .request e) : s'.tables = s.tables := by
  cases step with
  | request up family => exact absurd rfl (other _)
  | hook call fate => rfl
  | setCallback on => rfl
  | poll callback head walk handled => rfl
  | skip noReference head => rfl
  | unregister => rfl

/-- The tables hold what the requests of the run have set up. -/
theorem stands_of_run (run : Run (ReportStep setup) .initial trace s) :
    s.tables.Stands setup.jhash setup.hash (settingsAfter (requests trace)) := by
  induction run with
  | nil => exact RkxTables.stands_noTables
  | @snoc trace s s' label run step ih =>
    by_cases hrequest : ∃ e, label = .request e
    · obtain ⟨e, rfl⟩ := hrequest
      rw [requests_request, settingsAfter, List.foldl_append]
      cases step with
      | request up family => exact ih.call e.client e.env e.call
    · have hother : ∀ e, label ≠ .request e := fun e he => hrequest ⟨e, he⟩
      rw [requests_other trace s' hother, step.tables_eq hother]
      exact ih

/-- What was reported was reported by a hook. -/
theorem exists_hook_of_reported (run : Run (ReportStep setup) .initial trace s)
    (mem : event ∈ s.reported) :
    ∃ before call fate u u' after, trace = before ++ (.hook call fate, u') :: after ∧
      Run (ReportStep setup) .initial before u ∧ event ∈ call.events (u.env setup) := by
  -- by the last step: it is the hook, or the report is older
  induction run with
  | nil => cases mem
  | @snoc trace s s' label run step ih =>
    have hearlier (old : event ∈ s.reported) :
        ∃ before call fate u u' after,
          trace ++ [(label, s')] = before ++ (.hook call fate, u') :: after ∧
          Run (ReportStep setup) .initial before u ∧ event ∈ call.events (u.env setup) := by
      obtain ⟨before, call, fate, u, u', after, htrace, hrun, hevent⟩ := ih old
      refine ⟨before, call, fate, u, u', after ++ [(label, s')], ?_, hrun, hevent⟩
      rw [htrace, List.append_assoc, List.cons_append]
    cases step with
    | hook call fate =>
      rcases List.mem_append.mp mem with hold | hnew
      · exact hearlier hold
      · exact ⟨trace, call, fate, s, _, [], rfl, run, hnew⟩
    | request up family => exact hearlier mem
    | setCallback on => exact hearlier mem
    | poll callback head walk handled => exact hearlier mem
    | skip noReference head => exact hearlier mem
    | unregister => exact hearlier mem

/-- **No callback without a cause.** Every callback of every run goes back to one call of a hook,
while the family was registered, that the event of the callback stands for. The event names the
process the hook ran for, and that process was frozen; or it is about a packet for an app that the
requests made before had asked to monitor and not to forget since. -/
theorem callbacks_are_grounded (setup : Setup) (trace : List (ReportLabel × ReportWorld))
    (s : ReportWorld) (run : Run (ReportStep setup) .initial trace s) (callback : Client.Callback)
    (mem : callback ∈ s.called) :
    ∃ before call fate u u' after event,
      trace = before ++ (.hook call fate, u') :: after ∧
      Run (ReportStep setup) .initial before u ∧ u.registered = true ∧
      call.Noteworthy (u.env setup) event ∧ callbackOf event = some callback ∧
      event.Grounded {uid | uid ∈ (settingsAfter (requests before)).uids} call := by
  obtain ⟨event, hreported, hcallback⟩ :=
    List.mem_filterMap.mp ((called_sublist run).subset mem)
  obtain ⟨before, call, fate, u, u', after, htrace, hbefore, hevent⟩ :=
    exists_hook_of_reported run hreported
  obtain ⟨hready, hnote⟩ := HookCall.mem_events_iff.mp hevent
  refine ⟨before, call, fate, u, u', after, event, htrace, hbefore, hready, hnote, hcallback, ?_⟩
  -- the set the hook looked into is the one the requests describe
  have hset : {uid | rkxNetUidMonitoredRcu (u.env setup).hash (u.env setup).netUid uid = true} =
      {uid | uid ∈ (settingsAfter (requests before)).uids} := by
    ext uid
    exact (stands_of_run hbefore).monitored_iff uid
  rw [← hset]
  exact hnote.grounded

theorem callbacks_are_grounded_killed :
    ∃ trace s, Run (ReportStep someSetup) .initial trace s ∧ killCallback ∈ s.called ∧
      ∃ before call fate u' after event, trace = before ++ (.hook call fate, u') :: after ∧
        callbackOf event = some killCallback ∧
        event.Grounded {uid | uid ∈ (settingsAfter (requests before)).uids} call := by
  obtain ⟨trace, s, run, hcalled, -⟩ := exists_run_killed
  have hmem : killCallback ∈ s.called := by
    rw [hcalled]
    exact List.mem_cons_self
  obtain ⟨before, call, fate, u, u', after, event, htrace, -, -, -, hcallback, hgrounded⟩ :=
    callbacks_are_grounded someSetup trace s run killCallback hmem
  exact ⟨trace, s, run, hmem, before, call, fate, u', after, event, htrace, hcallback, hgrounded⟩

end ReKernelX
