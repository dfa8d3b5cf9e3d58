import ReKernelX.Module.Genl
import ReKernelX.Client.Events

/-!
# Events from the kernel to Java

The module encodes events with the numbers of `rkx.h`, the client decodes
messages with the numbers of `rkx_uapi.h`. Composed, they deliver every event
unchanged: one callback of the right kind, each field at its own position.
-/

set_option autoImplicit false

namespace ReKernelX

open Bytes Netlink

variable {m : Memory}

/-- The callback an event stands for: user ids are reinterpreted as signed, bytes
are extended with zeros. -/
def callbackOf : RkxEvent → Option Client.Callback
  | .binder b =>
    some (.binder b.binderType.toUInt32.toInt32 b.oneway.toUInt32.toInt32 b.fromUid.toInt32
      b.fromPid b.targetUid.toInt32 b.targetPid b.rpcName b.code)
  | .signal s =>
    some (.signal s.signal s.killerUid.toInt32 s.killerPid s.dstUid.toInt32 s.dstPid)
  | .network n => some (.network n.proto.toUInt32.toInt32 n.targetUid.toInt32 n.dataLen)
  | .other _ => none

/-! ### One handler for each kind -/

/-- The attributes inside a payload are found by the client's parser. -/
theorem finds_payload (event : RkxEvent) {type : ℕ} {attrs : List Attr} {pos : ℕ}
    (known : event.payload = some (type, attrs)) (plain : type < 2 ^ 14)
    (numbers : ∀ n ∈ attrs.map Prod.fst,
      n < 2 ^ 16 ∧ 0 < Client.nlaType n ∧ Client.nlaType n ≤ Client.rkxAMax)
    (distinct : ((attrs.map Prod.fst).map Client.nlaType).Nodup)
    (h : Holds m pos (encodeAttr (type ||| nlaFNested) (encodeAttrs attrs))) :
    ∃ tb, Client.rkxNlaParseNested m Client.rkxAMax pos = some tb ∧ Client.Finds m tb attrs := by
  have hlen : (encodeAttrs attrs).length ≤ 200 := length_payload_le known
  have hreadable : Client.Readable Client.rkxAMax attrs := ⟨numbers, distinct, by omega⟩
  exact Client.rkxNlaParseNested_encodeAttrs hreadable h (by rw [nlaHdrlen]; omega)
    (Client.nlaType_nested plain).2

theorem handleBinderEvent_binderAttrs {b : RkxBinderEvent} {pos : ℕ}
    (h : Holds m pos (encodeAttr (rkxABinder ||| nlaFNested) (encodeAttrs (binderAttrs b)))) :
    Client.handleBinderEvent m pos = callbackOf (.binder b) := by
  obtain ⟨tb, hparse, hfinds⟩ := finds_payload (.binder b) rfl (by decide)
    (show ∀ n ∈ [11, 12, 13, 14, 15, 16, 17, 18], _ by decide)
    (show (List.map _ [11, 12, 13, 14, 15, 16, 17, 18]).Nodup by decide) h
  -- the module's number of each field is the client's, so the field is found at its position
  have htype : Client.rkxNlaGet m (tb Client.rkxABinderType) (-1) =
      some b.binderType.toUInt32.toInt32 := hfinds.get (k := 0) rfl (by decide) _
  have honeway : Client.rkxNlaGet m (tb Client.rkxABinderOneway) (-1) =
      some b.oneway.toUInt32.toInt32 := hfinds.get (k := 1) rfl (by decide) _
  have hfromPid : Client.rkxNlaGet m (tb Client.rkxABinderFromPid) (-1) = some b.fromPid :=
    hfinds.get (k := 2) rfl (by decide) _
  have hfromUid : Client.rkxNlaGet m (tb Client.rkxABinderFromUid) (-1) =
      some b.fromUid.toInt32 := hfinds.get (k := 3) rfl (by decide) _
  have htargetPid : Client.rkxNlaGet m (tb Client.rkxABinderTargetPid) (-1) = some b.targetPid :=
    hfinds.get (k := 4) rfl (by decide) _
  have htargetUid : Client.rkxNlaGet m (tb Client.rkxABinderTargetUid) (-1) =
      some b.targetUid.toInt32 := hfinds.get (k := 5) rfl (by decide) _
  have hcode : Client.rkxNlaGet m (tb Client.rkxABinderCode) (-1) = some b.code :=
    hfinds.get (k := 6) rfl (by decide) _
  have hname : Client.copyRpcName m (tb Client.rkxABinderRpcName) = some b.rpcName :=
    hfinds.copyRpcName (k := 7) rfl (by decide) b.terminated
  simp only [Client.handleBinderEvent, hparse, htype, honeway, hfromPid, hfromUid, htargetPid,
    htargetUid, hcode, hname, Option.bind_eq_bind, Option.bind_some]
  rfl

theorem handleSignalEvent_signalAttrs {s : RkxSignalEvent} {pos : ℕ}
    (h : Holds m pos (encodeAttr (rkxASignal ||| nlaFNested) (encodeAttrs (signalAttrs s)))) :
    Client.handleSignalEvent m pos = callbackOf (.signal s) := by
  obtain ⟨tb, hparse, hfinds⟩ := finds_payload (.signal s) rfl (by decide)
    (show ∀ n ∈ [21, 22, 23, 24, 25], _ by decide)
    (show (List.map _ [21, 22, 23, 24, 25]).Nodup by decide) h
  have hsignal : Client.rkxNlaGet m (tb Client.rkxASignalSignal) (-1) = some s.signal :=
    hfinds.get (k := 0) rfl (by decide) _
  have hkillerPid : Client.rkxNlaGet m (tb Client.rkxASignalKillerPid) (-1) = some s.killerPid :=
    hfinds.get (k := 1) rfl (by decide) _
  have hkillerUid : Client.rkxNlaGet m (tb Client.rkxASignalKillerUid) (-1) =
      some s.killerUid.toInt32 := hfinds.get (k := 2) rfl (by decide) _
  have hdstPid : Client.rkxNlaGet m (tb Client.rkxASignalDstPid) (-1) = some s.dstPid :=
    hfinds.get (k := 3) rfl (by decide) _
  have hdstUid : Client.rkxNlaGet m (tb Client.rkxASignalDstUid) (-1) =
      some s.dstUid.toInt32 := hfinds.get (k := 4) rfl (by decide) _
  simp only [Client.handleSignalEvent, hparse, hsignal, hkillerPid, hkillerUid, hdstPid, hdstUid,
    Option.bind_eq_bind, Option.bind_some]
  rfl

theorem handleNetworkEvent_networkAttrs {n : RkxNetworkEvent} {pos : ℕ}
    (h : Holds m pos (encodeAttr (rkxANetwork ||| nlaFNested) (encodeAttrs (networkAttrs n)))) :
    Client.handleNetworkEvent m pos = callbackOf (.network n) := by
  obtain ⟨tb, hparse, hfinds⟩ := finds_payload (.network n) rfl (by decide)
    (show ∀ n ∈ [31, 32, 33], _ by decide) (show (List.map _ [31, 32, 33]).Nodup by decide) h
  have hproto : Client.rkxNlaGet m (tb Client.rkxANetworkProto) (-1) =
      some n.proto.toUInt32.toInt32 := hfinds.get (k := 0) rfl (by decide) _
  have htargetUid : Client.rkxNlaGet m (tb Client.rkxANetworkTargetUid) (-1) =
      some n.targetUid.toInt32 := hfinds.get (k := 1) rfl (by decide) _
  have hdataLen : Client.rkxNlaGet m (tb Client.rkxANetworkDataLen) (-1) = some n.dataLen :=
    hfinds.get (k := 2) rfl (by decide) _
  simp only [Client.handleNetworkEvent, hparse, hproto, htargetUid, hdataLen, Option.bind_eq_bind,
    Option.bind_some]
  rfl

/-! ### The whole path -/

theorem payload_number {event : RkxEvent} {payload : ℕ × List Attr}
    (known : event.payload = some payload) : 0 < payload.1 ∧ payload.1 ≤ Client.rkxAMax := by
  cases event with
  | binder b =>
    obtain rfl := Option.some.inj known
    exact show 0 < rkxABinder ∧ rkxABinder ≤ Client.rkxAMax by decide
  | signal s =>
    obtain rfl := Option.some.inj known
    exact show 0 < rkxASignal ∧ rkxASignal ≤ Client.rkxAMax by decide
  | network n =>
    obtain rfl := Option.some.inj known
    exact show 0 < rkxANetwork ∧ rkxANetwork ≤ Client.rkxAMax by decide
  | other type => cases known

/-- Of the three handlers, the one for the event's kind runs. -/
theorem dispatchEvent_payload {event : RkxEvent} {payload : ℕ × List Attr}
    {evtTb : Client.AttrTable} (known : event.payload = some payload)
    (finds : Client.Finds m evtTb [nestedAttr payload.1 payload.2]) :
    Client.dispatchEvent m evtTb = (callbackOf event).map fun call => [call] := by
  have hnumber := payload_number known
  rw [Client.rkxAMax] at hnumber
  obtain ⟨⟨pos, hpos, hpayload⟩, habsent⟩ := finds.nested (by omega)
  cases event with
  | binder b =>
    obtain rfl := Option.some.inj known
    have hbinder : evtTb Client.rkxABinder = some pos := hpos
    have hsignal := habsent _ (show Client.rkxASignal ≠ rkxABinder by decide)
    have hnetwork := habsent _ (show Client.rkxANetwork ≠ rkxABinder by decide)
    simp only [Client.dispatchEvent, Client.dispatch, hbinder, hsignal, hnetwork,
      handleBinderEvent_binderAttrs hpayload]
    rfl
  | signal s =>
    obtain rfl := Option.some.inj known
    have hsignal : evtTb Client.rkxASignal = some pos := hpos
    have hbinder := habsent _ (show Client.rkxABinder ≠ rkxASignal by decide)
    have hnetwork := habsent _ (show Client.rkxANetwork ≠ rkxASignal by decide)
    simp only [Client.dispatchEvent, Client.dispatch, hbinder, hsignal, hnetwork,
      handleSignalEvent_signalAttrs hpayload]
    rfl
  | network n =>
    obtain rfl := Option.some.inj known
    have hnetwork : evtTb Client.rkxANetwork = some pos := hpos
    have hbinder := habsent _ (show Client.rkxABinder ≠ rkxANetwork by decide)
    have hsignal := habsent _ (show Client.rkxASignal ≠ rkxANetwork by decide)
    simp only [Client.dispatchEvent, Client.dispatch, hbinder, hsignal, hnetwork,
      handleNetworkEvent_networkAttrs hpayload]
    rfl
  | other type => cases known

/-- Both outer levels of nesting are opened on the way to the handlers. -/
theorem handlePayload_eventBody {event : RkxEvent} {payload : ℕ × List Attr} {pos : ℕ}
    (known : event.payload = some payload) (h : Holds m pos (eventBody payload)) :
    Client.handlePayload m pos (eventBody payload).length =
      (callbackOf event).map fun call => [call] := by
  have hbody : (eventBody payload).length ≤ 260 := length_eventBody_le known
  have hinner : nlaHdrlen + (encodeAttrs [nestedAttr payload.1 payload.2]).length ≤
      (eventBody payload).length := by
    rw [eventBody, length_encodeAttrs_nested rkxAEvent]
    exact le_align4 _
  have hnumber := payload_number known
  -- below the flag bits, so that masking the type gives it back
  have hplain : payload.1 < 2 ^ 14 := lt_of_le_of_lt hnumber.2 (by decide)
  obtain ⟨tb, hparse, hfinds⟩ := Client.rkxNlaParse_encodeAttrs
    (Client.readable_nested (by decide) (show 0 < rkxAEvent ∧ _ ≤ Client.rkxAMax by decide)
      (show (eventBody payload).length < 2 ^ 16 by omega)) h
  obtain ⟨⟨evt, hevt, hnest⟩, -⟩ := hfinds.nested (by decide)
  have hevent : tb Client.rkxAEvent = some evt := hevt
  -- the second level holds the payload's attribute and nothing else
  obtain ⟨evtTb, hnested, hevtFinds⟩ := Client.rkxNlaParseNested_encodeAttrs
    (Client.readable_nested hplain hnumber
      (show (encodeAttrs [nestedAttr payload.1 payload.2]).length < 2 ^ 16 by omega))
    hnest (show nlaHdrlen + (encodeAttrs [nestedAttr payload.1 payload.2]).length < 2 ^ 16 by omega)
    (Client.nlaType_nested (by decide)).2
  have hparse' : Client.rkxNlaParse m Client.rkxAMax pos (eventBody payload).length = some tb :=
    hparse
  simp only [Client.handlePayload, hparse', hevent, hnested, Option.bind_eq_bind,
    Option.bind_some, dispatchEvent_payload known hevtFinds]

/-- What the client makes of the message of an event. -/
theorem handleEvent_eventMessage {event : RkxEvent} {payload : ℕ × List Attr} {nlh : ℕ}
    (family : FamilyId) (known : event.payload = some payload)
    (h : Holds m nlh (eventMessage family payload)) :
    Client.handleEvent family.id m nlh = (callbackOf event).map fun call => [call] := by
  have hbody : (eventBody payload).length ≤ 260 := length_eventBody_le known
  have hattrs : Holds m (nlh + (nlmsgHdrlen + genlHdrlen)) (eventBody payload) := by
    rw [eventMessage, holds_append, length_genlHeader] at h
    exact h.2
  rw [Client.handleEvent_of_header h family.dynamic (by omega),
    handlePayload_eventBody known hattrs]

/-- Every event of a known type is sent, whatever its fields, and the client makes
exactly one callback for its message, with exactly its fields. -/
theorem event_reaches_callback (family : FamilyId) (spare : ℕ) (multicast : List UInt8 → ℤ)
    (event : RkxEvent) (call : Client.Callback) (known : callbackOf event = some call) :
    ∃ message,
      rkxSendMessage ⟨family, some spare, multicast⟩ event =
        .multicast message (multicast message) ∧
      ∀ (m : Memory) (nlh : ℕ), Holds m nlh message →
        Client.handleEvent family.id m nlh = some [call] := by
  obtain ⟨payload, hpayload⟩ : ∃ payload, event.payload = some payload := by
    cases event with
    | binder b => exact ⟨_, rfl⟩
    | signal s => exact ⟨_, rfl⟩
    | network n => exact ⟨_, rfl⟩
    | other type => cases known
  refine ⟨eventMessage family payload, rkxSendMessage_eq hpayload family spare multicast, ?_⟩
  intro m nlh hmessage
  rw [handleEvent_eventMessage family hpayload hmessage, known, Option.map_some]

/-- A one-way call whose sender has the largest user id. -/
def overflowUidCall : RkxBinderEvent where
  binderType := 1
  oneway := 1
  fromPid := 700
  fromUid := 4294967295
  targetPid := 800
  targetUid := 10001
  code := -3
  rpcName := ⟨[105, 46, 66], by decide⟩
  terminated := by decide

theorem event_reaches_callback_overflowUidCall :
    ∃ message,
      rkxSendMessage ⟨⟨16, by decide⟩, some 0, fun _ => 0⟩ (.binder overflowUidCall) =
        .multicast message 0 ∧
      Client.handleEvent 16 (Memory.ofList message) 0 =
        some [.binder 1 1 (-1) 700 10001 800 ⟨[105, 46, 66], by decide⟩ (-3)] := by
  obtain ⟨message, hsent, hhandled⟩ :=
    event_reaches_callback ⟨16, by decide⟩ 0 (fun _ => 0) (.binder overflowUidCall)
      (.binder 1 1 (-1) 700 10001 800 ⟨[105, 46, 66], by decide⟩ (-3)) rfl
  exact ⟨message, hsent, hhandled _ 0 (holds_ofList [] message)⟩

end ReKernelX
