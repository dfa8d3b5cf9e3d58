import ReKernelX.Foundation.Netlink
import ReKernelX.Module.Abi

/-!
# Sending events

`rkx_send_message` packs an event into a generic netlink message: an attribute
`RKX_A_EVENT` around one attribute for the kind of event, around one attribute
for each field. The room for it is fixed when the buffer is allocated, so every
event has to fit, the longest interface name included.
-/

set_option autoImplicit false

namespace ReKernelX

open Bytes Netlink

/-! ### Events -/

/-- `struct rkx_binder_event`. The name is terminated inside its array. -/
structure RkxBinderEvent where
  binderType : UInt8
  oneway : UInt8
  fromPid : Int32
  fromUid : UInt32
  targetPid : Int32
  targetUid : UInt32
  code : Int32
  rpcName : CString
  terminated : rpcName.strlen < rkxInterfacetokenBuffSize

/-- `struct rkx_signal_event` -/
structure RkxSignalEvent where
  signal : Int32
  killerPid : Int32
  killerUid : UInt32
  dstPid : Int32
  dstUid : UInt32

/-- `struct rkx_network_event` -/
structure RkxNetworkEvent where
  proto : UInt8
  targetUid : UInt32
  dataLen : Int32

/-- `struct rkx_event`: the type selects the member of the union, and a type
outside `enum rkx_event_type` selects none. -/
inductive RkxEvent
  | binder (b : RkxBinderEvent)
  | signal (s : RkxSignalEvent)
  | network (n : RkxNetworkEvent)
  | other (type : UInt8)

/-! ### Attributes of an event -/

/-- `nla_put_s32` -/
def nlaS32 (type : ℕ) (value : Int32) : Attr := (type, leBytes 4 value.toUInt32.toNat)

/-- `nla_put_string`: the terminator is part of the payload -/
def nlaString (type : ℕ) (s : CString) : Attr := (type, s.withNul)

def binderAttrs (b : RkxBinderEvent) : List Attr :=
  [nlaS32 rkxABinderType b.binderType.toUInt32.toInt32,
    nlaS32 rkxABinderOneway b.oneway.toUInt32.toInt32,
    nlaS32 rkxABinderFromPid b.fromPid,
    nlaS32 rkxABinderFromUid b.fromUid.toInt32,
    nlaS32 rkxABinderTargetPid b.targetPid,
    nlaS32 rkxABinderTargetUid b.targetUid.toInt32,
    nlaS32 rkxABinderCode b.code,
    nlaString rkxABinderRpcName b.rpcName]

def signalAttrs (s : RkxSignalEvent) : List Attr :=
  [nlaS32 rkxASignalSignal s.signal,
    nlaS32 rkxASignalKillerPid s.killerPid,
    nlaS32 rkxASignalKillerUid s.killerUid.toInt32,
    nlaS32 rkxASignalDstPid s.dstPid,
    nlaS32 rkxASignalDstUid s.dstUid.toInt32]

def networkAttrs (n : RkxNetworkEvent) : List Attr :=
  [nlaS32 rkxANetworkProto n.proto.toUInt32.toInt32,
    nlaS32 rkxANetworkTargetUid n.targetUid.toInt32,
    nlaS32 rkxANetworkDataLen n.dataLen]

/-- The `switch` of `rkx_send_message`; an unknown type goes to `nla_fail`. -/
def putPayload : RkxEvent → SkBuff → Option SkBuff
  | .binder b => nlaNest rkxABinder (nlaPutEach (binderAttrs b))
  | .signal s => nlaNest rkxASignal (nlaPutEach (signalAttrs s))
  | .network n => nlaNest rkxANetwork (nlaPutEach (networkAttrs n))
  | .other _ => fun _ => none

/-! ### Sending -/

/-- The family id that registration assigned: dynamic ids start above the
control messages. -/
structure FamilyId where
  id : UInt16
  dynamic : 16 ≤ id.toNat

/-- What is outside a send: how much room the allocation gave beyond the request,
if it succeeded, and what `genlmsg_multicast` returns. -/
structure SendEnv where
  family : FamilyId
  spare : Option ℕ
  multicast : List UInt8 → ℤ

/-- How `rkx_send_message` ends. -/
inductive SendOutcome
  /-- `genlmsg_new` or `genlmsg_put` failed. -/
  | noBuffer
  /-- The path through the label `nla_fail`. -/
  | nlaFail
  /-- The message was handed to `genlmsg_multicast`. -/
  | multicast (message : List UInt8) (rc : ℤ)
deriving DecidableEq

/-- The return value of `rkx_send_message`; nobody listening is not an error. -/
def SendOutcome.returned : SendOutcome → ℤ
  | .noBuffer => rkxError
  | .nlaFail => rkxError
  | .multicast _ rc => if rc ≠ 0 ∧ rc ≠ -esrch then rkxError else rkxSuccess

/-- `rkx_send_message` -/
def rkxSendMessage (env : SendEnv) (event : RkxEvent) : SendOutcome :=
  match genlmsgNew (nlaTotalSize 256) env.spare with
  | none => .noBuffer
  | some skb =>
    match genlmsgPut skb env.family.id.toNat rkxCEvent rkxGenlVersion with
    | none => .noBuffer
    | some skb =>
      match nlaNest rkxAEvent (putPayload event) skb with
      | none => .nlaFail
      | some skb =>
        let message := (genlmsgEnd skb).data
        .multicast message (env.multicast message)

/-! ### The message of an event -/

/-- The attribute for the kind of an event and the attributes inside it. -/
def RkxEvent.payload : RkxEvent → Option (ℕ × List Attr)
  | .binder b => some (rkxABinder, binderAttrs b)
  | .signal s => some (rkxASignal, signalAttrs s)
  | .network n => some (rkxANetwork, networkAttrs n)
  | .other _ => none

/-- An attribute that holds attributes. -/
def nestedAttr (type : ℕ) (attrs : List Attr) : Attr := (type ||| nlaFNested, encodeAttrs attrs)

/-- The attributes of a message with the given payload. -/
def eventBody (payload : ℕ × List Attr) : List UInt8 :=
  encodeAttrs [nestedAttr rkxAEvent [nestedAttr payload.1 payload.2]]

/-- The message with the given payload. -/
def eventMessage (family : FamilyId) (payload : ℕ × List Attr) : List UInt8 :=
  genlHeader (nlmsgHdrlen + genlHdrlen + (eventBody payload).length) family.id.toNat 0 0 0
    rkxCEvent rkxGenlVersion ++ eventBody payload

theorem length_encodeAttrs_nested (type : ℕ) (attrs : List Attr) :
    (encodeAttrs [nestedAttr type attrs]).length =
      align4 (nlaHdrlen + (encodeAttrs attrs).length) := by
  rw [nestedAttr, encodeAttrs_singleton, length_encodeAttr]

theorem length_encode_nlaS32 (type : ℕ) (value : Int32) :
    (encodeAttr (nlaS32 type value).1 (nlaS32 type value).2).length = 8 := by
  rw [length_encodeAttr, nlaS32, length_leBytes]
  rfl

/-- The longest interface name decides: seven numbers and a name of 140 bytes. -/
theorem length_payload_le {event : RkxEvent} {payload : ℕ × List Attr}
    (known : event.payload = some payload) : (encodeAttrs payload.2).length ≤ 200 := by
  cases event with
  | binder b =>
    obtain rfl := Option.some.inj known
    -- the name with its terminator is at most 140 bytes, a multiple of four already
    have hname : (encodeAttr (nlaString rkxABinderRpcName b.rpcName).1
        (nlaString rkxABinderRpcName b.rpcName).2).length ≤ 144 := by
      have hterminated := b.terminated
      have hlt := align4_lt (nlaHdrlen + (b.rpcName.strlen + 1))
      have hmod := align4_mod (nlaHdrlen + (b.rpcName.strlen + 1))
      rw [length_encodeAttr, nlaString, CString.length_withNul]
      rw [rkxInterfacetokenBuffSize] at hterminated
      rw [nlaHdrlen] at hlt hmod ⊢
      omega
    simp only [binderAttrs, encodeAttrs_cons, encodeAttrs_nil, List.length_append,
      length_encode_nlaS32, List.length_nil]
    omega
  | signal s =>
    obtain rfl := Option.some.inj known
    simp [signalAttrs, encodeAttrs_cons, length_encode_nlaS32, -length_encodeAttr]
  | network n =>
    obtain rfl := Option.some.inj known
    simp [networkAttrs, encodeAttrs_cons, length_encode_nlaS32, -length_encodeAttr]
  | other type => cases known

theorem putPayload_appends {event : RkxEvent} {payload : ℕ × List Attr}
    (known : event.payload = some payload) :
    Appends (putPayload event) (encodeAttrs [nestedAttr payload.1 payload.2]) := by
  have hnest (type : ℕ) (attrs : List Attr) :
      Appends (nlaNest type (nlaPutEach attrs))
        (encodeAttrs [nestedAttr type attrs]) := by
    rw [nestedAttr, encodeAttrs_singleton]
    exact nlaNest_appends (nlaPutEach_appends attrs) (length_encodeAttrs_mod attrs)
  cases event with
  | binder b =>
    obtain rfl := Option.some.inj known
    exact hnest _ _
  | signal s =>
    obtain rfl := Option.some.inj known
    exact hnest _ _
  | network n =>
    obtain rfl := Option.some.inj known
    exact hnest _ _
  | other type => cases known

theorem length_eventBody_le {event : RkxEvent} {payload : ℕ × List Attr}
    (known : event.payload = some payload) : (eventBody payload).length ≤ nlaTotalSize 256 := by
  have hpayload := length_payload_le known
  have hinner := align4_lt (nlaHdrlen + (encodeAttrs payload.2).length)
  have houter := align4_lt (nlaHdrlen + align4 (nlaHdrlen + (encodeAttrs payload.2).length))
  have hroom : nlaTotalSize 256 = 260 := rfl
  rw [eventBody, length_encodeAttrs_nested, length_encodeAttrs_nested, hroom]
  rw [nlaHdrlen] at hinner houter ⊢
  omega

/-- An event of a known type is always sent, as its message. -/
theorem rkxSendMessage_eq {event : RkxEvent} {payload : ℕ × List Attr}
    (known : event.payload = some payload) (family : FamilyId) (spare : ℕ)
    (multicast : List UInt8 → ℤ) :
    rkxSendMessage ⟨family, some spare, multicast⟩ event =
      .multicast (eventMessage family payload) (multicast (eventMessage family payload)) := by
  have hbody := length_eventBody_le known
  have happends : Appends (nlaNest rkxAEvent (putPayload event)) (eventBody payload) := by
    rw [eventBody, nestedAttr, encodeAttrs_singleton]
    exact nlaNest_appends (putPayload_appends known) (length_encodeAttrs_mod _)
  -- the buffer behind `genlmsg_put` has room for the largest body
  have hnest := happends
    ⟨genlHeader (nlmsgHdrlen + genlHdrlen) family.id.toNat 0 0 0 rkxCEvent rkxGenlVersion,
      nlmsgHdrlen + genlHdrlen + nlaTotalSize 256 + spare⟩
    (by simp only [length_genlHeader]; omega)
  rw [rkxSendMessage, genlmsgNew, Option.map_some]
  simp only
  rw [genlmsgPut, if_pos (by simp only [List.length_nil]; omega)]
  simp only [List.nil_append, hnest, genlmsgEnd_eq]
  rfl

end ReKernelX
