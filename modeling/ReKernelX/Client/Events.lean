import ReKernelX.Client.Attributes

/-!
# Dispatching events

`handle_event` and the three handlers turn one received message into calls of
the Java callback.
-/

set_option autoImplicit false

namespace ReKernelX.Client

open Bytes Netlink

/-- A call of `ReKernelXCallback`, with the arguments in the order of the Java
interface. The name is the string passed to `NewStringUTF`. -/
inductive Callback
  | binder (binderType oneway fromUid fromPid targetUid targetPid : Int32) (rpcName : CString)
      (code : Int32)
  | signal (signal killerUid killerPid dstUid dstPid : Int32)
  | network (proto targetUid dataLen : Int32)
deriving DecidableEq

/-- The `rpc_name` array after the copy: the array is cleared first, and no more
than `RKX_RPC_NAME_LEN` bytes are copied into it. -/
def copyRpcName (m : Memory) (nla : Option ℕ) : Option CString :=
  match nla with
  | none => some (CString.ofArray (List.replicate (rkxRpcNameLen + 1) 0))
  | some nla => do
    let len ← nlaLen m nla
    let slen := min len rkxRpcNameLen
    let bytes ← readBytes m (nla + nlaHdrlen) slen
    return CString.ofArray (bytes ++ List.replicate (rkxRpcNameLen + 1 - slen) 0)

/-- `handle_binder_event` -/
def handleBinderEvent (m : Memory) (payload : ℕ) : Option Callback := do
  let tb ← rkxNlaParseNested m rkxAMax payload
  let binderType ← rkxNlaGet m (tb rkxABinderType) (-1)
  let oneway ← rkxNlaGet m (tb rkxABinderOneway) (-1)
  let fromPid ← rkxNlaGet m (tb rkxABinderFromPid) (-1)
  let fromUid ← rkxNlaGet m (tb rkxABinderFromUid) (-1)
  let targetPid ← rkxNlaGet m (tb rkxABinderTargetPid) (-1)
  let targetUid ← rkxNlaGet m (tb rkxABinderTargetUid) (-1)
  let code ← rkxNlaGet m (tb rkxABinderCode) (-1)
  let rpcName ← copyRpcName m (tb rkxABinderRpcName)
  -- the callback takes each user id before its process id
  return .binder binderType oneway fromUid fromPid targetUid targetPid rpcName code

/-- `handle_signal_event` -/
def handleSignalEvent (m : Memory) (payload : ℕ) : Option Callback := do
  let tb ← rkxNlaParseNested m rkxAMax payload
  let sig ← rkxNlaGet m (tb rkxASignalSignal) (-1)
  let killerUid ← rkxNlaGet m (tb rkxASignalKillerUid) (-1)
  let killerPid ← rkxNlaGet m (tb rkxASignalKillerPid) (-1)
  let dstUid ← rkxNlaGet m (tb rkxASignalDstUid) (-1)
  let dstPid ← rkxNlaGet m (tb rkxASignalDstPid) (-1)
  return .signal sig killerUid killerPid dstUid dstPid

/-- `handle_network_event` -/
def handleNetworkEvent (m : Memory) (payload : ℕ) : Option Callback := do
  let tb ← rkxNlaParseNested m rkxAMax payload
  let proto ← rkxNlaGet m (tb rkxANetworkProto) (-1)
  let targetUid ← rkxNlaGet m (tb rkxANetworkTargetUid) (-1)
  let dataLen ← rkxNlaGet m (tb rkxANetworkDataLen) (-1)
  return .network proto targetUid dataLen

/-- A handler runs when its attribute is there. -/
def dispatch (handler : ℕ → Option Callback) (nla : Option ℕ) : Option (List Callback) :=
  match nla with
  | none => some []
  | some nla => (handler nla).map fun call => [call]

/-- The handlers of the attributes inside `RKX_A_EVENT`. -/
def dispatchEvent (m : Memory) (evtTb : AttrTable) : Option (List Callback) := do
  let binder ← dispatch (handleBinderEvent m) (evtTb rkxABinder)
  let signal ← dispatch (handleSignalEvent m) (evtTb rkxASignal)
  let network ← dispatch (handleNetworkEvent m) (evtTb rkxANetwork)
  -- the tests are independent: nothing here rules out several calls for one message
  return binder ++ signal ++ network

/-- The part of `handle_event` behind the checks of the headers. -/
def handlePayload (m : Memory) (attrHead : ℕ) (attrLen : ℤ) : Option (List Callback) := do
  let tb ← rkxNlaParse m rkxAMax attrHead attrLen
  match tb rkxAEvent with
  | none => return []
  | some evt =>
    let evtTb ← rkxNlaParseNested m rkxAMax evt
    dispatchEvent m evtTb

/-- `static_cast<int>` of a 32-bit length -/
def castInt (len : ℕ) : ℤ := Int.bmod len (2 ^ 32)

/-- The difference of two `int`s as the machine computes it, wrapped to 32 bits: the language
says nothing about one that does not fit. -/
def subInt (a b : ℤ) : ℤ := Int.bmod (a - b) (2 ^ 32)

/-- `handle_event`: the callbacks made for the message at an address. -/
def handleEvent (gFamilyId : UInt16) (m : Memory) (nlh : ℕ) : Option (List Callback) := do
  let type ← readWord m (nlh + 4) 2
  -- control messages, then messages of other families
  if type = nlmsgError ∨ type = nlmsgDone then return []
  else if type ≠ gFamilyId.toNat then return []
  else
    let len ← readWord m nlh 4
    -- the command is read only when the header that holds it is there
    if len < nlmsgHdrlen + genlHdrlen then return []
    else
      let cmd ← m (nlh + nlmsgHdrlen)
      if cmd ≠ rkxCEvent then return []
      else
        handlePayload m (nlh + (nlmsgHdrlen + genlHdrlen))
          (subInt (castInt len) (nlmsgHdrlen + genlHdrlen : ℕ))

/-! ### Messages of the expected shape -/

variable {m : Memory}

/-- A string that was written with its terminator is what the array holds. -/
theorem Finds.copyRpcName {tb : AttrTable} {attrs : List Attr} (finds : Finds m tb attrs)
    {k type : ℕ} {s : CString} (written : attrs[k]? = some (type, s.withNul))
    (plain : type < 2 ^ 14) (fits : s.strlen < rkxRpcNameLen) :
    copyRpcName m (tb type) = some s := by
  obtain ⟨pos, hpos, hattr⟩ := finds.found _ (List.mem_of_getElem? written)
  have hshort : nlaHdrlen + s.withNul.length < 2 ^ 16 := by
    rw [CString.length_withNul]
    rw [rkxRpcNameLen] at fits
    rw [nlaHdrlen]
    omega
  have hbytes := readBytes_of_holds (read_of_holds_encodeAttr hattr hshort (by omega)).2.2
  -- the terminator is within the copied part, so the array ends the string where it ended
  have hmin : min s.withNul.length rkxRpcNameLen = s.withNul.length := by
    rw [CString.length_withNul]
    omega
  rw [nlaType, Nat.mod_eq_of_lt plain] at hpos
  rw [hpos]
  simp only [Client.copyRpcName, nlaLen_of_holds hattr hshort (by omega), Option.bind_eq_bind,
    Option.bind_some, hmin, hbytes, CString.ofArray_withNul_append]
  rfl

/-- Reinterpreting a length as signed never makes it longer. -/
theorem bmod_natCast_le (len n : ℕ) : Int.bmod len n ≤ len := by
  have hmod : ((len % n : ℕ) : ℤ) ≤ len := Int.ofNat_le.mpr (Nat.mod_le _ _)
  rw [Int.bmod_eq_emod, ← Int.natCast_mod]
  split_ifs
  · exact (Int.sub_le_self _ (Int.natCast_nonneg _)).trans hmod
  · rwa [Nat.cast_zero, Int.sub_zero]

theorem castInt_le (len : ℕ) : castInt len ≤ len := bmod_natCast_le len (2 ^ 32)

/-- A length of `2 ^ 31` or more becomes smaller by at least `2 ^ 32`. -/
theorem castInt_lt_of_le {len : ℕ} (long : 2 ^ 31 ≤ len) : castInt len ≤ len - 2 ^ 32 := by
  have hlt : castInt len < 2 ^ 31 :=
    lt_of_lt_of_eq (Int.bmod_lt (x := (len : ℤ)) (show 0 < 2 ^ 32 by decide)) (by decide)
  have hdvd : ((2 ^ 32 : ℕ) : ℤ) ∣ len - castInt len := Int.dvd_self_sub_bmod
  obtain ⟨k, hk⟩ := hdvd
  push_cast at hk
  omega

theorem castInt_of_lt {len : ℕ} (short : len < 2 ^ 31) : castInt len = len :=
  Int.bmod_eq_of_le (by omega) (by omega)

theorem castInt_of_ge {len : ℕ} (long : 2 ^ 31 ≤ len) (word : len < 2 ^ 32) :
    castInt len = len - 2 ^ 32 := by
  have hle := castInt_lt_of_le long
  have hlow : -2 ^ 31 ≤ castInt len :=
    Int.le_bmod (show 0 < 2 ^ 32 by decide)
  have hdvd : ((2 ^ 32 : ℕ) : ℤ) ∣ len - castInt len := Int.dvd_self_sub_bmod
  omega

/-- Where the difference of a length and an `int` wraps, so did the length, and the two
cancel. -/
theorem subInt_castInt {len n : ℕ} (h : n ≤ len) :
    subInt (castInt len) n = castInt (len - n) := by
  have hbmod (width : ℕ) :
      Int.bmod (Int.bmod len width - n) width = Int.bmod (len - n : ℕ) width := by
    rw [Int.bmod_sub_bmod, Int.ofNat_sub h]
  exact hbmod (2 ^ 32)

/-- A message whose headers pass every check reaches its attributes. -/
theorem handleEvent_of_header {family : UInt16} {nlh : ℕ} {version : UInt8} {attrs : List UInt8}
    (h : Holds m nlh (genlHeader (nlmsgHdrlen + genlHdrlen + attrs.length) family.toNat 0 0 0
      rkxCEvent version ++ attrs))
    (dynamic : 16 ≤ family.toNat) (short : attrs.length < 2 ^ 16) :
    handleEvent family m nlh =
      handlePayload m (nlh + (nlmsgHdrlen + genlHdrlen)) attrs.length := by
  have hhdr : nlmsgHdrlen + genlHdrlen = 20 := rfl
  rw [hhdr] at h ⊢
  simp only [genlHeader, holds_append, length_leBytes] at h
  obtain ⟨⟨hlen, htype, -, -, -, hcmd, -⟩, -⟩ := h
  have hfamily := family.toNat_lt
  have hreadType := readWord_of_holds htype (by omega)
  have hreadLen := readWord_of_holds hlen (by omega)
  have hreadCmd : m (nlh + nlmsgHdrlen) = some rkxCEvent := hcmd.1
  have hcast : subInt (castInt (20 + attrs.length)) (20 : ℕ) = attrs.length := by
    rw [subInt_castInt (Nat.le_add_right _ _), Nat.add_sub_cancel_left, castInt_of_lt (by omega)]
  rw [handleEvent, hreadType, hreadLen, hreadCmd, hhdr, Option.bind_eq_bind, Option.bind_some,
    if_neg (by rw [nlmsgError, nlmsgDone]; omega), if_neg (not_not_intro rfl),
    Option.bind_eq_bind, Option.bind_some, if_neg (by omega), Option.bind_some,
    if_neg (not_not_intro rfl), hcast]

end ReKernelX.Client
