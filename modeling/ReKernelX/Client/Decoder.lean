import ReKernelX.Client.Events
import ReKernelX.Client.Walk

/-!
# Decoding arbitrary bytes

`handle_event` on a message of which only the length field is known to be right.
The lengths inside come from the data at three levels of nesting; each walk
checks a length against what is left of its parent before it uses it, so
whatever the bytes are, every attribute found lies inside the one it was found
in, every read is inside the message, and the decoder ends.
-/

set_option autoImplicit false

namespace ReKernelX.Client

open Bytes Netlink

variable {m : Memory}

/-! ### One attribute -/

/-- The payload of an attribute, as the readers see it. -/
theorem AttrInside.exists_nlaLen {lo hi nla : ℕ} (inside : AttrInside m lo hi nla)
    (mapped : Mapped m lo hi) :
    ∃ len, nlaLen m nla = some len ∧ lo ≤ nla + nlaHdrlen ∧ nla + nlaHdrlen + len ≤ hi := by
  obtain ⟨hlo, len, hlen, hhdr, hhi⟩ := inside
  rw [nlaHdrlen] at hhdr ⊢
  obtain ⟨word, hword, hlt⟩ :=
    Mapped.exists_readWord (k := 2) (mapped.mono hlo (show nla + 2 ≤ hi by omega))
  obtain rfl : word = len := Option.some.inj (hword.symm.trans hlen)
  refine ⟨(word + 2 ^ 16 - nlaHdrlen) % 2 ^ 16, by rw [nlaLen, hlen, Option.map_some], ?_⟩
  rw [nlaHdrlen]
  omega

/-! ### The levels -/

/-- An entry of a parsed table: an attribute of that number, with header and
payload inside the region, and the last of its number that the walk visits. -/
structure EntryInside (m : Memory) (maxtype lo : ℕ) (rem : ℤ) (visited : List ℕ) (type nla : ℕ) :
    Prop where
  range : 0 < type ∧ type ≤ maxtype
  number : numberAt m nla = some type
  inside : AttrInside m lo (lo + rem.toNat) nla
  last : ∃ before after, visited = before ++ nla :: after ∧
    ∀ p ∈ after, numberAt m p ≠ some type

/-- The last element of a filtered list, seen in the list itself. -/
theorem exists_split_of_lastOf {visited : List ℕ} {type nla : ℕ}
    (found : lastOf m visited type = some nla) :
    numberAt m nla = some type ∧ ∃ before after, visited = before ++ nla :: after ∧
      ∀ p ∈ after, numberAt m p ≠ some type := by
  induction visited with
  | nil => cases found
  | cons first rest ih =>
    rw [lastOf_cons] at found
    cases hrest : lastOf m rest type with
    | some p =>
      -- a later one of that number takes precedence
      rw [hrest, Option.some_or] at found
      obtain ⟨hnumber, before, after, hsplit, hafter⟩ := ih (hrest.trans found)
      exact ⟨hnumber, first :: before, after, by rw [hsplit, List.cons_append], hafter⟩
    | none =>
      rw [hrest, Option.none_or] at found
      split_ifs at found with hnumber
      obtain rfl := Option.some.inj found
      refine ⟨hnumber, [], rest, rfl, fun p hp hsame => ?_⟩
      have hmem : p ∈ rest.filter fun nla => decide (numberAt m nla = some type) :=
        List.mem_filter.mpr ⟨hp, by simpa using hsame⟩
      rw [lastOf, List.getLast?_eq_none_iff] at hrest
      rw [hrest] at hmem
      cases hmem

theorem entryInside_of_table {maxtype lo : ℕ} {rem : ℤ} {tb : AttrTable} {visited : List ℕ}
    (inside : ∀ p ∈ visited, AttrInside m lo (lo + rem.toNat) p)
    (table : ∀ type, tb type = if 0 < type ∧ type ≤ maxtype then lastOf m visited type else none)
    {type nla : ℕ} (entry : tb type = some nla) :
    EntryInside m maxtype lo rem visited type nla := by
  rw [table] at entry
  split_ifs at entry with hrange
  obtain ⟨hnumber, before, after, hsplit, hafter⟩ := exists_split_of_lastOf entry
  have hmem : nla ∈ visited := by
    rw [hsplit]
    exact List.mem_append_right before List.mem_cons_self
  exact ⟨hrange, hnumber, inside nla hmem, before, after, hsplit, hafter⟩

/-- A region parses with every entry inside it, and so do the payloads of the
entries, down to a depth. -/
def ParsesInside (m : Memory) (maxtype : ℕ) : ℕ → ℕ → ℤ → Prop
  | 0, _, _ => True
  | depth + 1, lo, rem =>
    ∃ visited tb, nlaWalk m lo rem = some visited ∧ rkxNlaParse m maxtype lo rem = some tb ∧
      ∀ type nla, tb type = some nla →
        EntryInside m maxtype lo rem visited type nla ∧
        ∃ len : ℕ, nlaLen m nla = some len ∧ nla + nlaHdrlen + len ≤ lo + rem.toNat ∧
          ParsesInside m maxtype depth (nla + nlaHdrlen) len

theorem parsesInside (maxtype depth : ℕ) {lo : ℕ} {rem : ℤ}
    (mapped : Mapped m lo (lo + rem.toNat)) : ParsesInside m maxtype depth lo rem := by
  induction depth generalizing lo rem with
  | zero => trivial
  | succ depth ih =>
    obtain ⟨tb, hparse, visited, hwalk, hinside, htable⟩ := exists_rkxNlaParse mapped maxtype
    refine ⟨visited, tb, hwalk, hparse, fun type nla hentry => ?_⟩
    have entry := entryInside_of_table hinside htable hentry
    obtain ⟨len, hlen, hlo, hhi⟩ := entry.inside.exists_nlaLen mapped
    exact ⟨entry, len, hlen, hhi, ih (mapped.mono hlo (by simpa using hhi))⟩

/-! ### What a callback says -/

/-- The attribute inside `RKX_A_EVENT` that a callback is made for. -/
def Callback.number : Callback → ℕ
  | .binder .. => rkxABinder
  | .signal .. => rkxASignal
  | .network .. => rkxANetwork

/-- The scalar arguments of a callback, each with the number of its attribute. -/
def Callback.scalars : Callback → List (ℕ × Int32)
  | .binder binderType oneway fromUid fromPid targetUid targetPid _ code =>
    [(rkxABinderType, binderType), (rkxABinderOneway, oneway), (rkxABinderFromUid, fromUid),
      (rkxABinderFromPid, fromPid), (rkxABinderTargetUid, targetUid),
      (rkxABinderTargetPid, targetPid), (rkxABinderCode, code)]
  | .signal sig killerUid killerPid dstUid dstPid =>
    [(rkxASignalSignal, sig), (rkxASignalKillerUid, killerUid),
      (rkxASignalKillerPid, killerPid), (rkxASignalDstUid, dstUid), (rkxASignalDstPid, dstPid)]
  | .network proto targetUid dataLen =>
    [(rkxANetworkProto, proto), (rkxANetworkTargetUid, targetUid), (rkxANetworkDataLen, dataLen)]

/-- The name a callback passes on, if it has one. -/
def Callback.name : Callback → Option CString
  | .binder _ _ _ _ _ _ rpcName _ => some rpcName
  | .signal .. | .network .. => none

/-- The value of a scalar field: `-1` without its attribute and for a payload of less
than four bytes, else the first four bytes of the payload. -/
def FieldValue (m : Memory) (nla : Option ℕ) (value : Int32) : Prop :=
  match nla with
  | none => value = -1
  | some nla => ∃ len, nlaLen m nla = some len ∧ (len < 4 → value = -1) ∧
      (4 ≤ len → ∃ word, readWord m (nla + 4) 4 = some word ∧
        value = (UInt32.ofNat word).toInt32)

/-- A name that was copied into an array of 141 bytes, the last of which is zero. -/
def CopiedName (name : CString) : Prop :=
  ∃ array : List UInt8, array.length = 141 ∧ array.getLast? = some 0 ∧
    name = CString.ofArray array

/-- The arguments of a callback are the fields nested in its attribute. -/
structure FieldsOf (m : Memory) (nla : ℕ) (call : Callback) : Prop where
  scalars : ∃ fields, rkxNlaParseNested m rkxAMax nla = some fields ∧
    ∀ scalar ∈ call.scalars, FieldValue m (fields scalar.1) scalar.2
  name : ∀ name, call.name = some name → CopiedName name

/-- A callback is made for an attribute of its number inside `RKX_A_EVENT`, in a region
of attributes. -/
def MadeFrom (m : Memory) (lo : ℕ) (rem : ℤ) (call : Callback) : Prop :=
  ∃ tb evt evtTb nla, rkxNlaParse m rkxAMax lo rem = some tb ∧ tb rkxAEvent = some evt ∧
    rkxNlaParseNested m rkxAMax evt = some evtTb ∧ evtTb call.number = some nla ∧
    FieldsOf m nla call

/-! ### One field -/

/-- A scalar read from an attribute inside mapped memory has its value. -/
theorem AttrInside.exists_rkxNlaGet {lo hi nla : ℕ} (inside : AttrInside m lo hi nla)
    (mapped : Mapped m lo hi) :
    ∃ value, rkxNlaGet m (some nla) (-1) = some value ∧ FieldValue m (some nla) value := by
  obtain ⟨len, hlen, hlo, hhi⟩ := inside.exists_nlaLen mapped
  by_cases hshort : len < 4
  · refine ⟨-1, ?_, len, hlen, fun _ => rfl, fun hlong => absurd hshort (Nat.not_lt_of_le hlong)⟩
    simp only [rkxNlaGet, hlen, Option.bind_some, if_pos hshort]
  · obtain ⟨word, hword, -⟩ := Mapped.exists_readWord (a := nla + nlaHdrlen) (k := 4)
      (mapped.mono hlo (by omega))
    refine ⟨(UInt32.ofNat word).toInt32, ?_, len, hlen, fun h => absurd h hshort,
      fun _ => ⟨word, hword, rfl⟩⟩
    simp only [rkxNlaGet, hlen, Option.bind_some, if_neg hshort, hword, Option.map_some]

/-- At most 140 bytes in a cleared array of 141, so a terminator is always left. -/
theorem copiedName_of_length_le (bytes : List UInt8) (short : bytes.length ≤ 140) :
    CopiedName (CString.ofArray (bytes ++ List.replicate (140 + 1 - bytes.length) 0)) := by
  refine ⟨_, ?_, ?_, rfl⟩
  · rw [List.length_append, List.length_replicate]
    omega
  · obtain ⟨k, hk⟩ : ∃ k, 140 + 1 - bytes.length = k + 1 := ⟨140 - bytes.length, by omega⟩
    rw [hk, List.replicate_succ', ← List.append_assoc, List.getLast?_concat]

theorem AttrInside.exists_copyRpcName {lo hi nla : ℕ} (inside : AttrInside m lo hi nla)
    (mapped : Mapped m lo hi) :
    ∃ name, copyRpcName m (some nla) = some name ∧ CopiedName name := by
  obtain ⟨len, hlen, hlo, hhi⟩ := inside.exists_nlaLen mapped
  obtain ⟨bytes, hbytes, hlength⟩ := Mapped.exists_readBytes (a := nla + nlaHdrlen)
    (k := min len rkxRpcNameLen) (mapped.mono hlo (by omega))
  rw [rkxRpcNameLen] at hbytes hlength
  refine ⟨_, ?_, copiedName_of_length_le bytes (by omega)⟩
  simp only [copyRpcName, hlen, rkxRpcNameLen, Option.bind_eq_bind, Option.bind_some, hbytes,
    hlength]
  rfl

/-! ### The handlers -/

theorem AttrInside.mono {lo hi lo' hi' nla : ℕ} (inside : AttrInside m lo' hi' nla)
    (left : lo ≤ lo') (right : hi' ≤ hi) : AttrInside m lo hi nla := by
  obtain ⟨hlo, len, hlen, hhdr, hhi⟩ := inside
  exact ⟨left.trans hlo, len, hlen, hhdr, hhi.trans right⟩

/-- The entries of a nested table are inside whatever its attribute is inside. -/
theorem AttrInside.exists_rkxNlaParseNested {lo hi nla : ℕ} (inside : AttrInside m lo hi nla)
    (mapped : Mapped m lo hi) (maxtype : ℕ) :
    ∃ tb, rkxNlaParseNested m maxtype nla = some tb ∧
      ∀ type p, tb type = some p → AttrInside m lo hi p := by
  obtain ⟨len, hlen, hlo, hhi⟩ := inside.exists_nlaLen mapped
  have hmapped : Mapped m (nla + nlaHdrlen) (nla + nlaHdrlen + (len : ℤ).toNat) :=
    mapped.mono hlo (by simpa using hhi)
  obtain ⟨tb, hparse, visited, hwalk, hinside, htable⟩ := exists_rkxNlaParse hmapped maxtype
  refine ⟨tb, by rw [rkxNlaParseNested, hlen, Option.bind_some, hparse], fun type p hentry => ?_⟩
  exact (entryInside_of_table hinside htable hentry).inside.mono hlo (by simpa using hhi)

section Handlers

variable {lo hi : ℕ} {tb : AttrTable}

/-- A field that is absent or inside has a value. -/
theorem exists_get (mapped : Mapped m lo hi)
    (inside : ∀ type p, tb type = some p → AttrInside m lo hi p) (type : ℕ) :
    ∃ value, rkxNlaGet m (tb type) (-1) = some value ∧ FieldValue m (tb type) value := by
  cases hentry : tb type with
  | none => exact ⟨-1, rfl, rfl⟩
  | some nla => exact (inside type nla hentry).exists_rkxNlaGet mapped

theorem exists_name (mapped : Mapped m lo hi)
    (inside : ∀ type p, tb type = some p → AttrInside m lo hi p) (type : ℕ) :
    ∃ name, copyRpcName m (tb type) = some name ∧ CopiedName name := by
  cases hentry : tb type with
  | none => exact ⟨_, rfl, copiedName_of_length_le [] (Nat.zero_le _)⟩
  | some nla => exact (inside type nla hentry).exists_copyRpcName mapped

theorem AttrInside.exists_handleBinderEvent {nla : ℕ} (inside : AttrInside m lo hi nla)
    (mapped : Mapped m lo hi) :
    ∃ call, handleBinderEvent m nla = some call ∧ call.number = rkxABinder ∧
      FieldsOf m nla call := by
  obtain ⟨tb, hparse, hinside⟩ := inside.exists_rkxNlaParseNested mapped rkxAMax
  obtain ⟨binderType, hbinderType, htypeValue⟩ := exists_get mapped hinside rkxABinderType
  obtain ⟨oneway, honeway, honewayValue⟩ := exists_get mapped hinside rkxABinderOneway
  obtain ⟨fromPid, hfromPid, hfromPidValue⟩ := exists_get mapped hinside rkxABinderFromPid
  obtain ⟨fromUid, hfromUid, hfromUidValue⟩ := exists_get mapped hinside rkxABinderFromUid
  obtain ⟨targetPid, htargetPid, htargetPidValue⟩ := exists_get mapped hinside rkxABinderTargetPid
  obtain ⟨targetUid, htargetUid, htargetUidValue⟩ := exists_get mapped hinside rkxABinderTargetUid
  obtain ⟨code, hcode, hcodeValue⟩ := exists_get mapped hinside rkxABinderCode
  obtain ⟨name, hname, hcopied⟩ := exists_name mapped hinside rkxABinderRpcName
  refine ⟨.binder binderType oneway fromUid fromPid targetUid targetPid name code, ?_, rfl,
    ⟨tb, hparse, ?_⟩, ?_⟩
  · simp only [handleBinderEvent, hparse, hbinderType, honeway, hfromPid, hfromUid, htargetPid,
      htargetUid, hcode, hname, Option.bind_eq_bind, Option.bind_some]
    rfl
  · simp only [Callback.scalars, List.forall_mem_cons]
    exact ⟨htypeValue, honewayValue, hfromUidValue, hfromPidValue, htargetUidValue,
      htargetPidValue, hcodeValue, List.forall_mem_nil _⟩
  · rintro _ ⟨⟩
    exact hcopied

theorem AttrInside.exists_handleSignalEvent {nla : ℕ} (inside : AttrInside m lo hi nla)
    (mapped : Mapped m lo hi) :
    ∃ call, handleSignalEvent m nla = some call ∧ call.number = rkxASignal ∧
      FieldsOf m nla call := by
  obtain ⟨tb, hparse, hinside⟩ := inside.exists_rkxNlaParseNested mapped rkxAMax
  obtain ⟨sig, hsig, hsigValue⟩ := exists_get mapped hinside rkxASignalSignal
  obtain ⟨killerUid, hkillerUid, hkillerUidValue⟩ := exists_get mapped hinside rkxASignalKillerUid
  obtain ⟨killerPid, hkillerPid, hkillerPidValue⟩ := exists_get mapped hinside rkxASignalKillerPid
  obtain ⟨dstUid, hdstUid, hdstUidValue⟩ := exists_get mapped hinside rkxASignalDstUid
  obtain ⟨dstPid, hdstPid, hdstPidValue⟩ := exists_get mapped hinside rkxASignalDstPid
  refine ⟨.signal sig killerUid killerPid dstUid dstPid, ?_, rfl, ⟨tb, hparse, ?_⟩,
    fun _ h => by cases h⟩
  · simp only [handleSignalEvent, hparse, hsig, hkillerUid, hkillerPid, hdstUid, hdstPid,
      Option.bind_eq_bind, Option.bind_some]
    rfl
  · simp only [Callback.scalars, List.forall_mem_cons]
    exact ⟨hsigValue, hkillerUidValue, hkillerPidValue, hdstUidValue, hdstPidValue,
      List.forall_mem_nil _⟩

theorem AttrInside.exists_handleNetworkEvent {nla : ℕ} (inside : AttrInside m lo hi nla)
    (mapped : Mapped m lo hi) :
    ∃ call, handleNetworkEvent m nla = some call ∧ call.number = rkxANetwork ∧
      FieldsOf m nla call := by
  obtain ⟨tb, hparse, hinside⟩ := inside.exists_rkxNlaParseNested mapped rkxAMax
  obtain ⟨proto, hproto, hprotoValue⟩ := exists_get mapped hinside rkxANetworkProto
  obtain ⟨targetUid, htargetUid, htargetUidValue⟩ := exists_get mapped hinside rkxANetworkTargetUid
  obtain ⟨dataLen, hdataLen, hdataLenValue⟩ := exists_get mapped hinside rkxANetworkDataLen
  refine ⟨.network proto targetUid dataLen, ?_, rfl, ⟨tb, hparse, ?_⟩, fun _ h => by cases h⟩
  · simp only [handleNetworkEvent, hparse, hproto, htargetUid, hdataLen, Option.bind_eq_bind,
      Option.bind_some]
    rfl
  · simp only [Callback.scalars, List.forall_mem_cons]
    exact ⟨hprotoValue, htargetUidValue, hdataLenValue, List.forall_mem_nil _⟩

/-- A handler that always ends is dispatched to an end, and its callback is for the
attribute it was given. -/
theorem exists_dispatch {handler : ℕ → Option Callback} {evtTb : AttrTable} {number : ℕ}
    (ends : ∀ p, evtTb number = some p →
      ∃ call, handler p = some call ∧ call.number = number ∧ FieldsOf m p call) :
    ∃ calls, dispatch handler (evtTb number) = some calls ∧
      ∀ call ∈ calls, ∃ nla, evtTb call.number = some nla ∧ FieldsOf m nla call := by
  cases hentry : evtTb number with
  | none => exact ⟨[], rfl, fun call hcall => by cases hcall⟩
  | some p =>
    obtain ⟨call, hcall, hnumber, hfields⟩ := ends p hentry
    refine ⟨[call], by rw [dispatch, hcall, Option.map_some], fun c hc => ?_⟩
    rw [List.mem_singleton.mp hc, hnumber]
    exact ⟨p, hentry, hfields⟩

theorem exists_dispatchEvent (mapped : Mapped m lo hi)
    (inside : ∀ type p, tb type = some p → AttrInside m lo hi p) :
    ∃ calls, dispatchEvent m tb = some calls ∧
      ∀ call ∈ calls, ∃ nla, tb call.number = some nla ∧ FieldsOf m nla call := by
  obtain ⟨binder, hbinder, hbinderCalls⟩ := exists_dispatch fun p hp =>
    (inside rkxABinder p hp).exists_handleBinderEvent mapped
  obtain ⟨signal, hsignal, hsignalCalls⟩ := exists_dispatch fun p hp =>
    (inside rkxASignal p hp).exists_handleSignalEvent mapped
  obtain ⟨network, hnetwork, hnetworkCalls⟩ := exists_dispatch fun p hp =>
    (inside rkxANetwork p hp).exists_handleNetworkEvent mapped
  refine ⟨binder ++ signal ++ network, ?_, fun call hcall => ?_⟩
  · rw [dispatchEvent, hbinder, hsignal, hnetwork]
    rfl
  · simp only [List.mem_append] at hcall
    rcases hcall with (hcall | hcall) | hcall
    · exact hbinderCalls call hcall
    · exact hsignalCalls call hcall
    · exact hnetworkCalls call hcall

theorem exists_handlePayload {rem : ℤ} (mapped : Mapped m lo (lo + rem.toNat)) :
    ∃ calls, handlePayload m lo rem = some calls ∧ ∀ call ∈ calls, MadeFrom m lo rem call := by
  obtain ⟨tb, hparse, visited, hwalk, hinside, htable⟩ := exists_rkxNlaParse mapped rkxAMax
  rw [handlePayload, hparse, Option.bind_eq_bind, Option.bind_some]
  cases hevt : tb rkxAEvent with
  | none => exact ⟨[], rfl, fun call hcall => by cases hcall⟩
  | some evt =>
    have entry := entryInside_of_table hinside htable hevt
    obtain ⟨evtTb, hnested, hevtInside⟩ :=
      entry.inside.exists_rkxNlaParseNested mapped rkxAMax
    obtain ⟨calls, hcalls, hmade⟩ := exists_dispatchEvent mapped hevtInside
    refine ⟨calls, by simp only [hnested, Option.bind_some, hcalls], fun call hcall => ?_⟩
    obtain ⟨nla, hnla, hfields⟩ := hmade call hcall
    exact ⟨tb, evt, evtTb, nla, hparse, hevt, hnested, hnla, hfields⟩

end Handlers

/-! ### The whole message -/

/-- The attributes end with the message at the latest. -/
theorem add_attrLen_le (nlh : ℕ) {len : ℕ} (long : 20 ≤ len) :
    nlh + 20 + (subInt (castInt len) 20).toNat ≤ nlh + len := by
  have hattr : subInt (castInt len) 20 = castInt (len - 20) := subInt_castInt long
  have hcast := castInt_le (len - 20)
  rw [hattr]
  omega

/-- Up to its attributes the decoder reads only the two headers, and the second
of them only when the length says that it is there. -/
theorem exists_handleEvent (gFamilyId : UInt16) {nlh len : ℕ} (header : nlmsgHdrlen ≤ len)
    (mapped : Mapped m nlh (nlh + len)) (length : readWord m nlh 4 = some len) :
    ∃ calls, handleEvent gFamilyId m nlh = some calls ∧
      ∀ call ∈ calls, MadeFrom m (nlh + 20) (subInt (castInt len) 20) call := by
  have hnone : ∀ call ∈ ([] : List Callback),
      MadeFrom m (nlh + 20) (subInt (castInt len) 20) call := fun call hcall => by cases hcall
  rw [nlmsgHdrlen] at header
  obtain ⟨type, htype, -⟩ := Mapped.exists_readWord (a := nlh + 4) (k := 2)
    (mapped.mono (by omega) (by omega))
  rw [handleEvent, htype, Option.bind_eq_bind, Option.bind_some]
  by_cases hcontrol : type = nlmsgError ∨ type = nlmsgDone
  · exact ⟨[], if_pos hcontrol, hnone⟩
  rw [if_neg hcontrol]
  by_cases hfamily : type ≠ gFamilyId.toNat
  · exact ⟨[], if_pos hfamily, hnone⟩
  rw [if_neg hfamily, length, Option.bind_eq_bind, Option.bind_some]
  -- only now is the second header known to be there
  by_cases hshort : len < nlmsgHdrlen + genlHdrlen
  · exact ⟨[], if_pos hshort, hnone⟩
  rw [if_neg hshort]
  have hlong : 20 ≤ len := Nat.le_of_not_lt hshort
  obtain ⟨cmd, hcmd⟩ := Option.isSome_iff_exists.mp
    (mapped (nlh + nlmsgHdrlen) (Nat.le_add_right _ _) (by rw [nlmsgHdrlen]; omega))
  rw [hcmd, Option.bind_some]
  by_cases hevent : cmd ≠ rkxCEvent
  · exact ⟨[], if_pos hevent, hnone⟩
  rw [if_neg hevent]
  exact exists_handlePayload (mapped.mono (Nat.le_add_right _ _) (add_attrLen_le nlh hlong))

/-- **The decoder stays inside its message.** For every message in memory, with
any content but the right length, and nothing else mapped: `handle_event` ends
and reads mapped bytes only; at each of the three levels of nesting every entry
of a parsed table is an attribute of its number inside its parent's payload, and
the last of that number that the walk visits. Every callback it makes is for an
attribute of the event: each of its scalars is `-1` if the attribute of that number
is missing or has a payload of less than four bytes, and the four bytes of the
payload otherwise; and its name was copied into an array of 141 bytes, the last of
which stays zero. -/
theorem decoder_stays_inside_message (gFamilyId : UInt16) (m : Memory) (nlh len : ℕ)
    (header : 16 ≤ len) (message : ∀ a, (m a).isSome ↔ nlh ≤ a ∧ a < nlh + len)
    (length : readWord m nlh 4 = some len) :
    (∃ calls, handleEvent gFamilyId m nlh = some calls) ∧
    (20 ≤ len → nlh + 20 + (subInt (castInt len) 20).toNat ≤ nlh + len ∧
      ParsesInside m rkxAMax 3 (nlh + 20) (subInt (castInt len) 20)) ∧
    (∀ calls, handleEvent gFamilyId m nlh = some calls → ∀ call ∈ calls,
      MadeFrom m (nlh + 20) (subInt (castInt len) 20) call) ∧
    ∀ nla, AttrInside m nlh (nlh + len) nla →
      (∀ payload, nlaLen m nla = some payload → payload < 4 →
        rkxNlaGet m (some nla) (-1) = some (-1)) ∧
      ∃ array : List UInt8, array.length = 141 ∧ array.getLast? = some 0 ∧
        copyRpcName m (some nla) = some (CString.ofArray array) := by
  have hmapped : Mapped m nlh (nlh + len) := fun a hlo hhi => (message a).mpr ⟨hlo, hhi⟩
  obtain ⟨calls, hcalls, hmade⟩ := exists_handleEvent gFamilyId header hmapped length
  refine ⟨⟨calls, hcalls⟩, fun hlong => ?_, fun calls' hcalls' => ?_, fun nla inside => ⟨?_, ?_⟩⟩
  · have hregion := add_attrLen_le nlh hlong
    exact ⟨hregion, parsesInside rkxAMax 3 (hmapped.mono (Nat.le_add_right _ _) hregion)⟩
  · obtain rfl := Option.some.inj (hcalls'.symm.trans hcalls)
    exact hmade
  · intro payload hpayload hshort
    obtain ⟨value, hvalue, len, hlen, hdefault, -⟩ := inside.exists_rkxNlaGet hmapped
    obtain rfl := Option.some.inj (hlen.symm.trans hpayload)
    rw [hvalue, hdefault hshort]
  · obtain ⟨name, hname, array, hlength, hlast, rfl⟩ := inside.exists_copyRpcName hmapped
    exact ⟨array, hlength, hlast, hname⟩

/-- The attributes of a report of which the protocol has two bytes and the length of the
data is missing. -/
def shortFields : List Attr :=
  [(rkxANetworkProto, [6, 0]), (rkxANetworkTargetUid, leBytes 4 10001)]

/-- An event with that report. -/
def shortBody : List UInt8 :=
  encodeAttrs [(rkxAEvent ||| nlaFNested,
    encodeAttrs [(rkxANetwork ||| nlaFNested, encodeAttrs shortFields)])]

/-- The message of the family 16 for that event. -/
def shortEvent : List UInt8 :=
  genlHeader 44 16 0 0 0 rkxCEvent 1 ++ shortBody

theorem handleNetworkEvent_shortFields {pos : ℕ}
    (h : Holds m pos (encodeAttr (rkxANetwork ||| nlaFNested) (encodeAttrs shortFields))) :
    handleNetworkEvent m pos = some (.network (-1) 10001 (-1)) := by
  have hreadable : Readable rkxAMax shortFields := ⟨by decide, by decide, by decide⟩
  obtain ⟨tb, hparse, hfinds⟩ := rkxNlaParseNested_encodeAttrs hreadable h (by decide) (by decide)
  obtain ⟨p, hp, hproto⟩ := hfinds.found _ List.mem_cons_self
  have hp' : tb rkxANetworkProto = some p := hp
  have hlen : nlaLen m p = some 2 := nlaLen_of_holds hproto (by decide) (by decide)
  have hshort : rkxNlaGet m (tb rkxANetworkProto) (-1) = some (-1) := by
    simp only [hp', rkxNlaGet, hlen, Option.bind_some]
    rfl
  have huid : rkxNlaGet m (tb rkxANetworkTargetUid) (-1) = some 10001 :=
    hfinds.get (k := 1) rfl (by decide) _
  have habsent : rkxNlaGet m (tb rkxANetworkDataLen) (-1) = some (-1) := by
    rw [hfinds.absent _ (by decide)]
    rfl
  simp only [handleNetworkEvent, hparse, hshort, huid, habsent, Option.bind_eq_bind,
    Option.bind_some]
  rfl

theorem handleEvent_shortEvent {nlh : ℕ} (h : Holds m nlh shortEvent) :
    handleEvent 16 m nlh = some [.network (-1) 10001 (-1)] := by
  have hmessage : Holds m nlh (genlHeader (nlmsgHdrlen + genlHdrlen + shortBody.length)
      (16 : UInt16).toNat 0 0 0 rkxCEvent 1 ++ shortBody) := h
  have hattrs : Holds m (nlh + (nlmsgHdrlen + genlHdrlen)) shortBody := by
    rw [holds_append, length_genlHeader] at hmessage
    exact hmessage.2
  rw [handleEvent_of_header hmessage (by decide) (by decide)]
  -- the event, the report inside it, and its fields
  obtain ⟨tb, hparse, hfinds⟩ := rkxNlaParse_encodeAttrs
    (readable_nested (by decide) (show 0 < rkxAEvent ∧ _ ≤ rkxAMax by decide) (by decide)) hattrs
  obtain ⟨⟨evt, hevt, hnest⟩, -⟩ := hfinds.nested (by decide)
  obtain ⟨evtTb, hnested, hevtFinds⟩ := rkxNlaParseNested_encodeAttrs
    (readable_nested (by decide) (show 0 < rkxANetwork ∧ _ ≤ rkxAMax by decide) (by decide))
    hnest (by decide) (by decide)
  obtain ⟨⟨pos, hnetwork, hfields⟩, habsent⟩ := hevtFinds.nested (by decide)
  have hbinder := habsent rkxABinder (by decide)
  have hsignal := habsent rkxASignal (by decide)
  rw [← shortBody] at hparse
  simp only [handlePayload, hparse, hevt, hnested, dispatchEvent, dispatch, hbinder, hsignal,
    hnetwork, handleNetworkEvent_shortFields hfields, Option.bind_eq_bind, Option.bind_some,
    Option.map_some]
  rfl

/-- The callback for that event has `-1` for the protocol, which is too short, and for the
length, which is missing. -/
theorem decoder_stays_inside_shortEvent :
    handleEvent 16 (Memory.ofList shortEvent) 0 = some [.network (-1) 10001 (-1)] ∧
      MadeFrom (Memory.ofList shortEvent) 20 24 (.network (-1) 10001 (-1)) := by
  have hcalls := handleEvent_shortEvent (holds_ofList [] shortEvent)
  refine ⟨hcalls, ?_⟩
  exact (decoder_stays_inside_message 16 (Memory.ofList shortEvent) 0 44 (by decide)
    (fun a => by simp [Memory.ofList, show shortEvent.length = 44 from rfl]) rfl).2.2.1 _ hcalls _
    (List.mem_singleton_self _)

end ReKernelX.Client
