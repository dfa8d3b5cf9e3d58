import Mathlib.Data.List.Sort
import ReKernelX.Module.BinderHooks

/-!
# The two interface-token parsers

The name in a report and the name a rule is looked up by are taken out of a
parcel by two loops written separately. `rkx_parse_interface_token` stops one
store early and terminates the name itself; `rkx_binder_trans_vh` clears its
array first, stores until the array is full, and then clears the last byte.

Here both loops are run on their arrays, byte by byte, where a load of a byte
that was not copied or a store behind the array has no result. Both always have
one, and both leave the same name: the first bytes of the units behind the
header, up to the first that is zero.
-/

set_option autoImplicit false

namespace ReKernelX

open Bytes

/-! ### The code over arrays -/

/-- A store to an element of an array. -/
def storeByte (array : List UInt8) (i : ℕ) (byte : UInt8) : Option (List UInt8) :=
  if i < array.length then some (array.set i byte) else none

/-- The loop both functions have. `more` is the test of the store index, `copied` the
array that was copied to, `j` the index tested against the number of bytes copied, and
`p` the index that is read. The result is the array and the store index. -/
def tokenScan (copied : Memory) (copySize : ℕ) (more : ℕ → Bool) (rpcName : List UInt8)
    (i j p : ℕ) : Option (List UInt8 × ℕ) :=
  if more i ∧ j < copySize then
    (copied p).bind fun byte =>
      if byte ≠ 0 then
        (storeByte rpcName i byte).bind fun rpcName =>
          tokenScan copied copySize more rpcName (i + 1) (j + 2) (p + 2)
      else some (rpcName, i)
  else some (rpcName, i)
termination_by copySize - j

/-- `rkx_parse_interface_token` on the array that `rpc_name` points to: the returned
flag and the array afterwards. -/
def parseInterfaceTokenArray (env : KpEnv) (buffer : BinderBuffer) (rpcName : List UInt8)
    (rpcNameSize : ℕ) : Option (Bool × List UInt8) :=
  if rpcNameSize = 0 then some (false, rpcName)
  else
    (storeByte rpcName 0 0).bind fun rpcName =>
      if buffer.dataSize ≤ rkxParcelOffset then some (false, rpcName)
      else
        let copySize := min buffer.dataSize rkxInterfacetokenBuffSize
        match env.copyFromBuffer buffer 0 copySize with
        | none => some (false, rpcName)
        | some hdr =>
          (tokenScan (Memory.ofList hdr) copySize (fun i => decide (i + 1 < rpcNameSize)) rpcName 0
            (rkxParcelOffset + 1) rkxParcelOffset).bind fun (rpcName, i) =>
              (storeByte rpcName i 0).map fun rpcName => (decide (i > 0), rpcName)

/-- The array `rpc_name` of `rkx_binder_trans_vh`, after the parcel has been read. -/
def scanRpcName (bufData : List UInt8) (bufDataSize : ℕ) : Option (List UInt8) :=
  let rpcName := List.replicate rkxInterfacetokenBuffSize 0
  if bufDataSize > rkxParcelOffset then
    (tokenScan (Memory.ofList bufData) bufDataSize
      (fun i => decide (i < rkxInterfacetokenBuffSize)) rpcName 0 (rkxParcelOffset + 1)
      rkxParcelOffset).bind fun (rpcName, i) =>
        if i = rkxInterfacetokenBuffSize then storeByte rpcName (i - 1) 0 else some rpcName
  else some rpcName

/-! ### The loop -/

theorem storeByte_append {stored rest : List UInt8} {byte head : UInt8} :
    storeByte (stored ++ head :: rest) stored.length byte = some (stored ++ byte :: rest) := by
  rw [storeByte, if_pos (by simp), List.set_append_right _ _ (le_refl _), Nat.sub_self,
    List.set_cons_zero]

theorem length_tokenLoop_le (hdr : List UInt8) (copySize room j p : ℕ) :
    (tokenLoop hdr copySize room j p).length ≤ room := by
  induction room generalizing j p with
  | zero => rfl
  | succ room ih =>
    rw [tokenLoop]
    split_ifs
    · exact Nat.succ_le_succ (ih (j + 2) (p + 2))
    · exact Nat.zero_le _

/-- On an array with room for what it may store, the loop reads copied bytes only and
puts the name behind what is there. -/
theorem tokenScan_eq {hdr : List UInt8} {copySize limit : ℕ} {more : ℕ → Bool}
    (copied : copySize ≤ hdr.length) (hmore : ∀ i, more i = true ↔ i < limit)
    (room : ℕ) (stored rest : List UInt8) (p : ℕ) (hroom : stored.length + room = limit)
    (hfits : room ≤ rest.length) :
    tokenScan (Memory.ofList hdr) copySize more (stored ++ rest) stored.length (p + 1) p =
      some (stored ++ tokenLoop hdr copySize room (p + 1) p ++
          rest.drop (tokenLoop hdr copySize room (p + 1) p).length,
        stored.length + (tokenLoop hdr copySize room (p + 1) p).length) := by
  induction room generalizing stored rest p with
  | zero =>
    have hfull : ¬ more stored.length = true := by
      rw [hmore]
      omega
    rw [tokenScan, if_neg fun h => hfull h.1, tokenLoop]
    simp
  | succ room ih =>
    have hopen : more stored.length = true := by
      rw [hmore]
      omega
    obtain ⟨head, rest, rfl⟩ := List.exists_cons_of_length_pos (Nat.zero_lt_of_lt hfits)
    rw [tokenScan, tokenLoop]
    by_cases hin : p + 1 < copySize
    · have hlt : p < hdr.length := by omega
      have hread : Memory.ofList hdr p = some (hdr.getD p 0) := by
        rw [Memory.ofList, List.getD_eq_getElem?_getD, List.getElem?_eq_getElem hlt]
        rfl
      rw [if_pos ⟨hopen, hin⟩, hread, Option.bind_some]
      by_cases hzero : hdr.getD p 0 = 0
      · rw [if_neg (not_not_intro hzero), if_neg fun h => h.2 hzero]
        simp
      · -- one byte further on in the array, one unit further on in the parcel
        have hrest := ih (stored ++ [hdr.getD p 0]) rest (p + 2) (by simp; omega)
          (by simpa using hfits)
        simp only [List.length_append, List.length_singleton, List.append_assoc,
          List.singleton_append] at hrest
        have hnext : p + 1 + 2 = p + 2 + 1 := by omega
        rw [if_pos hzero, if_pos ⟨hin, hzero⟩, storeByte_append, Option.bind_some, hnext, hrest]
        simp only [List.append_assoc, List.cons_append, List.length_cons, List.drop_succ_cons,
          Nat.add_assoc, Nat.add_comm 1]
    · rw [if_neg fun h => hin h.2, if_neg fun h => hin h.1]
      simp

/-- The loop from the start of an array. -/
theorem tokenScan_start {hdr : List UInt8} {copySize limit : ℕ} {more : ℕ → Bool}
    (copied : copySize ≤ hdr.length) (hmore : ∀ i, more i = true ↔ i < limit)
    {array : List UInt8} (hfits : limit ≤ array.length) (p : ℕ) :
    tokenScan (Memory.ofList hdr) copySize more array 0 (p + 1) p =
      some (tokenLoop hdr copySize limit (p + 1) p ++
          array.drop (tokenLoop hdr copySize limit (p + 1) p).length,
        (tokenLoop hdr copySize limit (p + 1) p).length) := by
  simpa using tokenScan_eq copied hmore limit [] array p (Nat.zero_add limit) hfits

/-- The store that terminates a name in an array that is longer. -/
theorem storeByte_behind {name array : List UInt8} (longer : name.length < array.length) :
    storeByte (name ++ array.drop name.length) name.length 0 =
      some (name ++ 0 :: array.drop (name.length + 1)) := by
  rw [List.drop_eq_getElem_cons longer, storeByte_append]

/-! ### The two functions -/

/-- On its array, `rkx_parse_interface_token` returns what it returns on strings, with
the same name in front of the first zero of the array. -/
theorem parseInterfaceTokenArray_eq {env : KpEnv} {buffer : BinderBuffer} {rpcName : List UInt8}
    (nonempty : rpcName ≠ [])
    (copied : rkxParcelOffset < buffer.dataSize →
      ∀ hdr, env.copyFromBuffer buffer 0 (min buffer.dataSize rkxInterfacetokenBuffSize) =
        some hdr → min buffer.dataSize rkxInterfacetokenBuffSize ≤ hdr.length) :
    ∃ array, parseInterfaceTokenArray env buffer rpcName rpcName.length =
        some ((rkxParseInterfaceToken env buffer rpcName.length).1, array) ∧
      array.length = rpcName.length ∧
      CString.ofArray array = (rkxParseInterfaceToken env buffer rpcName.length).2 := by
  obtain ⟨first, rest, rfl⟩ := List.exists_cons_of_ne_nil nonempty
  have hsize : ¬ (first :: rest).length = 0 := by simp
  have hcleared : storeByte (first :: rest) 0 0 = some (0 :: rest) :=
    if_pos (Nat.succ_pos rest.length)
  rw [parseInterfaceTokenArray, rkxParseInterfaceToken, if_neg hsize, if_neg hsize, hcleared,
    Option.bind_some]
  by_cases hshort : buffer.dataSize ≤ rkxParcelOffset
  · rw [if_pos hshort, if_pos hshort]
    exact ⟨0 :: rest, rfl, rfl, rfl⟩
  rw [if_neg hshort, if_neg hshort]
  dsimp only
  cases hcopy : env.copyFromBuffer buffer 0 (min buffer.dataSize rkxInterfacetokenBuffSize) with
  | none => exact ⟨0 :: rest, rfl, rfl, rfl⟩
  | some hdr =>
    have hmore : ∀ i, decide (i + 1 < (first :: rest).length) = true ↔ i < rest.length := by simp
    have hfits : rest.length ≤ (0 :: rest).length := by simp
    have hscan := tokenScan_start (copied (Nat.lt_of_not_le hshort) hdr hcopy) hmore hfits
      rkxParcelOffset
    have hlonger : (tokenLoop hdr (min buffer.dataSize rkxInterfacetokenBuffSize) rest.length
        (rkxParcelOffset + 1) rkxParcelOffset).length < (0 :: rest).length :=
      Nat.lt_succ_of_le (length_tokenLoop_le ..)
    simp only [hscan, Option.bind_some, storeByte_behind hlonger, Option.map_some]
    refine ⟨_, rfl, ?_, CString.ofArray_append_zero ⟨_, zero_notMem_tokenLoop _ _ _ _ _⟩ _⟩
    simp only [List.length_append, List.length_cons, List.length_drop] at hlonger ⊢
    omega

/-- On its array, `rkx_binder_trans_vh` computes the array that is reported from. -/
theorem scanRpcName_eq {bufData : List UInt8} {bufDataSize : ℕ}
    (copied : bufDataSize ≤ bufData.length) :
    scanRpcName bufData bufDataSize = some (rpcNameArray bufData bufDataSize) := by
  unfold scanRpcName rpcNameArray
  by_cases hlong : bufDataSize > rkxParcelOffset
  · have hmore : ∀ i, decide (i < rkxInterfacetokenBuffSize) = true ↔
        i < rkxInterfacetokenBuffSize := fun _ => decide_eq_true_iff
    have hfits : rkxInterfacetokenBuffSize ≤
        (List.replicate rkxInterfacetokenBuffSize (0 : UInt8)).length := by
      rw [List.length_replicate]
    have hscan := tokenScan_start copied hmore hfits rkxParcelOffset
    simp only [if_pos hlong, hscan, Option.bind_some, List.drop_replicate]
    split_ifs with hfull
    · rw [storeByte, if_pos]
      rw [List.length_append, hfull]
      exact Nat.lt_add_right _ (by decide)
    · rfl
  · rw [if_neg hlong, if_neg hlong]

theorem length_rpcNameArray (bufData : List UInt8) (bufDataSize : ℕ) :
    (rpcNameArray bufData bufDataSize).length = rkxInterfacetokenBuffSize := by
  have hroom := length_tokenLoop_le bufData bufDataSize rkxInterfacetokenBuffSize
    (rkxParcelOffset + 1) rkxParcelOffset
  unfold rpcNameArray
  dsimp only
  split_ifs
  · rw [List.length_set, List.length_append, List.length_replicate, Nat.add_sub_cancel' hroom]
  · rw [List.length_append, List.length_replicate, Nat.add_sub_cancel' hroom]
  · exact List.length_replicate

/-! ### The name -/

/-- The offsets of the bytes a name is made of, when `size` bytes are copied. -/
def tokenOffsets (size : ℕ) : List ℕ :=
  (List.range size).filter fun o => rkxParcelOffset ≤ o ∧ o % 2 = 0 ∧ o + 1 < size

theorem tokenOffsets_eq (size : ℕ) :
    tokenOffsets size =
      (List.range ((size - rkxParcelOffset) / 2)).map fun i => rkxParcelOffset + 2 * i := by
  -- both lists increase, and they have the same members
  have hleft : (tokenOffsets size).Pairwise (· < ·) := List.pairwise_lt_range.filter _
  have hright : ((List.range ((size - rkxParcelOffset) / 2)).map
      fun i => rkxParcelOffset + 2 * i).Pairwise (· < ·) :=
    List.pairwise_lt_range.map _ fun i j (hij : i < j) => by omega
  refine hleft.eq_of_mem_iff hright fun o => ?_
  rw [tokenOffsets, List.mem_filter, List.mem_range, decide_eq_true_iff, List.mem_map,
    rkxParcelOffset]
  simp only [List.mem_range]
  constructor
  · rintro ⟨-, hfrom, heven, hin⟩
    exact ⟨(o - 16) / 2, by omega, by omega⟩
  · rintro ⟨i, hi, rfl⟩
    omega

theorem tokenBytes_eq (buffer : ℕ → UInt8) (dataSize : ℕ) :
    tokenBytes buffer dataSize =
      ((tokenOffsets (min dataSize rkxInterfacetokenBuffSize)).map buffer).takeWhile (· ≠ 0) := by
  rw [tokenOffsets_eq, List.map_map]
  rfl

/-- What `rkx_parse_interface_token` returns for the parcel of a call. -/
theorem rkxParseInterfaceToken_eq {env : KpEnv} {buffer : BinderBuffer}
    {tr : BinderTransactionData} (parcel : buffer.data = (List.range tr.dataSize).map tr.buffer)
    (copied : rkxParcelOffset < buffer.dataSize →
      env.copyFromBuffer buffer 0 (min buffer.dataSize rkxInterfacetokenBuffSize) =
        some (buffer.data.take (min buffer.dataSize rkxInterfacetokenBuffSize))) :
    rkxParseInterfaceToken env buffer rkxInterfacetokenBuffSize =
      (decide (0 < (tokenBytes tr.buffer tr.dataSize).length),
        tokenName tr.buffer tr.dataSize) := by
  have hsize : buffer.dataSize = tr.dataSize := by
    rw [BinderBuffer.dataSize, parcel, List.length_map, List.length_range]
  rw [rkxParseInterfaceToken, if_neg (by decide)]
  by_cases hshort : buffer.dataSize ≤ rkxParcelOffset
  · have hname : tokenBytes tr.buffer tr.dataSize = [] :=
      tokenBytes_of_le ((Nat.min_le_left ..).trans (hsize ▸ hshort))
    rw [if_pos hshort, tokenName]
    simp only [hname]
    rfl
  · have htake : buffer.data.take (min buffer.dataSize rkxInterfacetokenBuffSize) =
        (List.range (min tr.dataSize rkxInterfacetokenBuffSize)).map tr.buffer := by
      rw [parcel, hsize, ← List.map_take, List.take_range, Nat.min_eq_left (Nat.min_le_left ..)]
    have hstored := tokenLoop_parcel tr.buffer tr.dataSize
      (show 62 ≤ rkxInterfacetokenBuffSize - 1 by decide)
    rw [if_neg hshort]
    dsimp only
    rw [copied (Nat.lt_of_not_le hshort), htake]
    simp only [hsize, hstored]
    rfl

variable {env : KpEnv} {hook : HookEnv} {buffer : BinderBuffer} {tr : BinderTransactionData}

/-- When both functions get the bytes of the same parcel, the name used for the rule
lookup is the name in the report: the longest part without zeros at the start of the
bytes at offsets 16, 18 and so on whose unit lies inside the bytes copied. The lookup
takes place unless that is empty. Neither loop loads a byte that was not copied or
stores outside its array of 140 bytes, whatever the array held before. -/
theorem interface_token_parsers_agree
    (parcel : buffer.data = (List.range tr.dataSize).map tr.buffer)
    (copied : rkxParcelOffset < buffer.dataSize →
      env.copyFromBuffer buffer 0 (min buffer.dataSize rkxInterfacetokenBuffSize) =
        some (buffer.data.take (min buffer.dataSize rkxInterfacetokenBuffSize)))
    (oneWay : tr.flags &&& tfOneWay ≠ 0) {rpcName : List UInt8}
    (hsize : rpcName.length = rkxInterfacetokenBuffSize) :
    (rkxParseInterfaceToken env buffer rkxInterfacetokenBuffSize).2.bytes =
      ((tokenOffsets (min tr.dataSize rkxInterfacetokenBuffSize)).map tr.buffer).takeWhile
        (· ≠ 0) ∧
    ((rkxParseInterfaceToken env buffer rkxInterfacetokenBuffSize).1 = true ↔
      (rkxParseInterfaceToken env buffer rkxInterfacetokenBuffSize).2.bytes ≠ []) ∧
    (∀ targetProc proc event, .binder event ∈ rkxBinderTransVh hook targetProc proc tr →
      event.rpcName = (rkxParseInterfaceToken env buffer rkxInterfacetokenBuffSize).2) ∧
    (∃ array, parseInterfaceTokenArray env buffer rpcName rkxInterfacetokenBuffSize =
        some ((rkxParseInterfaceToken env buffer rkxInterfacetokenBuffSize).1, array) ∧
      array.length = rkxInterfacetokenBuffSize ∧
      CString.ofArray array = (rkxParseInterfaceToken env buffer rkxInterfacetokenBuffSize).2) ∧
    ∃ array, scanRpcName
        ((List.range (min tr.dataSize rkxInterfacetokenBuffSize)).map tr.buffer)
        (min tr.dataSize rkxInterfacetokenBuffSize) = some array ∧
      array.length = rkxInterfacetokenBuffSize ∧
      CString.ofArray array = (rkxParseInterfaceToken env buffer rkxInterfacetokenBuffSize).2 := by
  have hparsed := rkxParseInterfaceToken_eq parcel copied
  refine ⟨?_, ?_, ?_, ?_, ?_⟩
  · rw [hparsed, ← tokenBytes_eq]
    rfl
  · rw [hparsed]
    exact decide_eq_true_iff.trans List.length_pos_iff
  · intro targetProc proc event reported
    obtain ⟨sender, target, hevent⟩ := reported_oneWay oneWay reported
    obtain rfl := RkxEvent.binder.inj hevent
    rw [hparsed, rpcName_asyncEvent]
  · rw [← hsize]
    refine parseInterfaceTokenArray_eq ?_ ?_
    · rintro rfl
      cases hsize
    · intro hlong hdr hhdr
      obtain rfl := Option.some.inj (hhdr.symm.trans (copied hlong))
      rw [List.length_take]
      exact le_min le_rfl (Nat.min_le_left ..)
  · refine ⟨_, scanRpcName_eq ?_, length_rpcNameArray _ _, ?_⟩
    · rw [List.length_map, List.length_range]
    · rw [hparsed, ofArray_rpcNameArray]

/-- A one-way call whose parcel names the interface "a". -/
def callNamedA : BinderTransactionData := ⟨tfOneWay, 7, 20, fun o => if o = 16 then 97 else 0⟩

def parcelNamedA : BinderBuffer :=
  ⟨(List.range callNamedA.dataSize).map callNamedA.buffer, 0, 1, ⟨0, 0, 0⟩⟩

/-- The report of the call, and the name its rule is looked up by. -/
theorem interface_token_parsers_agree_a :
    .binder (asyncEvent callerTask (calleeTask 10001) callNamedA
        (tokenName callNamedA.buffer callNamedA.dataSize)) ∈
      rkxBinderTransVh ⟨true, true, true⟩ (some ⟨2, some (calleeTask 10001)⟩) ⟨1, some callerTask⟩
        callNamedA ∧
    (rkxParseInterfaceToken frozenEnv parcelNamedA rkxInterfacetokenBuffSize).2.bytes = [97] ∧
    (asyncEvent callerTask (calleeTask 10001) callNamedA
        (tokenName callNamedA.buffer callNamedA.dataSize)).rpcName =
      (rkxParseInterfaceToken frozenEnv parcelNamedA rkxInterfacetokenBuffSize).2 := by
  have oneWay : callNamedA.flags &&& tfOneWay ≠ 0 := by decide
  have hreported : RkxEvent.binder (asyncEvent callerTask (calleeTask 10001) callNamedA
        (tokenName callNamedA.buffer callNamedA.dataSize)) ∈
      rkxBinderTransVh ⟨true, true, true⟩ (some ⟨2, some (calleeTask 10001)⟩) ⟨1, some callerTask⟩
        callNamedA := by
    rw [rkxBinderTransVh_oneWay oneWay]
    exact List.mem_singleton_self _
  have hparcel : parcelNamedA.data = (List.range callNamedA.dataSize).map callNamedA.buffer := rfl
  obtain ⟨hname, -, hevent, -⟩ := interface_token_parsers_agree hparcel
    (fun _ => frozenEnv_faithful _ _ _ (by decide) (by decide)) oneWay
    (List.length_replicate (a := (0 : UInt8)))
  exact ⟨hreported, hname.trans (by decide), hevent _ _ _ hreported⟩

end ReKernelX
