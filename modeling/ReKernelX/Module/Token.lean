import ReKernelX.Module.Replacement

/-!
# Which interface a rule governs

A sender that starts its parcel with an interface token writes sixteen header
bytes, the interface name in UTF-16 and a terminating unit. The probe copies at
most 140 bytes of the parcel, so it sees at most 62 characters of the name,
while a rule may carry a name of up to 139. A rule alone in the table is
therefore selected exactly when its name is the first 62 characters of the
interface's: the name itself for every interface of at most 62 characters, and
never the name itself beyond that.
-/

set_option autoImplicit false

namespace ReKernelX

open Bytes

/-- The UTF-16LE code units of an ASCII string. -/
def utf16le (name : List UInt8) : List UInt8 := name.flatMap fun c => [c, 0]

/-- The layout of `writeInterfaceToken`: header, interface name, a NUL unit, and
whatever the sender wrote after it. -/
structure InterfaceParcel where
  header : List UInt8
  name : CString
  rest : List UInt8
  header_length : header.length = rkxParcelOffset
  ascii : ∀ c ∈ name.bytes, c < 128

/-- The bytes of the parcel. -/
def InterfaceParcel.data (parcel : InterfaceParcel) : List UInt8 :=
  parcel.header ++ (utf16le parcel.name.bytes ++ 0 :: 0 :: parcel.rest)

/-- How many characters of a name the copied part of a parcel has room for. -/
def tokenCapacity : ℕ := (rkxInterfacetokenBuffSize - rkxParcelOffset) / 2

/-- The strategy that parsing the token and looking it up selects, if any. -/
def selectedStrategy (env : KpEnv) (rules : RkxFreeAsync) (t : BinderTransaction) :
    Option UInt8 :=
  let parsed := rkxParseInterfaceToken env t.buffer rkxInterfacetokenBuffSize
  if parsed.1 then
    let found := rkxFreeAsyncLookupRcu env.jhash rules (some parsed.2) t.code.toInt32
      (some rkxFreeAsyncByCode)
    if found.1 then found.2 else none
  else none

/-! ### The name the parser sees -/

theorem length_utf16le (name : List UInt8) : (utf16le name).length = 2 * name.length := by
  induction name with
  | nil => rfl
  | cons c rest ih =>
    rw [utf16le, List.flatMap_cons, List.length_append, ← utf16le, ih, List.length_cons]
    simp only [List.length_cons, List.length_nil]
    omega

theorem getD_eq_drop_getD (bytes : List UInt8) (p : ℕ) :
    bytes.getD p 0 = (bytes.drop p).getD 0 0 := by
  simp only [List.getD_eq_getElem?_getD, List.getElem?_drop, Nat.add_zero]

/-- On a copied name the loop stops at the NUL unit, at the end of the output or
at the end of the copy, whichever comes first. -/
theorem tokenLoop_utf16le (room : ℕ) {hdr name rest : List UInt8} {copySize p : ℕ}
    (nul_free : 0 ∉ name)
    (layout : hdr.drop p = (utf16le name ++ 0 :: 0 :: rest).take (copySize - p)) :
    tokenLoop hdr copySize room (p + 1) p = name.take (min room ((copySize - p) / 2)) := by
  induction name generalizing room p with
  | nil =>
    have hread : hdr.getD p 0 = 0 := by
      rw [getD_eq_drop_getD, layout]
      cases copySize - p <;> rfl
    cases room with
    | zero => rfl
    | succ room => rw [tokenLoop, if_neg fun h => h.2 hread, List.take_nil]
  | cons c name ih =>
    obtain ⟨hc, hname⟩ := not_or.mp (fun h => nul_free (List.mem_cons.mpr h))
    cases room with
    | zero =>
      rw [tokenLoop, Nat.zero_min, List.take_zero]
    | succ room =>
      by_cases hcopied : p + 1 < copySize
      · -- one unit was copied in full: the loop stores its low byte and goes on
        obtain ⟨left, hleft⟩ : ∃ left, copySize - p = left + 2 := ⟨copySize - p - 2, by omega⟩
        rw [hleft] at layout
        change hdr.drop p = c :: 0 :: (utf16le name ++ 0 :: 0 :: rest).take left at layout
        have hread : hdr.getD p 0 = c := by
          rw [getD_eq_drop_getD, layout]
          rfl
        have hnext : hdr.drop (p + 2) =
            (utf16le name ++ 0 :: 0 :: rest).take (copySize - (p + 2)) := by
          rw [← List.drop_drop, layout, show copySize - (p + 2) = left by omega]
          rfl
        have hmin : min (room + 1) ((copySize - p) / 2) =
            min room ((copySize - (p + 2)) / 2) + 1 := by
          omega
        rw [tokenLoop, hread, if_pos ⟨hcopied, Ne.symm hc⟩, ih room hname hnext, hmin,
          List.take_succ_cons]
      · have hmin : min (room + 1) ((copySize - p) / 2) = 0 := by omega
        rw [tokenLoop, if_neg fun h => hcopied h.1, hmin, List.take_zero]

/-- The parser returns the first `tokenCapacity` characters of the interface
name. -/
theorem rkxParseInterfaceToken_parcel {env : KpEnv} (faithful : env.Faithful)
    (parcel : InterfaceParcel) {buffer : BinderBuffer} (layout : buffer.data = parcel.data) :
    (rkxParseInterfaceToken env buffer rkxInterfacetokenBuffSize).2.bytes =
        parcel.name.bytes.take tokenCapacity ∧
      (rkxParseInterfaceToken env buffer rkxInterfacetokenBuffSize).1 =
        decide (0 < (parcel.name.bytes.take tokenCapacity).length) := by
  have hsize : buffer.dataSize =
      rkxParcelOffset + (2 * parcel.name.bytes.length + (parcel.rest.length + 2)) := by
    simp only [BinderBuffer.dataSize, layout, InterfaceParcel.data, List.length_append,
      parcel.header_length, length_utf16le, List.length_cons]
  have hcopy := faithful buffer 0 (min buffer.dataSize rkxInterfacetokenBuffSize) rfl (by omega)
  rw [List.drop_zero] at hcopy
  have hlayout : (buffer.data.take (min buffer.dataSize rkxInterfacetokenBuffSize)).drop
      rkxParcelOffset = (utf16le parcel.name.bytes ++ 0 :: 0 :: parcel.rest).take
        (min buffer.dataSize rkxInterfacetokenBuffSize - rkxParcelOffset) := by
    rw [List.drop_take, layout, InterfaceParcel.data, ← parcel.header_length, List.drop_left]
  have hloop := tokenLoop_utf16le (rkxInterfacetokenBuffSize - 1) parcel.name.nul_free hlayout
  -- a parcel shorter than the copy holds the whole name, and that is short
  have htake : parcel.name.bytes.take (min (rkxInterfacetokenBuffSize - 1)
        ((min buffer.dataSize rkxInterfacetokenBuffSize - rkxParcelOffset) / 2)) =
      parcel.name.bytes.take tokenCapacity := by
    simp only [tokenCapacity, rkxInterfacetokenBuffSize, rkxParcelOffset] at hsize ⊢
    by_cases hlong : 140 ≤ buffer.dataSize
    · rw [Nat.min_eq_right hlong]
      rfl
    · rw [List.take_of_length_le (by omega), List.take_of_length_le (by omega)]
  have hoffset : ¬ buffer.dataSize ≤ rkxParcelOffset := by omega
  simp only [rkxParseInterfaceToken, if_neg hoffset, hcopy, hloop, htake]
  exact ⟨rfl, rfl⟩

/-! ### The only rule of a table -/

section OnlyRule

variable {env : KpEnv} {rules : RkxFreeAsync} {n : CString} {c : Int32} {s : UInt8}
  {kmallocOk : Bool}

/-- Adding to a table that holds no other rule leaves exactly the rule added. -/
theorem contents_add_alone (inv : rules.Inv env.jhash) (alone : ∀ k ∈ rules.contents, k = (n, c))
    (accepted : (rkxAddFreeAsync env.jhash rules (some n) c s kmallocOk).1 = 0) :
    (rkxAddFreeAsync env.jhash rules (some n) c s kmallocOk).2.contents =
      Finmap.singleton (n, c) s := by
  obtain ⟨hreturn, hcontents⟩ := Prod.ext_iff.mp (inv.contents_add (some n) c s kmallocOk)
  simp only [Prod.map_fst, Prod.map_snd, id_eq, accepted, RuleMap.add] at hreturn hcontents
  rw [hcontents]
  split_ifs at hreturn ⊢
  · refine Finmap.ext_lookup fun k => ?_
    by_cases hk : k = (n, c)
    · rw [hk, Finmap.lookup_insert, Finmap.lookup_singleton_eq]
    · rw [Finmap.lookup_insert_of_ne _ hk, Finmap.lookup_eq_none.mpr fun hmem => hk (alone k hmem)]
      symm
      rwa [Finmap.lookup_eq_none, Finmap.mem_singleton]
  · cases hreturn
  · cases hreturn

/-- The only rule of a table answers for its own name and no other. -/
theorem resolve_singleton {rpcName : CString} {code : Int32} (codeMatches : code = c ∨ c = -1) :
    RuleMap.resolve (Finmap.singleton (n, c) s) rpcName code =
      if rpcName = n then some s else none := by
  have hlookup : ∀ k : RuleKey, (Finmap.singleton (n, c) s : RuleMap).lookup k =
      if k = (n, c) then some s else none := by
    intro k
    split_ifs with hk
    · rw [hk, Finmap.lookup_singleton_eq]
    · rwa [Finmap.lookup_eq_none, Finmap.mem_singleton]
  simp only [RuleMap.resolve, hlookup, Prod.mk.injEq]
  by_cases hname : rpcName = n
  · rcases codeMatches with rfl | rfl
    · simp [hname]
    · by_cases hcode : code = -1 <;> simp [hname, hcode]
  · simp [hname]

/-- An accepted rule alone in its table is selected for exactly the interfaces
whose first `tokenCapacity` characters are its name. -/
theorem selectedStrategy_eq_some_iff (faithful : env.Faithful) (inv : rules.Inv env.jhash)
    (alone : ∀ k ∈ rules.contents, k = (n, c))
    (accepted : (rkxAddFreeAsync env.jhash rules (some n) c s kmallocOk).1 = 0)
    {t : BinderTransaction} (parcel : InterfaceParcel) (layout : t.buffer.data = parcel.data)
    (codeMatches : t.code.toInt32 = c ∨ c = -1) :
    selectedStrategy env (rkxAddFreeAsync env.jhash rules (some n) c s kmallocOk).2 t = some s ↔
      parcel.name.bytes.take tokenCapacity = n.bytes := by
  have inv' := inv.add (some n) c s kmallocOk
  have hcontents := contents_add_alone inv alone accepted
  have hnonempty : n.bytes ≠ [] := by
    rintro hnil
    rw [rkxAddFreeAsync] at accepted
    simp [hnil, einval] at accepted
  have hfits : (rkxAddFreeAsync env.jhash rules (some n) c s kmallocOk).2.contents.keys.card <
      2 ^ 31 := by
    rw [hcontents, Finmap.keys_singleton, Finset.card_singleton]
    decide
  obtain ⟨hname, hparsed⟩ := rkxParseInterfaceToken_parcel faithful parcel layout
  have hsame : (rkxParseInterfaceToken env t.buffer rkxInterfacetokenBuffSize).2 = n ↔
      parcel.name.bytes.take tokenCapacity = n.bytes := by
    rw [← hname, CString.bytes_inj]
  simp only [selectedStrategy, hparsed, inv'.lookup_eq hfits, hcontents,
    resolve_singleton codeMatches]
  by_cases htake : parcel.name.bytes.take tokenCapacity = n.bytes
  · have hpos : 0 < n.bytes.length := List.length_pos_iff.mpr hnonempty
    simp [hsame.mpr htake, htake, hpos]
  · simp [mt hsame.mp htake, htake]

end OnlyRule

/-- **A rule governs exactly its interface as long as 62 characters tell.** For
a rule accepted into a table without other rules and a parcel that starts with
an interface token, the rule is selected for its own interface and for no other
exactly when the interface has at most 62 characters, or neither it nor its
first 62 characters are the rule's name. -/
theorem rule_governs_interface_iff {env : KpEnv} (faithful : env.Faithful)
    (calls : List FreeAsyncCall) (n : CString) (c : Int32) (s : UInt8) (kmallocOk : Bool)
    (alone : ∀ k ∈ (freeAsyncAfter env.jhash calls).contents, k = (n, c))
    (accepted : (rkxAddFreeAsync env.jhash (freeAsyncAfter env.jhash calls) (some n) c s
      kmallocOk).1 = 0)
    (t : BinderTransaction) (parcel : InterfaceParcel) (layout : t.buffer.data = parcel.data)
    (codeMatches : t.code.toInt32 = c ∨ c = -1) :
    (selectedStrategy env (rkxAddFreeAsync env.jhash (freeAsyncAfter env.jhash calls) (some n) c s
        kmallocOk).2 t = some s ↔ parcel.name = n) ↔
      (parcel.name.bytes.length ≤ 62 ∨
        (parcel.name ≠ n ∧ parcel.name.bytes.take 62 ≠ n.bytes)) := by
  have inv : (freeAsyncAfter env.jhash calls).Inv env.jhash := RkxFreeAsync.inv_after calls
  rw [selectedStrategy_eq_some_iff faithful inv alone accepted parcel layout codeMatches,
    ne_eq, ← CString.bytes_inj]
  change (parcel.name.bytes.take 62 = n.bytes ↔ _) ↔ _
  by_cases hshort : parcel.name.bytes.length ≤ 62
  · rw [List.take_of_length_le hshort]
    exact iff_of_true Iff.rfl (Or.inl hshort)
  · -- a longer name differs from its first 62 characters, so both cannot be `n`
    have hdiffer : ¬ (parcel.name.bytes.take 62 = n.bytes ∧ parcel.name.bytes = n.bytes) := by
      rintro ⟨htake, hwhole⟩
      have hlength := congrArg List.length (htake.trans hwhole.symm)
      rw [List.length_take] at hlength
      omega
    tauto

/-- A parcel whose interface name is the letter "a", `count` times. -/
def parcelOf (count : ℕ) : InterfaceParcel where
  header := List.replicate 16 0
  name := ⟨List.replicate count 97, fun h => by cases List.eq_of_mem_replicate h⟩
  rest := []
  header_length := rfl
  ascii := fun c hc => by
    rw [List.eq_of_mem_replicate hc]
    decide

theorem rule_governs_interface_one :
    (selectedStrategy frozenEnv (rkxAddFreeAsync frozenEnv.jhash rkxInitFreeAsync
        (some (parcelOf 1).name) (-1) rkxFreeAsyncSkip true).2 (oneWayOf 1 (parcelOf 1).data) =
          some rkxFreeAsyncSkip ↔ (parcelOf 1).name = (parcelOf 1).name) :=
  (rule_governs_interface_iff frozenEnv_faithful [] (parcelOf 1).name (-1) rkxFreeAsyncSkip true
    (fun k hk => absurd hk (by rw [freeAsyncAfter]; exact Finmap.notMem_empty)) rfl
    (oneWayOf 1 (parcelOf 1).data) (parcelOf 1) rfl (Or.inr rfl)).mpr (Or.inl (by decide))

/-- A rule for an interface of 63 characters is accepted and never selected for
that interface. -/
theorem rule_of_63_characters_never_selected :
    (rkxAddFreeAsync frozenEnv.jhash rkxInitFreeAsync (some (parcelOf 63).name) (-1)
      rkxFreeAsyncSkip true).1 = 0 ∧
    selectedStrategy frozenEnv (rkxAddFreeAsync frozenEnv.jhash rkxInitFreeAsync
      (some (parcelOf 63).name) (-1) rkxFreeAsyncSkip true).2 (oneWayOf 1 (parcelOf 63).data) ≠
        some rkxFreeAsyncSkip := by
  have haccepted : (rkxAddFreeAsync frozenEnv.jhash rkxInitFreeAsync (some (parcelOf 63).name)
      (-1) rkxFreeAsyncSkip true).1 = 0 := by decide +kernel
  refine ⟨haccepted, ?_⟩
  rw [ne_eq, selectedStrategy_eq_some_iff frozenEnv_faithful RkxFreeAsync.inv_init
    (fun k hk => absurd hk Finmap.notMem_empty) haccepted (parcelOf 63) rfl (Or.inr rfl)]
  exact fun htake => absurd (congrArg List.length htake) (by decide)

end ReKernelX
