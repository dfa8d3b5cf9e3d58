import ReKernelX.Foundation.Netlink
import ReKernelX.Client.Uapi

/-!
# Reading attributes

The readers of `rkx_nla.h`, over a memory in which reading an address that is
not mapped has no result. The parser walks attributes until one does not fit
what is left, and remembers for each number where its last attribute starts.

On the encoding of attributes with distinct numbers it finds each of them and
nothing else.
-/

set_option autoImplicit false

namespace ReKernelX.Client

open Bytes Netlink

/-- `nla_type`: the number without the flag bits -/
def nlaType (raw : ℕ) : ℕ := raw % 2 ^ 14

/-- `nla_len`: the length of the payload, as a `uint16_t` -/
def nlaLen (m : Memory) (nla : ℕ) : Option ℕ :=
  (readWord m nla 2).map fun len => (len + 2 ^ 16 - nlaHdrlen) % 2 ^ 16

/-- The table a parser fills: where the attribute of each number starts. -/
abbrev AttrTable := ℕ → Option ℕ

/-- The loop of `rkx_nla_parse`. `rem` is an `int`, and padding may take it below
zero. -/
def nlaForEach (m : Memory) (maxtype : ℕ) (tb : AttrTable) (nla : ℕ) (rem : ℤ) :
    Option AttrTable :=
  if _enough : (nlaHdrlen : ℤ) ≤ rem then
    match readWord m nla 2 with
    | none => none
    | some len =>
      if _ok : nlaHdrlen ≤ len ∧ (len : ℤ) ≤ rem then
        match readWord m (nla + 2) 2 with
        | none => none
        | some raw =>
          nlaForEach m maxtype
            (if 0 < nlaType raw ∧ nlaType raw ≤ maxtype then
              Function.update tb (nlaType raw) (some nla)
            else tb)
            (nla + align4 len) (rem - align4 len)
      else some tb
  else some tb
termination_by rem.toNat
decreasing_by
  have hpos := le_align4 len
  simp only [nlaHdrlen] at _enough _ok
  omega

/-- `rkx_nla_parse` -/
def rkxNlaParse (m : Memory) (maxtype head : ℕ) (len : ℤ) : Option AttrTable :=
  nlaForEach m maxtype (fun _ => none) head len

/-- `rkx_nla_parse_nested` -/
def rkxNlaParseNested (m : Memory) (maxtype nla : ℕ) : Option AttrTable :=
  (nlaLen m nla).bind fun len => rkxNlaParse m maxtype (nla + nlaHdrlen) len

/-- `rkx_nla_get` of an `int32_t`: a missing or short attribute leaves the
variable as it was. -/
def rkxNlaGet (m : Memory) (nla : Option ℕ) (out : Int32) : Option Int32 :=
  match nla with
  | none => some out
  | some nla =>
    (nlaLen m nla).bind fun len =>
      if len < 4 then some out
      else (readWord m (nla + nlaHdrlen) 4).map fun word => (UInt32.ofNat word).toInt32

/-! ### Reading what was written -/

variable {m : Memory}

theorem nlaLen_of_holds {pos type : ℕ} {payload : List UInt8}
    (h : Holds m pos (encodeAttr type payload)) (short : nlaHdrlen + payload.length < 2 ^ 16)
    (htype : type < 2 ^ 16) : nlaLen m pos = some payload.length := by
  rw [nlaLen, (read_of_holds_encodeAttr h short htype).1, Option.map_some]
  refine congrArg some ?_
  rw [nlaHdrlen] at short ⊢
  omega

theorem rkxNlaGet_of_holds {pos type : ℕ} {value : Int32}
    (h : Holds m pos (encodeAttr type (leBytes 4 value.toUInt32.toNat))) (htype : type < 2 ^ 16)
    (out : Int32) : rkxNlaGet m (some pos) out = some value := by
  have hshort : nlaHdrlen + (leBytes 4 value.toUInt32.toNat).length < 2 ^ 16 := by
    rw [length_leBytes]
    decide
  have hword := readWord_of_holds (read_of_holds_encodeAttr h hshort htype).2.2
    value.toUInt32.toNat_lt
  simp only [rkxNlaGet, nlaLen_of_holds h hshort htype, length_leBytes, Option.bind_some,
    lt_irrefl, if_false, hword, Option.map_some, UInt32.ofNat_toNat]
  rfl

/-- Attributes the parser can tell apart: numbers in range and distinct, and
lengths that fit their fields. -/
structure Readable (maxtype : ℕ) (attrs : List Attr) : Prop where
  numbers : ∀ type ∈ attrs.map Prod.fst,
    type < 2 ^ 16 ∧ 0 < nlaType type ∧ nlaType type ≤ maxtype
  distinct : ((attrs.map Prod.fst).map nlaType).Nodup
  short : (encodeAttrs attrs).length < 2 ^ 16

theorem Readable.of_cons {maxtype : ℕ} {a : Attr} {rest : List Attr}
    (h : Readable maxtype (a :: rest)) :
    (nlaHdrlen + a.2.length < 2 ^ 16 ∧ nlaType a.1 ∉ (rest.map Prod.fst).map nlaType) ∧
      Readable maxtype rest := by
  have hdistinct := h.distinct
  have hshort := h.short
  have hpad := le_align4 (nlaHdrlen + a.2.length)
  rw [List.map_cons, List.map_cons, List.nodup_cons] at hdistinct
  rw [encodeAttrs_cons, List.length_append, length_encodeAttr] at hshort
  exact ⟨⟨by omega, hdistinct.1⟩,
    fun type hmem => h.numbers type (List.mem_cons_of_mem _ hmem), hdistinct.2, by omega⟩

/-- The table has each of the attributes, and nothing else. -/
structure Finds (m : Memory) (tb : AttrTable) (attrs : List Attr) : Prop where
  found : ∀ a ∈ attrs, ∃ pos, tb (nlaType a.1) = some pos ∧ Holds m pos (encodeAttr a.1 a.2)
  absent : ∀ n, n ∉ (attrs.map Prod.fst).map nlaType → tb n = none

/-- A value that was written is what the reader stores. -/
theorem Finds.get {tb : AttrTable} {attrs : List Attr} (finds : Finds m tb attrs) {k type : ℕ}
    {value : Int32} (written : attrs[k]? = some (type, leBytes 4 value.toUInt32.toNat))
    (plain : type < 2 ^ 14) (out : Int32) : rkxNlaGet m (tb type) out = some value := by
  obtain ⟨pos, hpos, hattr⟩ := finds.found _ (List.mem_of_getElem? written)
  rw [nlaType, Nat.mod_eq_of_lt plain] at hpos
  rw [hpos]
  exact rkxNlaGet_of_holds hattr (by omega) out

/-- One round of the loop. -/
theorem nlaForEach_attr {maxtype pos type : ℕ} {payload : List UInt8} {rem : ℤ}
    (h : Holds m pos (encodeAttr type payload)) (short : nlaHdrlen + payload.length < 2 ^ 16)
    (number : type < 2 ^ 16 ∧ 0 < nlaType type ∧ nlaType type ≤ maxtype)
    (fits : ((nlaHdrlen + payload.length : ℕ) : ℤ) ≤ rem) (tb : AttrTable) :
    nlaForEach m maxtype tb pos rem =
      nlaForEach m maxtype (Function.update tb (nlaType type) (some pos))
        (pos + (encodeAttr type payload).length) (rem - (encodeAttr type payload).length) := by
  obtain ⟨hlen, htype, -⟩ := read_of_holds_encodeAttr h short number.1
  have henough : (nlaHdrlen : ℤ) ≤ rem := by omega
  rw [nlaForEach, dif_pos henough, hlen]
  simp only
  rw [dif_pos ⟨Nat.le_add_right _ _, fits⟩, htype]
  simp only
  rw [if_pos number.2, length_encodeAttr]

/-- The whole loop over encoded attributes. -/
theorem nlaForEach_encodeAttrs {maxtype : ℕ} {attrs : List Attr}
    (readable : Readable maxtype attrs) (tb : AttrTable) (pos : ℕ)
    (h : Holds m pos (encodeAttrs attrs)) :
    ∃ tb', nlaForEach m maxtype tb pos (encodeAttrs attrs).length = some tb' ∧
      (∀ a ∈ attrs, ∃ p, tb' (nlaType a.1) = some p ∧ Holds m p (encodeAttr a.1 a.2)) ∧
      ∀ n, n ∉ (attrs.map Prod.fst).map nlaType → tb' n = tb n := by
  induction attrs generalizing tb pos with
  | nil =>
    refine ⟨tb, ?_, by simp, fun _ _ => rfl⟩
    rw [nlaForEach, dif_neg (by decide)]
  | cons a rest ih =>
    obtain ⟨⟨hshort, hfresh⟩, hrest⟩ := readable.of_cons
    have hnumber := readable.numbers a.1 (by simp)
    rw [encodeAttrs_cons, holds_append] at h
    obtain ⟨tb', hloop, hfound, hkept⟩ :=
      ih hrest (Function.update tb (nlaType a.1) (some pos)) _ h.2
    refine ⟨tb', ?_, ?_, ?_⟩
    · have hfits : ((nlaHdrlen + a.2.length : ℕ) : ℤ) ≤ (encodeAttrs (a :: rest)).length := by
        have hpad := le_align4 (nlaHdrlen + a.2.length)
        rw [encodeAttrs_cons, List.length_append, length_encodeAttr]
        omega
      rw [nlaForEach_attr h.1 hshort hnumber hfits, ← hloop, encodeAttrs_cons, List.length_append]
      congr 1
      omega
    · -- the rest of the walk does not overwrite the entry of `a`: its number is not used again
      intro b hb
      rcases List.mem_cons.mp hb with rfl | hmem
      · exact ⟨pos, by rw [hkept _ hfresh, Function.update_self], h.1⟩
      · exact hfound b hmem
    · intro n hn
      rw [List.map_cons, List.map_cons, List.mem_cons, not_or] at hn
      rw [hkept n hn.2, Function.update_of_ne hn.1]

/-- The parser finds exactly the encoded attributes. -/
theorem rkxNlaParse_encodeAttrs {maxtype : ℕ} {attrs : List Attr}
    (readable : Readable maxtype attrs) {pos : ℕ} (h : Holds m pos (encodeAttrs attrs)) :
    ∃ tb, rkxNlaParse m maxtype pos (encodeAttrs attrs).length = some tb ∧ Finds m tb attrs := by
  obtain ⟨tb, hparse, hfound, hkept⟩ := nlaForEach_encodeAttrs readable (fun _ => none) pos h
  exact ⟨tb, hparse, hfound, hkept⟩

theorem rkxNlaParseNested_encodeAttrs {maxtype type : ℕ} {attrs : List Attr}
    (readable : Readable maxtype attrs) {pos : ℕ}
    (h : Holds m pos (encodeAttr type (encodeAttrs attrs)))
    (short : nlaHdrlen + (encodeAttrs attrs).length < 2 ^ 16) (htype : type < 2 ^ 16) :
    ∃ tb, rkxNlaParseNested m maxtype pos = some tb ∧ Finds m tb attrs := by
  obtain ⟨tb, hparse, hfinds⟩ :=
    rkxNlaParse_encodeAttrs readable (read_of_holds_encodeAttr h short htype).2.2
  refine ⟨tb, ?_, hfinds⟩
  rw [rkxNlaParseNested, nlaLen_of_holds h short htype, Option.bind_some, hparse]

/-! ### Nested attributes -/

/-- The flag of a nested attribute is masked away when its number is read. -/
theorem nlaType_nested {type : ℕ} (plain : type < 2 ^ 14) :
    nlaType (type ||| nlaFNested) = type ∧ type ||| nlaFNested < 2 ^ 16 := by
  have hor : type ||| nlaFNested = 2 ^ 15 + type := by
    have hlt : type < 2 ^ 15 := by omega
    rw [Nat.or_comm, nlaFNested]
    exact (Nat.two_pow_add_eq_or_of_lt hlt 1).symm
  rw [nlaType, hor]
  omega

theorem readable_nested {maxtype type : ℕ} {content : List UInt8} (plain : type < 2 ^ 14)
    (number : 0 < type ∧ type ≤ maxtype)
    (short : (encodeAttrs [(type ||| nlaFNested, content)]).length < 2 ^ 16) :
    Readable maxtype [(type ||| nlaFNested, content)] := by
  obtain ⟨htype, hlt⟩ := nlaType_nested plain
  refine ⟨?_, List.pairwise_singleton _ _, short⟩
  intro n hn
  obtain rfl := List.mem_singleton.mp hn
  exact ⟨hlt, by rwa [htype]⟩

theorem Finds.nested {tb : AttrTable} {type : ℕ} {content : List UInt8} (plain : type < 2 ^ 14)
    (finds : Finds m tb [(type ||| nlaFNested, content)]) :
    (∃ pos, tb type = some pos ∧ Holds m pos (encodeAttr (type ||| nlaFNested) content)) ∧
      ∀ other, other ≠ type → tb other = none := by
  have htype := (nlaType_nested plain).1
  constructor
  · have hfound := finds.found _ (List.mem_singleton_self _)
    rwa [htype] at hfound
  · intro other hne
    refine finds.absent other ?_
    rw [List.map_singleton, List.map_singleton, htype]
    exact fun hmem => hne (List.mem_singleton.mp hmem)

end ReKernelX.Client
