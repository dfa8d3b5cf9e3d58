import ReKernelX.Client.Attributes

/-!
# What the attribute loop visits

`nla_for_each_attr` visits attributes one after another, and `rkx_nla_parse`
keeps for each number the last one it met. Separating the two leaves one
statement for each: over mapped memory the walk ends and every attribute it
visits lies inside the region it was given, whatever the bytes are; and the
table of the parser is read off the list of visited attributes.
-/

set_option autoImplicit false

namespace ReKernelX.Client

open Bytes Netlink

/-- The attributes `nla_for_each_attr` visits, by where they start. -/
def nlaWalk (m : Memory) (nla : ℕ) (rem : ℤ) : Option (List ℕ) :=
  if _enough : (nlaHdrlen : ℤ) ≤ rem then
    match readWord m nla 2 with
    | none => none
    | some len =>
      if _ok : nlaHdrlen ≤ len ∧ (len : ℤ) ≤ rem then
        (nlaWalk m (nla + align4 len) (rem - align4 len)).map (nla :: ·)
      else some []
  else some []
termination_by rem.toNat
decreasing_by
  have hpos := le_align4 len
  simp only [nlaHdrlen] at _enough _ok
  omega

/-- The masked number of the attribute at an address. -/
def numberAt (m : Memory) (nla : ℕ) : Option ℕ := (readWord m (nla + 2) 2).map nlaType

/-- The body of the loop in `rkx_nla_parse`. -/
def remember (m : Memory) (maxtype : ℕ) (tb : AttrTable) (nla : ℕ) : Option AttrTable :=
  (numberAt m nla).map fun type =>
    if 0 < type ∧ type ≤ maxtype then Function.update tb type (some nla) else tb

variable {m : Memory}

/-- One round at an attribute that fits. -/
theorem nlaWalk_of_ok {nla len : ℕ} {rem : ℤ} (enough : (nlaHdrlen : ℤ) ≤ rem)
    (hlen : readWord m nla 2 = some len) (ok : nlaHdrlen ≤ len ∧ (len : ℤ) ≤ rem) :
    nlaWalk m nla rem = (nlaWalk m (nla + align4 len) (rem - align4 len)).map (nla :: ·) := by
  rw [nlaWalk, dif_pos enough, hlen]
  simp only [dif_pos ok]

/-- The parser is its body run over what the loop visits. -/
theorem nlaForEach_eq_foldlM (maxtype : ℕ) (tb : AttrTable) (nla : ℕ) (rem : ℤ) :
    nlaForEach m maxtype tb nla rem =
      (nlaWalk m nla rem).bind fun visited => visited.foldlM (remember m maxtype) tb := by
  fun_induction nlaForEach m maxtype tb nla rem with
  | case1 tb nla rem enough hlen =>
    rw [nlaWalk, dif_pos enough, hlen]
    rfl
  | case2 tb nla rem enough len hlen ok hraw =>
    -- the number cannot be read: whatever the walk does, the body fails here
    rw [nlaWalk_of_ok enough hlen ok]
    cases nlaWalk m (nla + align4 len) (rem - align4 len) with
    | none => rfl
    | some rest => simp [remember, numberAt, hraw]
  | case3 tb nla rem enough len hlen ok raw hraw ih =>
    simp only [dite_eq_ite] at ih
    rw [ih, nlaWalk_of_ok enough hlen ok]
    cases nlaWalk m (nla + align4 len) (rem - align4 len) with
    | none => rfl
    | some rest => simp [remember, numberAt, hraw]
  | case4 tb nla rem enough len hlen notOk =>
    rw [nlaWalk, dif_pos enough, hlen]
    simp only [dif_neg notOk]
    rfl
  | case5 tb nla rem notEnough =>
    rw [nlaWalk, dif_neg notEnough]
    rfl

/-- The last visited attribute of a number. -/
def lastOf (m : Memory) (visited : List ℕ) (type : ℕ) : Option ℕ :=
  (visited.filter fun nla => decide (numberAt m nla = some type)).getLast?

theorem lastOf_cons (nla type : ℕ) (rest : List ℕ) :
    lastOf m (nla :: rest) type =
      (lastOf m rest type).or (if numberAt m nla = some type then some nla else none) := by
  rw [lastOf, lastOf]
  by_cases h : numberAt m nla = some type
  · rw [List.filter_cons_of_pos (by simpa using h), if_pos h, List.getLast?_cons]
    cases (rest.filter fun nla => decide (numberAt m nla = some type)).getLast? <;> rfl
  · rw [List.filter_cons_of_neg (by simpa using h), if_neg h, Option.or_none]

/-- After the loop the table has, for each number in range, the last attribute
visited, and for the others what it had before. -/
theorem foldlM_remember {maxtype : ℕ} {visited : List ℕ} {tb tb' : AttrTable}
    (filled : visited.foldlM (remember m maxtype) tb = some tb') (type : ℕ) :
    tb' type = if 0 < type ∧ type ≤ maxtype then (lastOf m visited type).or (tb type)
      else tb type := by
  induction visited generalizing tb with
  | nil =>
    obtain rfl : tb = tb' := Option.some.inj filled
    exact (ite_self _).symm
  | cons nla rest ih =>
    rw [List.foldlM_cons, Option.bind_eq_bind, Option.bind_eq_some_iff] at filled
    obtain ⟨next, hnext, hrest⟩ := filled
    obtain ⟨number, hnumber, rfl⟩ := Option.map_eq_some_iff.mp hnext
    rw [ih hrest, lastOf_cons, hnumber]
    by_cases hrange : 0 < type ∧ type ≤ maxtype
    · rw [if_pos hrange, if_pos hrange, Option.or_assoc]
      congr 1
      by_cases hsame : number = type
      · rw [hsame, if_pos hrange, Function.update_self, if_pos rfl, Option.some_or]
      · have hother : ¬ some number = some type := fun h => hsame (Option.some.inj h)
        rw [if_neg hother, Option.none_or]
        split_ifs
        · exact Function.update_of_ne (Ne.symm hsame) _ _
        · rfl
    · rw [if_neg hrange, if_neg hrange]
      split_ifs with hnumberRange
      · have hother : type ≠ number := fun h => hrange (by rwa [h])
        exact Function.update_of_ne hother _ _
      · rfl

/-! ### Walks over encoded attributes -/

/-- The masked number and the payload of the attribute at an address. -/
def attrAt (m : Memory) (nla : ℕ) : Option Attr := do
  let type ← numberAt m nla
  let len ← nlaLen m nla
  let payload ← readBytes m (nla + nlaHdrlen) len
  return (type, payload)

/-- The last attribute of a number. -/
def lastAttr (attrs : List Attr) (type : ℕ) : Option Attr :=
  (attrs.filter fun a => decide (a.1 = type)).getLast?

theorem lastAttr_cons (a : Attr) (rest : List Attr) (type : ℕ) :
    lastAttr (a :: rest) type =
      (lastAttr rest type).or (if a.1 = type then some a else none) := by
  rw [lastAttr, lastAttr]
  by_cases h : a.1 = type
  · rw [List.filter_cons_of_pos (by simpa using h), if_pos h, List.getLast?_cons]
    cases (rest.filter fun a => decide (a.1 = type)).getLast? <;> rfl
  · rw [List.filter_cons_of_neg (by simpa using h), if_neg h, Option.or_none]

theorem numberAt_of_attrAt {nla : ℕ} {a : Attr} (read : attrAt m nla = some a) :
    numberAt m nla = some a.1 := by
  simp only [attrAt, Option.bind_eq_bind, Option.bind_eq_some_iff] at read
  obtain ⟨number, hnumber, len, -, payload, -, hpair⟩ := read
  obtain rfl : (number, payload) = a := Option.some.inj hpair
  exact hnumber

theorem mapM_cons_eq_some {α β : Type*} {f : α → Option β} {a : α} {as : List α} {bs : List β}
    (h : (a :: as).mapM f = some bs) :
    ∃ b bs', f a = some b ∧ as.mapM f = some bs' ∧ bs = b :: bs' := by
  simp only [List.mapM_cons, Option.bind_eq_bind, Option.bind_eq_some_iff] at h
  obtain ⟨b, hb, bs', hbs', hcons⟩ := h
  exact ⟨b, bs', hb, hbs', (Option.some.inj hcons).symm⟩

theorem length_of_mapM_eq_some {α β : Type*} {f : α → Option β} {as : List α} {bs : List β}
    (h : as.mapM f = some bs) : as.length = bs.length := by
  induction as generalizing bs with
  | nil =>
    obtain rfl : [] = bs := Option.some.inj h
    rfl
  | cons a rest ih =>
    obtain ⟨b, bs', -, hrest, rfl⟩ := mapM_cons_eq_some h
    rw [List.length_cons, List.length_cons, ih hrest]

/-- The last visited attribute of a number reads as the last attribute of it. -/
theorem map_attrAt_lastOf {visited : List ℕ} {attrs : List Attr}
    (read : visited.mapM (attrAt m) = some attrs) (type : ℕ) :
    (lastOf m visited type).map (attrAt m) = (lastAttr attrs type).map some := by
  induction visited generalizing attrs with
  | nil =>
    obtain rfl : [] = attrs := Option.some.inj read
    rfl
  | cons nla rest ih =>
    obtain ⟨a, attrs', ha, hrest, rfl⟩ := mapM_cons_eq_some read
    rw [lastOf_cons, lastAttr_cons, numberAt_of_attrAt ha]
    have ih' := ih hrest
    cases hlast : lastOf m rest type with
    | some p =>
      -- a later attribute of the number decides on both sides
      rw [hlast] at ih'
      cases hlast' : lastAttr attrs' type with
      | some a' => rwa [hlast'] at ih'
      | none => rw [hlast'] at ih'; cases ih'
    | none =>
      rw [hlast, Option.map_none] at ih'
      cases hlast' : lastAttr attrs' type with
      | some a' => rw [hlast'] at ih'; cases ih'
      | none =>
        by_cases htype : a.1 = type
        · simp [htype, ha]
        · simp [htype]

/-- Attributes that can be read can be remembered. -/
theorem exists_foldlM_of_mapM {visited : List ℕ} {attrs : List Attr}
    (read : visited.mapM (attrAt m) = some attrs) (maxtype : ℕ) (tb : AttrTable) :
    ∃ tb', visited.foldlM (remember m maxtype) tb = some tb' := by
  induction visited generalizing attrs tb with
  | nil => exact ⟨tb, rfl⟩
  | cons nla rest ih =>
    obtain ⟨a, rest', ha, hrest, rfl⟩ := mapM_cons_eq_some read
    rw [List.foldlM_cons, remember, numberAt_of_attrAt ha]
    exact ih hrest _

/-- Attributes whose number and length fit their fields. -/
def Plain (a : Attr) : Prop := a.1 < 2 ^ 14 ∧ nlaHdrlen + a.2.length < 2 ^ 16

theorem Plain.attrAt_eq {a : Attr} (plain : Plain a) {pos : ℕ}
    (h : Holds m pos (encodeAttr a.1 a.2)) : attrAt m pos = some a := by
  have htype : a.1 < 2 ^ 16 := plain.1.trans (by decide)
  obtain ⟨-, hraw, hpayload⟩ := read_of_holds_encodeAttr h plain.2 htype
  have hnumber : numberAt m pos = some a.1 := by
    rw [numberAt, hraw, Option.map_some, nlaType, Nat.mod_eq_of_lt plain.1]
  simp only [attrAt, hnumber, nlaLen_of_holds h plain.2 htype, readBytes_of_holds hpayload,
    Option.bind_eq_bind, Option.bind_some]
  rfl

/-- Walking encoded attributes visits each of them. -/
theorem nlaWalk_encodeAttrs {attrs : List Attr} (plain : ∀ a ∈ attrs, Plain a) {pos : ℕ}
    (h : Holds m pos (encodeAttrs attrs)) :
    ∃ visited, nlaWalk m pos (encodeAttrs attrs).length = some visited ∧
      visited.mapM (attrAt m) = some attrs := by
  induction attrs generalizing pos with
  | nil => exact ⟨[], by rw [nlaWalk, dif_neg (by decide)], rfl⟩
  | cons a rest ih =>
    rw [encodeAttrs_cons, holds_append] at h
    have ha := plain a List.mem_cons_self
    obtain ⟨visited, hwalk, hread⟩ := ih (fun b hb => plain b (List.mem_cons_of_mem a hb)) h.2
    have hpad := le_align4 (nlaHdrlen + a.2.length)
    have hlen := (read_of_holds_encodeAttr h.1 ha.2 (ha.1.trans (by decide))).1
    have hlength : (encodeAttrs (a :: rest)).length =
        align4 (nlaHdrlen + a.2.length) + (encodeAttrs rest).length := by
      rw [encodeAttrs_cons, List.length_append, length_encodeAttr]
    rw [length_encodeAttr] at hwalk
    refine ⟨pos :: visited, ?_, ?_⟩
    · rw [nlaWalk_of_ok (by omega) hlen (by omega), hlength, Nat.cast_add, add_sub_cancel_left,
        hwalk, Option.map_some]
    · rw [List.mapM_cons, ha.attrAt_eq h.1, hread]
      rfl

/-- A walk that visits every encoded attribute was given their whole length, but
for the padding of the last. -/
theorem length_encodeAttrs_lt_of_walk {attrs : List Attr} (plain : ∀ a ∈ attrs, Plain a)
    (nonempty : attrs ≠ []) {pos : ℕ} {rem : ℤ} {visited : List ℕ}
    (h : Holds m pos (encodeAttrs attrs)) (walk : nlaWalk m pos rem = some visited)
    (all : visited.length = attrs.length) : ((encodeAttrs attrs).length : ℤ) < rem + 4 := by
  induction attrs generalizing pos rem visited with
  | nil => exact absurd rfl nonempty
  | cons a rest ih =>
    rw [encodeAttrs_cons, holds_append, length_encodeAttr] at h
    have ha := plain a List.mem_cons_self
    have hlen := (read_of_holds_encodeAttr h.1 ha.2 (ha.1.trans (by decide))).1
    have hpad := align4_lt (nlaHdrlen + a.2.length)
    -- the list is not empty, so the first test succeeded
    have hok : (nlaHdrlen : ℤ) ≤ rem ∧ ((nlaHdrlen + a.2.length : ℕ) : ℤ) ≤ rem := by
      by_contra hstop
      have hnil : nlaWalk m pos rem = some [] := by
        rw [nlaWalk]
        split_ifs with henough
        · simp only [hlen]
          exact dif_neg fun hfits => hstop ⟨henough, hfits.2⟩
        · rfl
      obtain rfl : [] = visited := Option.some.inj (hnil.symm.trans walk)
      cases all
    rw [nlaWalk_of_ok hok.1 hlen ⟨Nat.le_add_right _ _, hok.2⟩, Option.map_eq_some_iff] at walk
    obtain ⟨later, hlater, rfl⟩ := walk
    rw [encodeAttrs_cons, List.length_append, length_encodeAttr]
    by_cases hrest : rest = []
    · subst hrest
      rw [encodeAttrs_nil, List.length_nil]
      omega
    · have hih := ih (fun b hb => plain b (List.mem_cons_of_mem a hb)) hrest h.2 hlater
        (by simpa using all)
      push_cast
      omega

/-! ### Walks over arbitrary bytes -/

/-- An attribute whose header and payload lie between two addresses. -/
def AttrInside (m : Memory) (lo hi nla : ℕ) : Prop :=
  lo ≤ nla ∧ ∃ len, readWord m nla 2 = some len ∧ nlaHdrlen ≤ len ∧ nla + len ≤ hi

/-- Over mapped memory the walk ends, and everything it visits is inside. -/
theorem exists_nlaWalk {lo hi : ℕ} (mapped : Mapped m lo hi) (nla : ℕ) (rem : ℤ)
    (start : lo ≤ nla) (fits : nla + rem ≤ hi) :
    ∃ visited, nlaWalk m nla rem = some visited ∧ ∀ p ∈ visited, AttrInside m lo hi p := by
  fun_induction nlaWalk m nla rem with
  | case1 nla rem enough hlen =>
    -- the header is inside, so its length can be read
    rw [nlaHdrlen] at enough
    obtain ⟨len, hread, -⟩ :=
      Mapped.exists_readWord (k := 2) (mapped.mono start (show nla + 2 ≤ hi by omega))
    cases hlen.symm.trans hread
  | case2 nla rem enough len hlen ok ih =>
    obtain ⟨rest, hrest, hinside⟩ := ih (by omega) (by push_cast; omega)
    refine ⟨nla :: rest, by rw [hrest, Option.map_some], fun p hp => ?_⟩
    rcases List.mem_cons.mp hp with rfl | hp
    · exact ⟨start, len, hlen, ok.1, by omega⟩
    · exact hinside p hp
  | case3 nla rem enough len hlen notOk => exact ⟨[], rfl, List.forall_mem_nil _⟩
  | case4 nla rem notEnough => exact ⟨[], rfl, List.forall_mem_nil _⟩

/-- The number of an attribute inside mapped memory can be read. -/
theorem AttrInside.exists_numberAt {lo hi nla : ℕ} (mapped : Mapped m lo hi)
    (inside : AttrInside m lo hi nla) : ∃ type, numberAt m nla = some type := by
  obtain ⟨hlo, len, -, hlen, hhi⟩ := inside
  rw [nlaHdrlen] at hlen
  obtain ⟨raw, hraw, -⟩ :=
    Mapped.exists_readWord (a := nla + 2) (k := 2) (mapped.mono (by omega) (by omega))
  exact ⟨nlaType raw, by rw [numberAt, hraw, Option.map_some]⟩

/-- What the parser makes of a region: a table that has for each number up to
`maxtype` the last visited attribute of that number, all of them inside. -/
def ParsedInside (m : Memory) (maxtype lo : ℕ) (rem : ℤ) (tb : AttrTable) : Prop :=
  ∃ visited, nlaWalk m lo rem = some visited ∧
    (∀ p ∈ visited, AttrInside m lo (lo + rem.toNat) p) ∧
    ∀ type, tb type = if 0 < type ∧ type ≤ maxtype then lastOf m visited type else none

theorem exists_foldlM_remember {lo hi : ℕ} (mapped : Mapped m lo hi) {visited : List ℕ}
    (inside : ∀ p ∈ visited, AttrInside m lo hi p) (maxtype : ℕ) (tb : AttrTable) :
    ∃ tb', visited.foldlM (remember m maxtype) tb = some tb' := by
  induction visited generalizing tb with
  | nil => exact ⟨tb, rfl⟩
  | cons nla rest ih =>
    obtain ⟨type, htype⟩ := (inside nla List.mem_cons_self).exists_numberAt mapped
    rw [List.foldlM_cons, remember, htype]
    exact ih (fun p hp => inside p (List.mem_cons_of_mem nla hp)) _

/-- Whatever bytes are mapped, the parser ends with such a table. -/
theorem exists_rkxNlaParse {lo : ℕ} {rem : ℤ} (mapped : Mapped m lo (lo + rem.toNat))
    (maxtype : ℕ) :
    ∃ tb, rkxNlaParse m maxtype lo rem = some tb ∧ ParsedInside m maxtype lo rem tb := by
  obtain ⟨visited, hwalk, hinside⟩ := exists_nlaWalk mapped lo rem le_rfl (by push_cast; omega)
  obtain ⟨tb, htb⟩ := exists_foldlM_remember mapped hinside maxtype fun _ => none
  refine ⟨tb, ?_, visited, hwalk, hinside, fun type => ?_⟩
  · rw [rkxNlaParse, nlaForEach_eq_foldlM, hwalk, Option.bind_some, htb]
  · rw [foldlM_remember htb, Option.or_none]

end ReKernelX.Client
