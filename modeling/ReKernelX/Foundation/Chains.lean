import Mathlib.Algebra.BigOperators.Fin
import Mathlib.Data.Finmap
import Mathlib.Data.List.Nodup

/-!
# Chained hash tables as finite maps

A chained table is an array of buckets, each the list of its entries from the
head on. Entries carry a key, a placement function sends every key to a bucket,
and a walk over one bucket stops at the first entry it is looking for.

The table behaves as a finite map when every entry sits in the bucket of its
key and no bucket repeats a key (`WellKeyed`). Linking a new entry at a head,
storing into the first match and unlinking the first match all keep that
invariant, and each moves the map at exactly one key. The number of linked
entries is then the number of keys the map holds.
-/

set_option autoImplicit false

namespace Chains

variable {ε κ : Type*}

/-! ### Walks over one bucket -/

/-- Apply `f` to the first entry satisfying `p` and stop there; `none` when the
walk reaches the end of the chain. -/
def updateFirst (p : ε → Bool) (f : ε → ε) : List ε → Option (List ε)
  | [] => none
  | e :: rest =>
    if p e then some (f e :: rest) else (updateFirst p f rest).map (e :: ·)

/-- Unlink the first entry satisfying `p` and stop there; `none` when the walk
reaches the end of the chain. -/
def unlinkFirst (p : ε → Bool) : List ε → Option (List ε)
  | [] => none
  | e :: rest => if p e then some rest else (unlinkFirst p rest).map (e :: ·)

/-- Unlink every entry of a chain while walking it: the successor is saved
before the current entry is unlinked, so the walk always goes on from it. -/
def unlinkEach : List ε → List ε
  | [] => []
  | _ :: rest => unlinkEach rest

@[simp] theorem unlinkEach_eq_nil (chain : List ε) : unlinkEach chain = [] := by
  induction chain with
  | nil => rfl
  | cons _ _ ih => exact ih

/-! ### Walks over addresses

The same walks over a chain of addresses, the entries being in memory. -/

section Addresses

variable {ι : Type*} [DecidableEq ι] {mem : ι → ε} {p : ε → Bool} {chain : List ι}

/-- Changing the first entry that satisfies the test is a store to its address. -/
theorem updateFirst_map {f : ε → ε} (nodup : chain.Nodup) :
    updateFirst p f (chain.map mem) =
      (chain.find? fun n => p (mem n)).map fun n =>
        chain.map (Function.update mem n (f (mem n))) := by
  induction chain with
  | nil => rfl
  | cons a rest ih =>
    obtain ⟨ha, hrest⟩ := List.nodup_cons.mp nodup
    rw [List.map_cons, updateFirst]
    by_cases hp : p (mem a)
    · have hothers : rest.map (Function.update mem a (f (mem a))) = rest.map mem := by
        apply List.map_congr_left
        intro n hn
        exact Function.update_of_ne (ne_of_mem_of_not_mem hn ha) ..
      rw [if_pos hp, List.find?_cons_of_pos (p := fun n => p (mem n)) hp, Option.map_some,
        List.map_cons, hothers, Function.update_self]
    · rw [if_neg hp, List.find?_cons_of_neg (p := fun n => p (mem n)) hp, ih hrest]
      cases hfind : rest.find? fun n => p (mem n) with
      | none => rfl
      | some n =>
        have hne : a ≠ n := fun h => ha (h ▸ List.mem_of_find?_eq_some hfind)
        rw [Option.map_some, Option.map_some, Option.map_some, List.map_cons,
          Function.update_of_ne hne]

/-- Unlinking the first entry that satisfies the test is unlinking its address. -/
theorem unlinkFirst_map :
    unlinkFirst p (chain.map mem) =
      (chain.find? fun n => p (mem n)).map fun n => (chain.erase n).map mem := by
  induction chain with
  | nil => rfl
  | cons a rest ih =>
    rw [List.map_cons, unlinkFirst]
    by_cases hp : p (mem a)
    · rw [if_pos hp, List.find?_cons_of_pos (p := fun n => p (mem n)) hp, Option.map_some,
        List.erase_cons_head]
    · rw [if_neg hp, List.find?_cons_of_neg (p := fun n => p (mem n)) hp, ih]
      cases hfind : rest.find? fun n => p (mem n) with
      | none => rfl
      | some n =>
        have hne : a ≠ n := by
          rintro rfl
          exact hp (List.find?_some (p := fun n => p (mem n)) hfind)
        rw [Option.map_some, Option.map_some, Option.map_some,
          List.erase_cons_tail (by simpa using hne), List.map_cons]

end Addresses

section Walks

variable [DecidableEq κ] {key : ε → κ}

/-- A walk for `k` that only stops at entries keyed `k` finds nothing in a
chain without that key. -/
theorem find?_eq_none_of_notMem {k : κ} {chain : List ε} (absent : k ∉ chain.map key) :
    chain.find? (fun e => decide (key e = k)) = none := by
  rw [List.find?_eq_none]
  intro e he hk
  exact absent (List.mem_map.mpr ⟨e, he, by simpa using hk⟩)

theorem updateFirst_eq_none_iff {k : κ} {f : ε → ε} {chain : List ε} :
    updateFirst (fun e => decide (key e = k)) f chain = none ↔
      chain.find? (fun e => decide (key e = k)) = none := by
  induction chain with
  | nil => simp [updateFirst]
  | cons e rest ih =>
    by_cases he : key e = k
    · simp [updateFirst, he]
    · simp [updateFirst, he, ih]

theorem unlinkFirst_eq_none_iff {k : κ} {chain : List ε} :
    unlinkFirst (fun e => decide (key e = k)) chain = none ↔
      chain.find? (fun e => decide (key e = k)) = none := by
  induction chain with
  | nil => simp [unlinkFirst]
  | cons e rest ih =>
    by_cases he : key e = k
    · simp [unlinkFirst, he]
    · simp [unlinkFirst, he, ih]

/-- Storing into the first match changes no key, hence neither the length nor
the keys of a chain. -/
theorem map_key_of_updateFirst {k : κ} {f : ε → ε} (keeps : ∀ e, key (f e) = key e)
    {chain chain' : List ε}
    (stored : updateFirst (fun e => decide (key e = k)) f chain = some chain') :
    chain'.map key = chain.map key := by
  induction chain generalizing chain' with
  | nil => simp [updateFirst] at stored
  | cons e rest ih =>
    by_cases he : key e = k
    · simp only [updateFirst, he, decide_true, ↓reduceIte, Option.some.injEq] at stored
      rw [← stored, List.map_cons, List.map_cons, keeps]
    · simp only [updateFirst, he, decide_false, Bool.false_eq_true, ↓reduceIte,
        Option.map_eq_some_iff] at stored
      obtain ⟨rest', hrest, rfl⟩ := stored
      rw [List.map_cons, List.map_cons, ih hrest]

/-- Storing into the first match is seen by lookups of that key only. -/
theorem find?_of_updateFirst {k : κ} {f : ε → ε} (keeps : ∀ e, key (f e) = key e)
    {chain chain' : List ε}
    (stored : updateFirst (fun e => decide (key e = k)) f chain = some chain') (k' : κ) :
    chain'.find? (fun e => decide (key e = k')) =
      if k' = k then (chain.find? (fun e => decide (key e = k))).map f
      else chain.find? (fun e => decide (key e = k')) := by
  induction chain generalizing chain' with
  | nil => simp [updateFirst] at stored
  | cons e rest ih =>
    by_cases he : key e = k
    · simp only [updateFirst, he, decide_true, ↓reduceIte, Option.some.injEq] at stored
      subst stored
      by_cases hk : k' = k
      · simp [hk, keeps, he]
      · have hne : ¬ k = k' := fun h => hk h.symm
        simp [hk, keeps, he, hne]
    · simp only [updateFirst, he, decide_false, Bool.false_eq_true, ↓reduceIte,
        Option.map_eq_some_iff] at stored
      obtain ⟨rest', hrest, rfl⟩ := stored
      rw [List.find?_cons, ih hrest]
      by_cases hk : k' = k
      · simp [hk, he]
      · by_cases he' : key e = k' <;> simp [hk, he']

/-- Unlinking the first match removes one entry. -/
theorem length_of_unlinkFirst {p : ε → Bool} {chain chain' : List ε}
    (unlinked : unlinkFirst p chain = some chain') :
    chain'.length + 1 = chain.length := by
  induction chain generalizing chain' with
  | nil => simp [unlinkFirst] at unlinked
  | cons e rest ih =>
    simp only [unlinkFirst] at unlinked
    split at unlinked
    · obtain rfl := Option.some.inj unlinked
      rfl
    · obtain ⟨rest', hrest, rfl⟩ := Option.map_eq_some_iff.mp unlinked
      simp only [List.length_cons, ih hrest]

theorem sublist_of_unlinkFirst {p : ε → Bool} {chain chain' : List ε}
    (unlinked : unlinkFirst p chain = some chain') : chain'.Sublist chain := by
  induction chain generalizing chain' with
  | nil => simp [unlinkFirst] at unlinked
  | cons e rest ih =>
    simp only [unlinkFirst] at unlinked
    split at unlinked
    · obtain rfl := Option.some.inj unlinked
      exact List.sublist_cons_self _ _
    · obtain ⟨rest', hrest, rfl⟩ := Option.map_eq_some_iff.mp unlinked
      exact (ih hrest).cons_cons e

/-- In a chain without repeated keys, unlinking the first match of `k` makes
`k` absent and is seen by no other lookup. -/
theorem find?_of_unlinkFirst {k : κ} {chain chain' : List ε} (nodup : (chain.map key).Nodup)
    (unlinked : unlinkFirst (fun e => decide (key e = k)) chain = some chain') (k' : κ) :
    chain'.find? (fun e => decide (key e = k')) =
      if k' = k then none else chain.find? (fun e => decide (key e = k')) := by
  induction chain generalizing chain' with
  | nil => simp [unlinkFirst] at unlinked
  | cons e rest ih =>
    rw [List.map_cons, List.nodup_cons] at nodup
    by_cases he : key e = k
    · simp only [unlinkFirst, he, decide_true, ↓reduceIte, Option.some.injEq] at unlinked
      subst unlinked
      by_cases hk : k' = k
      · -- the unlinked entry was the only one with this key
        rw [if_pos hk]
        exact find?_eq_none_of_notMem (by rw [hk, ← he]; exact nodup.1)
      · have hne : ¬ k = k' := fun h => hk h.symm
        simp [hk, he, hne]
    · simp only [unlinkFirst, he, decide_false, Bool.false_eq_true, ↓reduceIte,
        Option.map_eq_some_iff] at unlinked
      obtain ⟨rest', hrest, rfl⟩ := unlinked
      rw [List.find?_cons, ih nodup.2 hrest]
      by_cases hk : k' = k
      · simp [hk, he]
      · by_cases he' : key e = k' <;> simp [hk, he']

end Walks

/-! ### Tables -/

/-- An array of `n` buckets. -/
abbrev Table (n : ℕ) (ε : Type*) := Fin n → List ε

namespace Table

variable {n : ℕ}

/-- The table with every bucket empty. -/
def empty : Table n ε := fun _ => []

/-- Link an entry at the head of a bucket. -/
def addHead (t : Table n ε) (b : Fin n) (e : ε) : Table n ε :=
  Function.update t b (e :: t b)

/-- Unlink every entry of every bucket, one bucket after the other. -/
def unlinkAll (t : Table n ε) : Table n ε :=
  (List.finRange n).foldl (fun t b => Function.update t b (unlinkEach (t b))) t

/-- The number of linked entries. -/
def size (t : Table n ε) : ℕ := ∑ b, (t b).length

@[simp] theorem size_empty : (empty : Table n ε).size = 0 := by
  simp [size, empty]

/-- Replacing one bucket moves the size by the difference of the two chains. -/
theorem size_update (t : Table n ε) (b : Fin n) (chain : List ε) :
    size (Function.update t b chain) + (t b).length = t.size + chain.length := by
  unfold size
  have hnew := Finset.add_sum_erase Finset.univ
    (fun c => (Function.update t b chain c).length) (Finset.mem_univ b)
  have hold := Finset.add_sum_erase Finset.univ (fun c => (t c).length) (Finset.mem_univ b)
  have hrest : ∑ c ∈ Finset.univ.erase b, (Function.update t b chain c).length =
      ∑ c ∈ Finset.univ.erase b, (t c).length := by
    refine Finset.sum_congr rfl fun c hc => ?_
    rw [Function.update_of_ne (Finset.ne_of_mem_erase hc)]
  simp only [Function.update_self] at hnew
  omega

/-- A bucket the walk has passed is empty, and the others are untouched. -/
theorem foldl_unlinkEach (buckets : List (Fin n)) (t : Table n ε) (b : Fin n) :
    buckets.foldl (fun t b => Function.update t b (unlinkEach (t b))) t b =
      if b ∈ buckets then [] else t b := by
  induction buckets generalizing t with
  | nil => simp
  | cons c rest ih =>
    rw [List.foldl_cons, ih]
    by_cases hrest : b ∈ rest
    · simp [hrest]
    · by_cases hc : b = c
      · subst hc; simp [hrest]
      · simp [hrest, hc]

/-- The unlinking walk leaves nothing behind. -/
theorem unlinkAll_eq_empty (t : Table n ε) : t.unlinkAll = empty := by
  funext b
  rw [unlinkAll, foldl_unlinkEach, if_pos (List.mem_finRange b)]
  rfl

end Table

/-! ### The finite map a table stands for -/

section Keyed

variable {n : ℕ}

/-- Every entry sits in the bucket of its key, and no bucket repeats a key. -/
structure WellKeyed (key : ε → κ) (place : κ → Fin n) (t : Table n ε) : Prop where
  placed : ∀ b, ∀ e ∈ t b, place (key e) = b
  nodup : ∀ b, ((t b).map key).Nodup

variable {key : ε → κ} {place : κ → Fin n} {t : Table n ε}

theorem wellKeyed_empty : WellKeyed key place (Table.empty : Table n ε) :=
  ⟨by simp [Table.empty], by simp [Table.empty]⟩

/-- A bucket may be replaced by any chain of entries that belong there and have
different keys. -/
theorem WellKeyed.update (keyed : WellKeyed key place t) {b : Fin n} {chain : List ε}
    (placed : ∀ e ∈ chain, place (key e) = b) (nodup : (chain.map key).Nodup) :
    WellKeyed key place (Function.update t b chain) := by
  constructor
  · rw [Function.forall_update_iff t fun c chain => ∀ e ∈ chain, place (key e) = c]
    exact ⟨placed, fun c _ => keyed.placed c⟩
  · rw [Function.forall_update_iff t fun _ chain => (chain.map key).Nodup]
    exact ⟨nodup, fun c _ => keyed.nodup c⟩

variable [DecidableEq κ]

/-- The entry a table holds under a key: the first one keyed so in the bucket
the key is placed in. -/
def held (key : ε → κ) (place : κ → Fin n) (t : Table n ε) (k : κ) : Option ε :=
  (t (place k)).find? fun e => decide (key e = k)

/-- Rewriting the bucket of `k` is seen by the keys placed there only. -/
theorem held_update (k k' : κ) (chain : List ε) :
    held key place (Function.update t (place k) chain) k' =
      if place k' = place k then chain.find? (fun e => decide (key e = k'))
      else held key place t k' := by
  unfold held
  by_cases h : place k' = place k
  · rw [h, Function.update_self, if_pos rfl]
  · rw [Function.update_of_ne h, if_neg h]

theorem key_of_held {k : κ} {e : ε} (found : held key place t k = some e) : key e = k := by
  simpa using List.find?_some found

theorem mem_of_held {k : κ} {e : ε} (found : held key place t k = some e) :
    e ∈ t (place k) :=
  List.mem_of_find?_eq_some found

/-- Every linked entry is the one its key finds. -/
theorem WellKeyed.held_of_mem (keyed : WellKeyed key place t) {b : Fin n} {e : ε}
    (linked : e ∈ t b) : held key place t (key e) = some e := by
  have hplace := keyed.placed b e linked
  have hnodup := keyed.nodup b
  unfold held
  rw [hplace]
  clear hplace
  generalize t b = chain at linked hnodup
  induction chain with
  | nil => simp at linked
  | cons c rest ih =>
    rw [List.map_cons, List.nodup_cons] at hnodup
    rcases List.mem_cons.mp linked with rfl | htail
    · simp
    · have hne : ¬ key c = key e := fun h =>
        hnodup.1 (h ▸ List.mem_map.mpr ⟨e, htail, rfl⟩)
      simp [hne, ih htail hnodup.2]

/-! #### Linking a new entry -/

theorem WellKeyed.addHead (keyed : WellKeyed key place t) {e : ε}
    (absent : held key place t (key e) = none) :
    WellKeyed key place (t.addHead (place (key e)) e) := by
  have hnew : key e ∉ (t (place (key e))).map key := by
    intro hmem
    obtain ⟨e', he', hkey⟩ := List.mem_map.mp hmem
    have := keyed.held_of_mem he'
    rw [hkey, absent] at this
    cases this
  refine keyed.update ?_ (List.nodup_cons.mpr ⟨hnew, keyed.nodup _⟩)
  intro e' he'
  rcases List.mem_cons.mp he' with rfl | htail
  · rfl
  · exact keyed.placed _ e' htail

theorem held_addHead (e : ε) (k : κ) :
    held key place (t.addHead (place (key e)) e) k =
      if k = key e then some e else held key place t k := by
  rw [Table.addHead, held_update]
  by_cases hk : k = key e
  · subst hk; simp
  · have hne : ¬ key e = k := fun h => hk h.symm
    by_cases hp : place k = place (key e)
    · simp [hk, hp, hne, held]
    · simp [hk, hp]

@[simp] theorem size_addHead (b : Fin n) (e : ε) : (t.addHead b e).size = t.size + 1 := by
  have := Table.size_update t b (e :: t b)
  simp only [List.length_cons] at this
  rw [Table.addHead]
  omega

/-! #### Storing into the first match -/

variable {k : κ} {chain : List ε}

theorem WellKeyed.updateFirst (keyed : WellKeyed key place t) {f : ε → ε}
    (keeps : ∀ e, key (f e) = key e)
    (stored : updateFirst (fun e => decide (key e = k)) f (t (place k)) = some chain) :
    WellKeyed key place (Function.update t (place k) chain) := by
  have hkeys := map_key_of_updateFirst keeps stored
  refine keyed.update ?_ (hkeys ▸ keyed.nodup (place k))
  -- the keys are the old ones, and those belong in this bucket
  intro e he
  have hmem : key e ∈ (t (place k)).map key := by
    rw [← hkeys]
    exact List.mem_map.mpr ⟨e, he, rfl⟩
  obtain ⟨e', he', hkey⟩ := List.mem_map.mp hmem
  rw [← hkey]
  exact keyed.placed _ e' he'

theorem held_updateFirst {f : ε → ε} (keeps : ∀ e, key (f e) = key e)
    (stored : updateFirst (fun e => decide (key e = k)) f (t (place k)) = some chain) (k' : κ) :
    held key place (Function.update t (place k) chain) k' =
      if k' = k then (held key place t k).map f else held key place t k' := by
  rw [held_update]
  by_cases hk : k' = k
  · subst hk
    rw [if_pos rfl, if_pos rfl, find?_of_updateFirst keeps stored, if_pos rfl]
    rfl
  · by_cases hp : place k' = place k
    · rw [if_pos hp, find?_of_updateFirst keeps stored, if_neg hk, if_neg hk, held, hp]
    · rw [if_neg hp, if_neg hk]

theorem size_updateFirst {f : ε → ε} (keeps : ∀ e, key (f e) = key e)
    (stored : updateFirst (fun e => decide (key e = k)) f (t (place k)) = some chain) :
    Table.size (Function.update t (place k) chain) = t.size := by
  have hlength : chain.length = (t (place k)).length := by
    simpa using congrArg List.length (map_key_of_updateFirst keeps stored)
  have := Table.size_update t (place k) chain
  omega

/-! #### Unlinking the first match -/

theorem WellKeyed.unlinkFirst (keyed : WellKeyed key place t)
    (unlinked : unlinkFirst (fun e => decide (key e = k)) (t (place k)) = some chain) :
    WellKeyed key place (Function.update t (place k) chain) := by
  have hsub := sublist_of_unlinkFirst unlinked
  exact keyed.update (fun e he => keyed.placed _ e (hsub.subset he))
    ((hsub.map key).nodup (keyed.nodup _))

theorem WellKeyed.held_unlinkFirst (keyed : WellKeyed key place t)
    (unlinked : Chains.unlinkFirst (fun e => decide (key e = k)) (t (place k)) = some chain)
    (k' : κ) :
    held key place (Function.update t (place k) chain) k' =
      if k' = k then none else held key place t k' := by
  have hfind := find?_of_unlinkFirst (keyed.nodup (place k)) unlinked k'
  rw [held_update]
  by_cases hk : k' = k
  · subst hk
    rw [if_pos rfl, if_pos rfl, hfind, if_pos rfl]
  · by_cases hp : place k' = place k
    · rw [if_pos hp, hfind, if_neg hk, if_neg hk, held, hp]
    · rw [if_neg hp, if_neg hk]

theorem size_unlinkFirst {p : ε → Bool} {b : Fin n}
    (unlinked : unlinkFirst p (t b) = some chain) :
    Table.size (Function.update t b chain) + 1 = t.size := by
  have hlength := length_of_unlinkFirst unlinked
  have := Table.size_update t b chain
  omega

/-! #### The whole contents -/

/-- All linked entries, bucket by bucket. -/
def Table.entries (t : Table n ε) : List ε := (List.finRange n).flatMap t

theorem Table.length_entries (t : Table n ε) : t.entries.length = t.size := by
  rw [Table.entries, List.length_flatMap, Table.size, Fin.sum_univ_def]

/-- A key is somewhere in the table if and only if a walk for it finds an entry. -/
theorem WellKeyed.mem_keys_iff (keyed : WellKeyed key place t) (k : κ) :
    k ∈ t.entries.map key ↔ (held key place t k).isSome := by
  rw [List.mem_map]
  constructor
  · rintro ⟨e, he, rfl⟩
    obtain ⟨b, -, hb⟩ := List.mem_flatMap.mp he
    rw [keyed.held_of_mem hb]
    rfl
  · intro hsome
    obtain ⟨e, he⟩ := Option.isSome_iff_exists.mp hsome
    exact ⟨e, List.mem_flatMap.mpr ⟨place k, List.mem_finRange _, mem_of_held he⟩, key_of_held he⟩

omit [DecidableEq κ] in
/-- No key is in the table twice, in one bucket or in two. -/
theorem WellKeyed.nodup_keys (keyed : WellKeyed key place t) : (t.entries.map key).Nodup := by
  rw [Table.entries, List.map_flatMap, List.nodup_flatMap]
  refine ⟨fun b _ => keyed.nodup b, (List.nodup_finRange n).imp ?_⟩
  -- a shared key would be placed in both buckets
  intro b c hbc
  rw [Function.onFun, List.disjoint_left]
  intro k hb hc
  obtain ⟨e, he, hek⟩ := List.mem_map.mp hb
  obtain ⟨e', he', hek'⟩ := List.mem_map.mp hc
  have hbk := keyed.placed b e he
  have hck := keyed.placed c e' he'
  rw [hek] at hbk
  rw [hek'] at hck
  exact hbc (hbk.symm.trans hck)

variable {ν : Type*} {val : ε → ν}

/-- The finite map a table stands for. -/
def toFinmap (key : ε → κ) (val : ε → ν) (t : Table n ε) : Finmap fun _ : κ => ν :=
  (t.entries.map fun e => (⟨key e, val e⟩ : Σ _ : κ, ν)).toFinmap

theorem dlookup_map (entries : List ε) (k : κ) :
    (entries.map fun e => (⟨key e, val e⟩ : Σ _ : κ, ν)).dlookup k =
      (entries.find? fun e => decide (key e = k)).map val := by
  induction entries with
  | nil => rfl
  | cons e rest ih =>
    by_cases he : key e = k
    · subst he
      simp
    · rw [List.map_cons, List.dlookup_cons_ne _ _ (fun h => he h.symm), ih]
      simp [he]

/-- Looking a key up in the contents is walking the bucket of the key. -/
theorem WellKeyed.lookup_toFinmap (keyed : WellKeyed key place t) (k : κ) :
    (toFinmap key val t).lookup k = (held key place t k).map val := by
  rw [toFinmap, Finmap.dlookup_list_toFinmap, dlookup_map]
  congr 1
  cases hfound : t.entries.find? (fun e => decide (key e = k)) with
  | none =>
    rw [List.find?_eq_none] at hfound
    refine (List.find?_eq_none.mpr fun e he => ?_).symm
    exact hfound e (List.mem_flatMap.mpr ⟨place k, List.mem_finRange _, he⟩)
  | some e =>
    have hkey : key e = k := by simpa using List.find?_some hfound
    obtain ⟨b, -, hb⟩ := List.mem_flatMap.mp (List.mem_of_find?_eq_some hfound)
    rw [← hkey, keyed.held_of_mem hb]

theorem WellKeyed.mem_toFinmap (keyed : WellKeyed key place t) (k : κ) :
    k ∈ toFinmap key val t ↔ (held key place t k).isSome := by
  rw [← Finmap.lookup_isSome, keyed.lookup_toFinmap, Option.isSome_map]

/-- A well-keyed table has as many entries as its contents have keys. -/
theorem WellKeyed.card_keys_toFinmap (keyed : WellKeyed key place t) :
    (toFinmap key val t).keys.card = t.size := by
  have hkeys : (toFinmap key val t).keys = (t.entries.map key).toFinset := by
    ext k
    rw [Finmap.mem_keys, keyed.mem_toFinmap, List.mem_toFinset, keyed.mem_keys_iff]
  rw [hkeys, List.toFinset_card_of_nodup keyed.nodup_keys, List.length_map,
    Table.length_entries]

/-- The contents are empty exactly when nothing is linked. -/
theorem WellKeyed.toFinmap_eq_empty_iff (keyed : WellKeyed key place t) :
    toFinmap key val t = ∅ ↔ t.size = 0 := by
  have hcard : (toFinmap key val t).keys.card = t.size := keyed.card_keys_toFinmap
  rw [← hcard]
  constructor
  · intro h
    rw [h]
    rfl
  · intro h
    refine Finmap.ext_lookup fun k => ?_
    rw [Finmap.lookup_empty, Finmap.lookup_eq_none, ← Finmap.mem_keys,
      Finset.card_eq_zero.mp h]
    exact Finset.notMem_empty k

end Keyed

end Chains
