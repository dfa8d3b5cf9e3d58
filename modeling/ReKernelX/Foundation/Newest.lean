import Mathlib.Data.List.Induction
import Mathlib.Data.List.Pairwise

/-!
# Queues that keep the newest of each class

A queue that, before appending an element, drops the first queued element the
new one replaces. When replacement is a partial equivalence, dropping the first
match is dropping every match: the queue never holds two elements of one class,
so after any sequence of sends it holds exactly those elements that no later
one replaces, in their original order.
-/

set_option autoImplicit false

namespace Newest

variable {α : Type*} (r : α → α → Prop) [DecidableRel r]

/-- The elements of a list that no later element replaces, in order. -/
def keepNewest : List α → List α
  | [] => []
  | a :: rest => if ∃ b ∈ rest, r a b then keepNewest rest else a :: keepNewest rest

/-- Drop the first queued element the new one replaces, then append it. -/
def push (queue : List α) (a : α) : List α := queue.eraseP (fun q => decide (r q a)) ++ [a]

variable {r}

theorem keepNewest_sublist (as : List α) : (keepNewest r as).Sublist as := by
  induction as with
  | nil => exact List.Sublist.refl _
  | cons a rest ih =>
    rw [keepNewest]
    split_ifs
    · exact ih.cons a
    · exact ih.cons_cons a

/-- No kept element is replaced by a later kept one. -/
theorem pairwise_keepNewest (as : List α) : (keepNewest r as).Pairwise fun a b => ¬ r a b := by
  induction as with
  | nil => exact List.Pairwise.nil
  | cons a rest ih =>
    rw [keepNewest]
    split_ifs with h
    · exact ih
    · refine List.Pairwise.cons (fun b hb hab => h ⟨b, ?_, hab⟩) ih
      exact (keepNewest_sublist rest).subset hb

/-- Appending an element drops what it replaces and keeps the rest. -/
theorem keepNewest_append_singleton (as : List α) (a : α) :
    keepNewest r (as ++ [a]) = (keepNewest r as).filter (fun q => !decide (r q a)) ++ [a] := by
  induction as with
  | nil => simp [keepNewest]
  | cons c rest ih =>
    have hsplit : (∃ b ∈ rest ++ [a], r c b) ↔ (∃ b ∈ rest, r c b) ∨ r c a := by
      simp [or_and_right, exists_or]
    rw [List.cons_append, keepNewest, keepNewest]
    by_cases hrest : ∃ b ∈ rest, r c b
    · rw [if_pos (hsplit.mpr (Or.inl hrest)), if_pos hrest, ih]
    · rw [if_neg hrest]
      by_cases ha : r c a
      · rw [if_pos (hsplit.mpr (Or.inr ha)), ih, List.filter_cons_of_neg (by simpa using ha)]
      · rw [if_neg (fun h => (hsplit.mp h).elim hrest ha), ih,
          List.filter_cons_of_pos (by simpa using ha), List.cons_append]

/-- When at most one element matches, erasing the first match erases all. -/
theorem eraseP_eq_filter {p : α → Bool} {as : List α}
    (unique : as.Pairwise fun a b => p a = true → ¬ p b = true) :
    as.eraseP p = as.filter fun a => !p a := by
  induction as with
  | nil => rfl
  | cons a rest ih =>
    rw [List.pairwise_cons] at unique
    by_cases ha : p a = true
    · rw [List.eraseP_cons_of_pos ha, List.filter_cons_of_neg (by simp [ha])]
      refine (List.filter_eq_self.mpr fun b hb => ?_).symm
      simpa using unique.1 b hb ha
    · rw [List.eraseP_cons_of_neg ha, List.filter_cons_of_pos (by simpa using ha), ih unique.2]

/-- The element a search found is the one the corresponding erasure drops. -/
theorem erase_eq_eraseP [DecidableEq α] {p : α → Bool} {as : List α} {a : α}
    (found : as.find? p = some a) : as.erase a = as.eraseP p := by
  induction as with
  | nil => cases found
  | cons b rest ih =>
    by_cases hb : p b = true
    · rw [List.find?_cons_of_pos hb] at found
      obtain rfl := Option.some.inj found
      rw [List.erase_cons_head, List.eraseP_cons_of_pos hb]
    · have hne : b ≠ a := by
        rintro rfl
        exact hb (List.find?_some found)
      rw [List.find?_cons_of_neg hb] at found
      rw [List.erase_cons_tail (by simpa using hne), List.eraseP_cons_of_neg hb, ih found]

/-- What has a replacement has one that is kept. -/
theorem exists_mem_keepNewest {as : List α} {a : α}
    (trans : ∀ b ∈ as, ∀ c ∈ as, r a b → r b c → r a c) (replaced : ∃ b ∈ as, r a b) :
    ∃ b ∈ keepNewest r as, r a b := by
  induction as with
  | nil =>
    obtain ⟨b, hb, -⟩ := replaced
    cases hb
  | cons c rest ih =>
    have ih' := ih fun b hb d hd =>
      trans b (List.mem_cons_of_mem c hb) d (List.mem_cons_of_mem c hd)
    rw [keepNewest]
    by_cases hrest : ∃ b ∈ rest, r a b
    · obtain ⟨b, hb, hab⟩ := ih' hrest
      split_ifs
      · exact ⟨b, hb, hab⟩
      · exact ⟨b, List.mem_cons_of_mem c hb, hab⟩
    · obtain ⟨b, hb, hab⟩ := replaced
      obtain rfl : b = c := (List.mem_cons.mp hb).resolve_right fun hb' => hrest ⟨b, hb', hab⟩
      rw [if_neg]
      · exact ⟨b, List.mem_cons_self, hab⟩
      · rintro ⟨d, hd, hbd⟩
        exact hrest ⟨d, hd, trans b hb d (List.mem_cons_of_mem b hd) hab hbd⟩

/-- Elements in front do not change what is kept of the rest. -/
theorem keepNewest_subset_append (front as : List α) :
    keepNewest r as ⊆ keepNewest r (front ++ as) := by
  induction front with
  | nil => exact List.Subset.refl _
  | cons a rest ih =>
    rw [List.cons_append, keepNewest]
    split_ifs
    · exact ih
    · exact List.subset_cons_of_subset a ih

/-- Every element is kept or replaced by a later one that is kept. -/
theorem kept_or_replaced (front back : List α) {a : α}
    (trans : ∀ b ∈ back, ∀ c ∈ back, r a b → r b c → r a c) :
    a ∈ keepNewest r (front ++ a :: back) ∨
      ∃ b ∈ back, b ∈ keepNewest r (front ++ a :: back) ∧ r a b := by
  have hsubset := keepNewest_subset_append (r := r) front (a :: back)
  rw [keepNewest] at hsubset
  by_cases hback : ∃ b ∈ back, r a b
  · rw [if_pos hback] at hsubset
    obtain ⟨b, hb, hab⟩ := exists_mem_keepNewest trans hback
    exact Or.inr ⟨b, (keepNewest_sublist back).subset hb, hsubset hb, hab⟩
  · rw [if_neg hback] at hsubset
    exact Or.inl (hsubset List.mem_cons_self)

/-- **Pushing one element after another keeps the newest of each class**, as
long as replacement is a partial equivalence on the elements pushed. -/
theorem foldl_push_eq_keepNewest {as : List α}
    (symm : ∀ a ∈ as, ∀ b ∈ as, r a b → r b a)
    (trans : ∀ a ∈ as, ∀ b ∈ as, ∀ c ∈ as, r a b → r b c → r a c) :
    as.foldl (push r) [] = keepNewest r as := by
  induction as using List.reverseRecOn with
  | nil => rfl
  | append_singleton as a ih =>
    have hmem : ∀ {b}, b ∈ as → b ∈ as ++ [a] := fun hb => List.mem_append_left _ hb
    have ha : a ∈ as ++ [a] := List.mem_append_right _ List.mem_cons_self
    -- two kept elements that `a` replaces would replace one another
    have hunique : (keepNewest r as).Pairwise
        fun b c => decide (r b a) = true → ¬ decide (r c a) = true := by
      refine (pairwise_keepNewest as).imp_of_mem fun {b c} hb hc hbc hba hca => hbc ?_
      have hb' := hmem ((keepNewest_sublist as).subset hb)
      have hc' := hmem ((keepNewest_sublist as).subset hc)
      exact trans b hb' a ha c hc' (of_decide_eq_true hba)
        (symm c hc' a ha (of_decide_eq_true hca))
    rw [List.foldl_append, List.foldl_cons, List.foldl_nil,
      ih (fun b hb c hc => symm b (hmem hb) c (hmem hc))
        (fun b hb c hc d hd => trans b (hmem hb) c (hmem hc) d (hmem hd)),
      push, eraseP_eq_filter hunique, keepNewest_append_singleton]

end Newest
