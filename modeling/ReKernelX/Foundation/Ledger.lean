import Mathlib.Data.Finset.Basic
import Mathlib.Data.List.Count
import Mathlib.Tactic.Tauto

/-!
# Ledgers of acquired and released things

A ledger records, newest entry first, what was acquired and what was released.
It is balanced when nothing is acquired twice without a release in between and
nothing is released that is not held. In a balanced ledger every acquisition is
released at most once, and exactly once if the thing is not held at the end.
-/

set_option autoImplicit false

namespace Ledger

variable {κ : Type*}

/-- An entry of a ledger. -/
inductive Entry (κ : Type*)
  | acquire (k : κ)
  | release (k : κ)
  deriving DecidableEq

/-- What is held after the entries of a ledger. -/
def held : List (Entry κ) → Set κ
  | [] => ∅
  | .acquire k :: log => insert k (held log)
  | .release k :: log => held log \ {k}

/-- Nothing is acquired while it is held, or released while it is not. -/
def Balanced : List (Entry κ) → Prop
  | [] => True
  | .acquire k :: log => k ∉ held log ∧ Balanced log
  | .release k :: log => k ∈ held log ∧ Balanced log

@[simp] theorem held_nil : held ([] : List (Entry κ)) = ∅ := rfl

theorem held_acquire (k : κ) (log : List (Entry κ)) :
    held (.acquire k :: log) = insert k (held log) := rfl

theorem held_release (k : κ) (log : List (Entry κ)) :
    held (.release k :: log) = held log \ {k} := rfl

theorem balanced_nil : Balanced ([] : List (Entry κ)) := trivial

variable {log : List (Entry κ)} {k : κ}

theorem Balanced.acquire (balanced : Balanced log) (free : k ∉ held log) :
    Balanced (.acquire k :: log) := ⟨free, balanced⟩

theorem Balanced.release (balanced : Balanced log) (held : k ∈ held log) :
    Balanced (.release k :: log) := ⟨held, balanced⟩

/-! ### Several entries at once -/

/-- Acquire one thing after the other. -/
def acquireAll (log : List (Entry κ)) (ks : List κ) : List (Entry κ) :=
  ks.foldl (fun log k => .acquire k :: log) log

/-- Release one thing after the other. -/
def releaseAll (log : List (Entry κ)) (ks : List κ) : List (Entry κ) :=
  ks.foldl (fun log k => .release k :: log) log

theorem mem_held_acquireAll {ks : List κ} :
    k ∈ held (acquireAll log ks) ↔ k ∈ ks ∨ k ∈ held log := by
  induction ks generalizing log with
  | nil => simp [acquireAll]
  | cons j ks ih =>
    change k ∈ held (acquireAll (.acquire j :: log) ks) ↔ _
    rw [ih, held_acquire, Set.mem_insert_iff, List.mem_cons]
    tauto

theorem mem_held_releaseAll {ks : List κ} :
    k ∈ held (releaseAll log ks) ↔ k ∉ ks ∧ k ∈ held log := by
  induction ks generalizing log with
  | nil => simp [releaseAll]
  | cons j ks ih =>
    change k ∈ held (releaseAll (.release j :: log) ks) ↔ _
    rw [ih, held_release, Set.mem_sdiff, Set.mem_singleton_iff, List.mem_cons]
    tauto

/-- Different things can be acquired in a row if they are all free. -/
theorem balanced_acquireAll {ks : List κ} (nodup : ks.Nodup) :
    Balanced (acquireAll log ks) ↔ (∀ k ∈ ks, k ∉ held log) ∧ Balanced log := by
  induction ks generalizing log with
  | nil => simp [acquireAll]
  | cons j ks ih =>
    obtain ⟨hj, hks⟩ := List.nodup_cons.mp nodup
    change Balanced (acquireAll (.acquire j :: log) ks) ↔ _
    rw [ih hks, List.forall_mem_cons]
    -- acquiring `j` does not change whether the others are free
    have others : (∀ k ∈ ks, k ∉ held (.acquire j :: log)) ↔ ∀ k ∈ ks, k ∉ held log := by
      refine forall₂_congr fun k hk => ?_
      have hne : k ≠ j := ne_of_mem_of_not_mem hk hj
      rw [held_acquire, Set.mem_insert_iff, or_iff_right hne]
    rw [others, Balanced]
    tauto

/-- Different things can be released in a row if they are all held. -/
theorem balanced_releaseAll {ks : List κ} (nodup : ks.Nodup) :
    Balanced (releaseAll log ks) ↔ (∀ k ∈ ks, k ∈ held log) ∧ Balanced log := by
  induction ks generalizing log with
  | nil => simp [releaseAll]
  | cons j ks ih =>
    obtain ⟨hj, hks⟩ := List.nodup_cons.mp nodup
    change Balanced (releaseAll (.release j :: log) ks) ↔ _
    rw [ih hks, List.forall_mem_cons]
    -- releasing `j` does not change whether the others are held
    have others : (∀ k ∈ ks, k ∈ held (.release j :: log)) ↔ ∀ k ∈ ks, k ∈ held log := by
      refine forall₂_congr fun k hk => ?_
      have hne : k ≠ j := ne_of_mem_of_not_mem hk hj
      rw [held_release, Set.mem_sdiff, Set.mem_singleton_iff, and_iff_left hne]
    rw [others, Balanced]
    tauto

/-! ### Counting -/

variable [DecidableEq κ]

open Classical in
/-- In a balanced ledger the acquisitions of a thing are its releases, and one more
while it is held. -/
theorem Balanced.count_acquire (balanced : Balanced log) (k : κ) :
    log.count (.acquire k) = log.count (.release k) + if k ∈ held log then 1 else 0 := by
  induction log with
  | nil => simp
  | cons entry log ih =>
    cases entry with
    | acquire j =>
      specialize ih balanced.2
      have hfree : j ∉ held log := balanced.1
      by_cases hj : k = j
      · subst hj
        rw [if_neg hfree] at ih
        simp [held_acquire, ih]
      · have hj' : j ≠ k := fun h => hj h.symm
        simp [held_acquire, ih, hj, hj']
    | release j =>
      specialize ih balanced.2
      have hheld : j ∈ held log := balanced.1
      by_cases hj : k = j
      · subst hj
        rw [if_pos hheld] at ih
        simp [held_release, ih]
      · have hj' : j ≠ k := fun h => hj h.symm
        simp [held_release, ih, hj, hj']

open Classical in
/-- What is not held was released as often as it was acquired. -/
theorem Balanced.count_eq_of_not_held (balanced : Balanced log) (free : k ∉ held log) :
    log.count (.acquire k) = log.count (.release k) := by
  rw [balanced.count_acquire, if_neg free, Nat.add_zero]

open Classical in
/-- Nothing is released more often than it was acquired. -/
theorem Balanced.count_release_le (balanced : Balanced log) (k : κ) :
    log.count (.release k) ≤ log.count (.acquire k) := by
  rw [balanced.count_acquire]
  exact Nat.le_add_right _ _

end Ledger
