import Mathlib.Data.List.Basic
import Mathlib.Data.List.Induction
import Mathlib.Order.Bounds.Basic

/-!
# Runs of a transition system

A run of a labelled step relation, recorded as the list of labels taken with the
state each of them led to. The list names every state the run visited, so a
property of the whole history (a peak, an event that never happened) can be
stated next to the state reached.
-/

set_option autoImplicit false

namespace Transition

variable {σ α : Type*}

/-- `Run step init trace s` says that from `init` the labels of `trace` lead
through the states of `trace` to `s`. -/
inductive Run (step : σ → α → σ → Prop) (init : σ) : List (α × σ) → σ → Prop
  | nil : Run step init [] init
  | snoc {trace : List (α × σ)} {s s' : σ} {a : α} :
      Run step init trace s → step s a s' → Run step init (trace ++ [(a, s')]) s'

/-- The states a run visited, the one it started in included. -/
def visited (init : σ) (trace : List (α × σ)) : List σ := init :: trace.map Prod.snd

theorem visited_append_singleton (init : σ) (trace : List (α × σ)) (a : α) (s : σ) :
    visited init (trace ++ [(a, s)]) = visited init trace ++ [s] := by
  simp [visited]

variable {step : σ → α → σ → Prop} {init s : σ} {trace : List (α × σ)}

/-- What holds at the start and is preserved by every step holds at the end. -/
theorem Run.invariant {P : σ → Prop} (start : P init)
    (preserved : ∀ s a s', P s → step s a s' → P s') (run : Run step init trace s) : P s := by
  induction run with
  | nil => exact start
  | snoc _ hstep ih => exact preserved _ _ _ ih hstep

/-- A run of a narrower step relation. -/
theorem Run.mono {step' : σ → α → σ → Prop} (wider : ∀ s a s', step s a s' → step' s a s')
    (run : Run step init trace s) : Run step' init trace s := by
  induction run with
  | nil => exact .nil
  | snoc _ hstep ih => exact ih.snoc (wider _ _ _ hstep)

/-- A step followed by a run. -/
theorem Run.head {s' : σ} {a : α} {rest : List (α × σ)} {u : σ} (first : step s a s')
    (run : Run step s' rest u) : Run step s ((a, s') :: rest) u := by
  induction run with
  | nil => exact Run.snoc Run.nil first
  | snoc _ hstep ih => exact ih.snoc hstep

/-- Take labels for as long as there is a step: the trace, and the state reached. -/
def follow (next : σ → α → Option σ) : σ → List α → List (α × σ) × σ
  | s, [] => ([], s)
  | s, a :: rest =>
    match next s a with
    | none => ([], s)
    | some s' => ((a, s') :: (follow next s' rest).1, (follow next s' rest).2)

theorem run_follow (next : σ → α → Option σ) (s : σ) (labels : List α) :
    Run (fun s a s' => next s a = some s') s (follow next s labels).1
      (follow next s labels).2 := by
  induction labels generalizing s with
  | nil => exact .nil
  | cons a rest ih =>
    rw [follow]
    cases hstep : next s a with
    | none => exact .nil
    | some s' => exact (ih s').head hstep

/-- A quantity that every step replaces by the maximum of itself and what it
measures is the peak of that measure over the run. -/
theorem Run.isGreatest {P : σ → Prop} {peak measure : σ → ℕ} (start : P init)
    (preserved : ∀ s a s', P s → step s a s' → P s') (initial : peak init = measure init)
    (raised : ∀ s a s', P s → step s a s' → peak s' = max (peak s) (measure s'))
    (run : Run step init trace s) :
    IsGreatest (Set.image measure {s' | s' ∈ visited init trace}) (peak s) := by
  induction run with
  | nil =>
    rw [initial]
    refine ⟨⟨init, List.mem_cons_self, rfl⟩, ?_⟩
    rintro m ⟨s', hs', rfl⟩
    rw [List.mem_singleton.mp hs']
  | @snoc trace s s' a run hstep ih =>
    have hset : {u | u ∈ visited init (trace ++ [(a, s')])} =
        insert s' {u | u ∈ visited init trace} := by
      ext u
      rw [visited_append_singleton]
      simp [or_comm]
    rw [raised s a s' (run.invariant start preserved) hstep, hset, Set.image_insert_eq, max_comm]
    exact ih.insert (measure s')

/-- One label after another, in a history that grew by one label. -/
theorem pair_sublist_append_singleton {a b x : α} {labels : List α}
    (h : List.Sublist [a, b] (labels ++ [x])) :
    List.Sublist [a, b] labels ∨ x = b ∧ a ∈ labels := by
  obtain ⟨front, back, hsplit, hfront, hback⟩ := List.sublist_append_iff.mp h
  rcases List.sublist_singleton.mp hback with rfl | rfl
  · rw [List.append_nil] at hsplit
    exact Or.inl (hsplit ▸ hfront)
  · have hlast : [a] = front ∧ [b] = [x] :=
      List.append_inj' (show [a] ++ [b] = front ++ [x] from hsplit) rfl
    obtain ⟨rfl, hx⟩ := hlast
    exact Or.inr ⟨(List.singleton_inj.mp hx).symm, List.singleton_sublist.mp hfront⟩

/-! ### Histories

What a sequence of calls leaves of a property that some calls establish and others
revoke. -/

section History

variable {run : σ → α → σ} {P I : σ → Prop} {establishes : σ → α → Prop} {revokes : α → Prop}

theorem invariant_foldl (preserved : ∀ s a, I s → I (run s a)) {s : σ} (start : I s)
    (calls : List α) : I (calls.foldl run s) := by
  induction calls generalizing s with
  | nil => exact start
  | cons a rest ih => exact ih (preserved s a start)

/-- A property holds after a sequence of calls if and only if one of them established
it and none since has revoked it. -/
theorem holds_foldl_iff {s : σ} (start : I s) (preserved : ∀ s a, I s → I (run s a))
    (before : ¬ P s)
    (step : ∀ s a, I s → (P (run s a) ↔ establishes s a ∨ P s ∧ ¬ revokes a))
    (calls : List α) :
    P (calls.foldl run s) ↔ ∃ early a late, calls = early ++ a :: late ∧
      establishes (early.foldl run s) a ∧ ∀ b ∈ late, ¬ revokes b := by
  -- on the last call: it established the property, or it left what an earlier one did
  induction calls using List.reverseRecOn with
  | nil =>
    refine iff_of_false before ?_
    rintro ⟨early, a, late, hsplit, -⟩
    exact List.append_ne_nil_of_right_ne_nil early (List.cons_ne_nil a late) hsplit.symm
  | append_singleton calls a ih =>
    rw [List.foldl_append, List.foldl_cons, List.foldl_nil,
      step _ a (invariant_foldl preserved start calls), ih]
    constructor
    · rintro (hnow | ⟨⟨early, b, late, rfl, hb, hlate⟩, ha⟩)
      · exact ⟨calls, a, [], rfl, hnow, List.forall_mem_nil _⟩
      · refine ⟨early, b, late ++ [a], ?_, hb, ?_⟩
        · rw [List.append_assoc, List.cons_append]
        · exact List.forall_mem_append.mpr ⟨hlate, List.forall_mem_singleton.mpr ha⟩
    · rintro ⟨early, b, late, hsplit, hb, hlate⟩
      rcases List.eq_nil_or_concat late with rfl | ⟨late, c, rfl⟩
      · obtain ⟨rfl, hlast⟩ := List.append_inj' hsplit rfl
        obtain rfl := List.singleton_inj.mp hlast
        exact Or.inl hb
      · rw [List.concat_eq_append, ← List.cons_append, ← List.append_assoc] at hsplit
        obtain ⟨rfl, hlast⟩ := List.append_inj' hsplit rfl
        obtain rfl := List.singleton_inj.mp hlast
        rw [List.concat_eq_append, List.forall_mem_append, List.forall_mem_singleton] at hlate
        exact Or.inr ⟨⟨early, b, late, rfl, hb, hlate.1⟩, hlate.2⟩

end History

end Transition
