import Mathlib.Data.List.Basic
import ReKernelX.Foundation.Transition

/-!
# A queue that may lose

Values are sent into a queue and taken out at its other end. A value may be lost on the
way in, when there is no room for it, and the reader may discard one. The state keeps
what was sent and what was taken, so that the two can be compared at any time.

A system with such a queue inside is related to the queue by a simulation: every step
of the system is one of the queue, and steps of which it is known that they lose
nothing are steps of the queue that lose nothing.
-/

set_option autoImplicit false

namespace Channel

variable {α : Type*}

/-- What was sent, what is in the queue, and what was taken, each in this order. -/
structure State (α : Type*) where
  sent : List α
  waiting : List α
  taken : List α

namespace State

/-- Nothing was sent. -/
def empty : State α := ⟨[], [], []⟩

/-- What was taken and what waits was sent, in this order and as often. -/
def InOrder (s : State α) : Prop := (s.taken ++ s.waiting).Sublist s.sent

/-- And nothing else was sent. -/
def Complete (s : State α) : Prop := s.taken ++ s.waiting = s.sent

end State

/-- A step of the queue, and whether it kept everything. -/
inductive Step : State α → Bool → State α → Prop
  | idle (s : State α) : Step s true s
  | send (s : State α) (a : α) : Step s true ⟨s.sent ++ [a], s.waiting ++ [a], s.taken⟩
  | lose (s : State α) (a : α) : Step s false ⟨s.sent ++ [a], s.waiting, s.taken⟩
  | take {s : State α} {a : α} {rest : List α} (head : s.waiting = a :: rest) :
      Step s true ⟨s.sent, rest, s.taken ++ [a]⟩
  | discard {s : State α} {a : α} {rest : List α} (head : s.waiting = a :: rest) :
      Step s false ⟨s.sent, rest, s.taken⟩

variable {s s' : State α} {kept : Bool}

theorem Step.inOrder (step : Step s kept s') (h : s.InOrder) : s'.InOrder := by
  unfold State.InOrder at h ⊢
  cases step with
  | idle => exact h
  | send a =>
    rw [← List.append_assoc]
    exact h.append (List.Sublist.refl [a])
  | lose a => exact h.trans (List.sublist_append_left s.sent [a])
  | @take a rest head =>
    rwa [List.append_assoc, List.singleton_append, ← head]
  | @discard a rest head =>
    -- without the value that was at the head
    rw [head] at h
    exact ((List.sublist_cons_self a rest).append_left s.taken).trans h

theorem Step.complete (step : Step s true s') (h : s.Complete) : s'.Complete := by
  unfold State.Complete at h ⊢
  cases step with
  | idle => exact h
  | send a => rw [← List.append_assoc, h]
  | take head => rw [List.append_assoc, List.singleton_append, ← head, h]

/-! ### Systems with a queue inside -/

section Simulation

open Transition

variable {σ β : Type*} {step : σ → β → σ → Prop} {R : σ → State α → Prop} {faithful : β → Prop}
  {init t : σ} {trace : List (β × σ)}

/-- A system that simulates the queue keeps its order, and loses nothing in a run of
steps that lose nothing. -/
theorem exists_of_run (start : R init .empty)
    (sim : ∀ t b t' s, R t s → step t b t' →
      ∃ kept s', Step s kept s' ∧ R t' s' ∧ (faithful b → kept = true))
    (run : Run step init trace t) :
    ∃ s, R t s ∧ s.InOrder ∧ ((∀ entry ∈ trace, faithful entry.1) → s.Complete) := by
  induction run with
  | nil => exact ⟨.empty, start, List.Sublist.refl [], fun _ => rfl⟩
  | @snoc trace t t' b run hstep ih =>
    obtain ⟨s, hs, hinOrder, hcomplete⟩ := ih
    obtain ⟨kept, s', hstep', hs', hkept⟩ := sim t b t' s hs hstep
    refine ⟨s', hs', hstep'.inOrder hinOrder, fun hall => ?_⟩
    obtain ⟨hbefore, hlast⟩ := List.forall_mem_append.mp hall
    obtain rfl := hkept (hlast (b, t') List.mem_cons_self)
    exact hstep'.complete (hcomplete hbefore)

end Simulation

end Channel
