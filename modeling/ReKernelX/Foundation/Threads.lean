import Mathlib.Logic.Function.Basic
import ReKernelX.Foundation.Procedure

/-!
# Threads that run programs

Any number of threads start programs, run them call by call in every interleaving,
and finish; in between, the rest of the world takes steps of its own. Each thread
relies on something that the steps of all others respect. If every program,
started where the invariant holds, keeps the invariant while only what it relies
on is known of the others, then the invariant holds in every state of every run.
What a thread finds when it starts is what it left when it last finished.
-/

set_option autoImplicit false

namespace Proc

variable {T ι : Type} {ρ : ι → Type} {α σ : Type}

/-- A call that is right where `right` holds, and leads to `fault` elsewhere. -/
def Guarded (fault s' : σ) (right done : Prop) : Prop := (right ∧ done) ∨ (¬ right ∧ s' = fault)

theorem Guarded.done {fault s' : σ} {right done : Prop} (guarded : Guarded fault s' right done)
    (h : right) : done := by
  rcases guarded with ⟨-, hdone⟩ | ⟨hwrong, -⟩
  · exact hdone
  · exact absurd h hwrong

/-- Where it is right it has to be possible; elsewhere there is the fault. -/
theorem Guarded.exists {fault : σ} {right : Prop} {done : σ → Prop}
    (possible : right → ∃ s', done s') : ∃ s', Guarded fault s' right (done s') := by
  by_cases h : right
  · obtain ⟨s', hdone⟩ := possible h
    exact ⟨s', .inl ⟨h, hdone⟩⟩
  · exact ⟨fault, .inr ⟨h, rfl⟩⟩

/-- What the calls of each thread do, when a thread may start a program, what happens when
it finishes, and what else may happen. -/
structure System (T ι : Type) (ρ : ι → Type) (α σ : Type) where
  sem : T → Sem ι ρ σ
  start : T → Proc ι ρ α → σ → σ → Prop
  finish : T → σ → σ → Prop
  env : σ → σ → Prop

/-- What each thread still has to run, if it runs anything. -/
abbrev Pool (T ι : Type) (ρ : ι → Type) (α : Type) := T → Option (Proc ι ρ α)

variable [DecidableEq T]

/-- A step of one thread, or of the rest of the world. -/
inductive PoolStep (sys : System T ι ρ α σ) :
    Pool T ι ρ α × σ → Pool T ι ρ α × σ → Prop
  | call {pool : Pool T ι ρ α} {s s' : σ} {t : T} {i : ι} {k : ρ i → Proc ι ρ α} {r : ρ i}
      (here : pool t = some (.call i k)) (answered : sys.sem t i s r s') :
      PoolStep sys (pool, s) (Function.update pool t (some (k r)), s')
  | start {pool : Pool T ι ρ α} {s s' : σ} {t : T} {p : Proc ι ρ α} (idle : pool t = none)
      (started : sys.start t p s s') : PoolStep sys (pool, s) (Function.update pool t (some p), s')
  | finish {pool : Pool T ι ρ α} {s s' : σ} {t : T} {a : α} (done : pool t = some (ret a))
      (finished : sys.finish t s s') : PoolStep sys (pool, s) (Function.update pool t none, s')
  | env {pool : Pool T ι ρ α} {s s' : σ} (moved : sys.env s s') : PoolStep sys (pool, s) (pool, s')

/-- Any number of steps. -/
abbrev PoolSteps (sys : System T ι ρ α σ) : Pool T ι ρ α × σ → Pool T ι ρ α × σ → Prop :=
  Relation.ReflTransGen (PoolStep sys)

/-- What a thread sees of the others: steps that respect what it relies on and keep the
invariant. -/
def Interference (rely : σ → σ → Prop) (I : σ → Prop) (s s' : σ) : Prop := rely s s' ∧ I s'

/-- Every step respects what the other threads rely on, and every program keeps the
invariant under such interference. `rest` holds while a thread runs nothing, and `Q` where
it has returned. -/
structure RelyGuarantee (sys : System T ι ρ α σ) (I : σ → Prop) (rely : T → σ → σ → Prop)
    (rest Q : T → σ → Prop) : Prop where
  call : ∀ {t u i s r s'}, t ≠ u → I s → sys.sem t i s r s' → rely u s s'
  start : ∀ {t p s s'}, I s → rest t s → sys.start t p s s' →
    p.wp (sys.sem t) (Interference (rely t) I) I (fun _ => Q t) s' ∧ ∀ u, t ≠ u → rely u s s'
  finish : ∀ {t s s'}, I s → Q t s → sys.finish t s s' →
    I s' ∧ rest t s' ∧ ∀ u, t ≠ u → rely u s s'
  env : ∀ {s s'}, I s → sys.env s s' → I s' ∧ ∀ u, rely u s s'
  rested : ∀ {t s s'}, rest t s → rely t s s' → I s' → rest t s'

variable {sys : System T ι ρ α σ} {I : σ → Prop} {rely : T → σ → σ → Prop}
  {rest Q : T → σ → Prop}

/-- The invariant holds, every thread is where its program's proof left it, and one without
a program is at rest. -/
structure Verified (sys : System T ι ρ α σ) (I : σ → Prop) (rely : T → σ → σ → Prop)
    (rest Q : T → σ → Prop) (c : Pool T ι ρ α × σ) : Prop where
  inv : I c.2
  wp : ∀ t p, c.1 t = some p →
    p.wp (sys.sem t) (Interference (rely t) I) I (fun _ => Q t) c.2
  rest : ∀ t, c.1 t = none → rest t c.2

/-- A step of one thread leaves the proofs of the others in place. -/
theorem RelyGuarantee.update (rg : RelyGuarantee sys I rely rest Q) {pool : Pool T ι ρ α}
    {s s' : σ} (h : Verified sys I rely rest Q (pool, s)) (inv : I s') {t : T}
    (others : ∀ u, t ≠ u → rely u s s') {next : Option (Proc ι ρ α)}
    (self : ∀ p, next = some p → p.wp (sys.sem t) (Interference (rely t) I) I (fun _ => Q t) s')
    (idle : next = none → rest t s') :
    Verified sys I rely rest Q (Function.update pool t next, s') where
  inv := inv
  wp u p hp := by
    by_cases hu : u = t
    · subst hu
      exact self p ((Function.update_self u next pool).symm.trans hp)
    · change Function.update pool t next u = some p at hp
      rw [Function.update_of_ne hu] at hp
      exact wp_step (h.wp u p hp) (.env ⟨others u (Ne.symm hu), inv⟩)
  rest u hp := by
    by_cases hu : u = t
    · subst hu
      exact idle ((Function.update_self u next pool).symm.trans hp)
    · change Function.update pool t next u = none at hp
      rw [Function.update_of_ne hu] at hp
      exact rg.rested (h.rest u hp) (others u (Ne.symm hu)) inv

theorem RelyGuarantee.step (rg : RelyGuarantee sys I rely rest Q) {c c' : Pool T ι ρ α × σ}
    (h : Verified sys I rely rest Q c) (step : PoolStep sys c c') :
    Verified sys I rely rest Q c' := by
  cases step with
  | call here answered =>
    have hnext := wp_step (h.wp _ _ here) (.call answered)
    refine rg.update h (wp_inside hnext) (fun u hu => rg.call hu h.inv answered) ?_ nofun
    intro p hp
    obtain rfl := Option.some.inj hp
    exact hnext
  | start idle started =>
    obtain ⟨hprogram, hothers⟩ := rg.start h.inv (h.rest _ idle) started
    refine rg.update h (wp_inside hprogram) hothers ?_ nofun
    intro p hp
    obtain rfl := Option.some.inj hp
    exact hprogram
  | finish done finished =>
    have hreturned := wp_returned (h.wp _ _ done)
    obtain ⟨hinv, hrest, hothers⟩ := rg.finish h.inv hreturned finished
    exact rg.update h hinv hothers nofun fun _ => hrest
  | env moved =>
    obtain ⟨hinv, hall⟩ := rg.env h.inv moved
    exact ⟨hinv, fun u p hp => wp_step (h.wp u p hp) (.env ⟨hall u, hinv⟩),
      fun u hu => rg.rested (h.rest u hu) (hall u) hinv⟩

theorem RelyGuarantee.keeps (rg : RelyGuarantee sys I rely rest Q) {c c' : Pool T ι ρ α × σ}
    (h : Verified sys I rely rest Q c) (steps : PoolSteps sys c c') :
    Verified sys I rely rest Q c' := by
  induction steps with
  | refl => exact h
  | tail _ step ih => exact rg.step ih step

/-- The rule for runs of all threads. -/
theorem RelyGuarantee.steps (rg : RelyGuarantee sys I rely rest Q) {s₀ : σ} (start : I s₀)
    (idle : ∀ t, rest t s₀) {c : Pool T ι ρ α × σ}
    (steps : PoolSteps sys (fun _ => none, s₀) c) : Verified sys I rely rest Q c := by
  have hidle : Verified sys I rely rest Q (fun _ => none, s₀) :=
    ⟨start, nofun, fun t _ => idle t⟩
  exact rg.keeps hidle steps

end Proc
