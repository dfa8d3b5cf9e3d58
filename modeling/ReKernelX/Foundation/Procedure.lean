import Mathlib.Logic.Relation

/-!
# Programs over calls

A program is a tree of calls, each answered by its surroundings, with a result
at every leaf. What a call may do to the state and answer is a relation, so a
call can fail; between two calls, the environment may take steps of its own.

`wp` is the weakest precondition of a program under such an environment, with a
condition that has to hold in every state along the way. It is preserved by
every step, which gives the rule for runs: whatever the answers and whatever
the environment does, the condition holds in every state reached and the
postcondition holds in every state in which the program has returned.

Sections of a mutex are programs of which at most one is running. If each
section, started in a state that satisfies the invariant, ends in one that does,
then the invariant holds whenever the mutex is free.
-/

set_option autoImplicit false

/-- A program whose calls are of type `ι`, the call `i` being answered by a `ρ i`. -/
inductive Proc (ι : Type) (ρ : ι → Type) (α : Type) : Type
  | ret (a : α)
  | call (i : ι) (k : ρ i → Proc ι ρ α)

namespace Proc

variable {ι : Type} {ρ : ι → Type} {α β : Type}

/-- Run a program, then another one on its result. -/
def bind : Proc ι ρ α → (α → Proc ι ρ β) → Proc ι ρ β
  | ret a, f => f a
  | call i k, f => call i fun r => (k r).bind f

instance : Monad (Proc ι ρ) where
  pure := ret
  bind := bind

/-- A single call. -/
def perform (i : ι) : Proc ι ρ (ρ i) := call i ret

/-! ### Steps -/

variable {σ : Type}

/-- What each call may do: `sem i s r s'` says that in `s` it can answer `r` and
leave `s'`. -/
abbrev Sem (ι : Type) (ρ : ι → Type) (σ : Type) := (i : ι) → σ → ρ i → σ → Prop

/-- A step of a program in its environment. -/
inductive Step (sem : Sem ι ρ σ) (env : σ → σ → Prop) :
    Proc ι ρ α × σ → Proc ι ρ α × σ → Prop
  | call {i : ι} {k : ρ i → Proc ι ρ α} {s s' : σ} {r : ρ i} (answered : sem i s r s') :
      Step sem env (.call i k, s) (k r, s')
  | env {p : Proc ι ρ α} {s s' : σ} (moved : env s s') : Step sem env (p, s) (p, s')

/-- Any number of steps. -/
abbrev Steps (sem : Sem ι ρ σ) (env : σ → σ → Prop) :
    Proc ι ρ α × σ → Proc ι ρ α × σ → Prop :=
  Relation.ReflTransGen (Step sem env)

/-- Run a program to its end, with the answers of an oracle. -/
def run (oracle : (i : ι) → σ → ρ i × σ) : Proc ι ρ α → σ → α × σ
  | ret a, s => (a, s)
  | call i k, s => (k (oracle i s).1).run oracle (oracle i s).2

/-- If every answer of the oracle is possible, so is its run. -/
theorem steps_run {sem : Sem ι ρ σ} {env : σ → σ → Prop} {oracle : (i : ι) → σ → ρ i × σ}
    (possible : ∀ i s, sem i s (oracle i s).1 (oracle i s).2) (p : Proc ι ρ α) (s : σ) :
    Steps sem env (p, s) (ret (p.run oracle s).1, (p.run oracle s).2) := by
  induction p generalizing s with
  | ret a => exact .refl
  | call i k ih => exact (ih _ _).head (.call (possible i s))

/-- It is enough that the answers are possible where the run comes along. -/
theorem steps_run_of {sem : Sem ι ρ σ} {env : σ → σ → Prop} {oracle : (i : ι) → σ → ρ i × σ}
    {J : σ → Prop} (possible : ∀ i s, J s → sem i s (oracle i s).1 (oracle i s).2)
    (keeps : ∀ i s, J s → J (oracle i s).2) (p : Proc ι ρ α) {s : σ} (start : J s) :
    Steps sem env (p, s) (ret (p.run oracle s).1, (p.run oracle s).2) := by
  induction p generalizing s with
  | ret a => exact .refl
  | call i k ih => exact (ih _ (keeps i s start)).head (.call (possible i s start))

/-- A run of the first program is the beginning of a run of both. -/
theorem steps_bind {sem : Sem ι ρ σ} {env : σ → σ → Prop} {p p' : Proc ι ρ α} {s s' : σ}
    (steps : Steps sem env (p, s) (p', s')) (f : α → Proc ι ρ β) :
    Steps sem env (p >>= f, s) (p' >>= f, s') := by
  refine Relation.ReflTransGen.lift (fun c : Proc ι ρ α × σ => (c.1 >>= f, c.2)) ?_ _ _ steps
  intro c c' step
  cases step with
  | call answered => exact .call answered
  | env moved => exact .env moved

/-! ### Weakest preconditions -/

section WP

variable (sem : Sem ι ρ σ) (env : σ → σ → Prop) (I : σ → Prop)

/-- In every state along the way `I` holds, and `Q` once the program has returned. -/
def wp : Proc ι ρ α → (α → σ → Prop) → σ → Prop
  | ret a, Q, s => ∀ s₁, Relation.ReflTransGen env s s₁ → I s₁ ∧ Q a s₁
  | call i k, Q, s => ∀ s₁, Relation.ReflTransGen env s s₁ →
      I s₁ ∧ ∀ r s', sem i s₁ r s' → (k r).wp Q s'

/-- The environment cannot falsify an assertion. -/
def Stable (P : σ → Prop) : Prop := ∀ s s', P s → env s s' → P s'

variable {sem env I}

theorem Stable.of_steps {P : σ → Prop} (stable : Stable env P) {s s' : σ} (h : P s)
    (steps : Relation.ReflTransGen env s s') : P s' := by
  induction steps with
  | refl => exact h
  | tail _ moved ih => exact stable _ _ ih moved

theorem wp_ret {P : σ → Prop} (stable : Stable env P) {a : α} {Q : α → σ → Prop}
    (post : ∀ s, P s → I s ∧ Q a s) {s : σ} (h : P s) : (ret a : Proc ι ρ α).wp sem env I Q s :=
  fun _ steps => post _ (stable.of_steps h steps)

/-- The rule for a call: an assertion that the environment cannot falsify holds
until the call is answered. -/
theorem wp_call {P : σ → Prop} (stable : Stable env P) {i : ι} {k : ρ i → Proc ι ρ α}
    {Q : α → σ → Prop} (inside : ∀ s, P s → I s)
    (next : ∀ s r s', P s → sem i s r s' → (k r).wp sem env I Q s') {s : σ} (h : P s) :
    (call i k).wp sem env I Q s := by
  intro s₁ steps
  have h₁ := stable.of_steps h steps
  exact ⟨inside s₁ h₁, fun r s' answered => next s₁ r s' h₁ answered⟩

theorem wp_mono {p : Proc ι ρ α} {Q Q' : α → σ → Prop} {s : σ} (h : p.wp sem env I Q s)
    (weaker : ∀ a s', Q a s' → Q' a s') : p.wp sem env I Q' s := by
  induction p generalizing s with
  | ret a => exact fun s₁ steps => ⟨(h s₁ steps).1, weaker a s₁ (h s₁ steps).2⟩
  | call i k ih =>
    exact fun s₁ steps => ⟨(h s₁ steps).1, fun r s' answered => ih r ((h s₁ steps).2 r s' answered)⟩

/-- The rule for one program after another. -/
theorem wp_bind {p : Proc ι ρ α} {f : α → Proc ι ρ β} {Q : α → σ → Prop} {R : β → σ → Prop}
    {s : σ} (first : p.wp sem env I Q s) (second : ∀ a s', Q a s' → (f a).wp sem env I R s') :
    (p >>= f).wp sem env I R s := by
  induction p generalizing s with
  | ret a => exact second a s (first s .refl).2
  | call i k ih =>
    exact fun s₁ steps => ⟨(first s₁ steps).1,
      fun r s' answered => ih r ((first s₁ steps).2 r s' answered)⟩

/-- Whatever happens next, the precondition is still there. -/
theorem wp_step {p p' : Proc ι ρ α} {s s' : σ} {Q : α → σ → Prop} (h : p.wp sem env I Q s)
    (step : Step sem env (p, s) (p', s')) : p'.wp sem env I Q s' := by
  cases step with
  | call answered => exact (h s .refl).2 _ _ answered
  | env moved =>
    cases p with
    | ret a => exact fun s₁ steps => h s₁ (steps.head moved)
    | call i k => exact fun s₁ steps => h s₁ (steps.head moved)

/-- The rule for runs. -/
theorem wp_steps {c c' : Proc ι ρ α × σ} {Q : α → σ → Prop} (h : c.1.wp sem env I Q c.2)
    (steps : Steps sem env c c') : c'.1.wp sem env I Q c'.2 := by
  induction steps with
  | refl => exact h
  | tail _ step ih => exact wp_step ih step

theorem wp_inside {p : Proc ι ρ α} {s : σ} {Q : α → σ → Prop} (h : p.wp sem env I Q s) : I s := by
  cases p with
  | ret a => exact (h s .refl).1
  | call i k => exact (h s .refl).1

theorem wp_returned {a : α} {s : σ} {Q : α → σ → Prop}
    (h : (ret a : Proc ι ρ α).wp sem env I Q s) : Q a s := (h s .refl).2

/-- Less may be asked of the states along the way. -/
theorem wp_weaken {J : σ → Prop} {p : Proc ι ρ α} {Q : α → σ → Prop} {s : σ}
    (h : p.wp sem env I Q s) (weaker : ∀ s', I s' → J s') : p.wp sem env J Q s := by
  induction p generalizing s with
  | ret a => exact fun s₁ steps => ⟨weaker s₁ (h s₁ steps).1, (h s₁ steps).2⟩
  | call i k ih =>
    exact fun s₁ steps => ⟨weaker s₁ (h s₁ steps).1,
      fun r s' answered => ih r ((h s₁ steps).2 r s' answered)⟩

end WP

/-! ### Larger states

A program verified over one state can be run over a larger one that projects to
it. What was proved remains, and a condition on the larger state is added to it
if the calls that the program makes and the environment keep the condition. -/

section Lift

/-- Every call of a program satisfies a condition. -/
def Uses (allowed : ι → Prop) : Proc ι ρ α → Prop
  | ret _ => True
  | call i k => allowed i ∧ ∀ r, (k r).Uses allowed

variable {allowed : ι → Prop}

theorem Uses.perform {i : ι} (h : allowed i) : (perform i : Proc ι ρ (ρ i)).Uses allowed :=
  ⟨h, fun _ => trivial⟩

theorem Uses.bind {p : Proc ι ρ α} {f : α → Proc ι ρ β} (first : p.Uses allowed)
    (second : ∀ a, (f a).Uses allowed) : (p >>= f).Uses allowed := by
  induction p with
  | ret a => exact second a
  | call i k ih => exact ⟨first.1, fun r => ih r (first.2 r)⟩

variable {τ : Type}

/-- The larger state behaves as the smaller one under the projection, and the allowed
calls and the environment keep `K`. -/
structure Lift (sem : Sem ι ρ σ) (env : σ → σ → Prop) (I : σ → Prop) (sem' : Sem ι ρ τ)
    (env' : τ → τ → Prop) (proj : τ → σ) (allowed : ι → Prop) (K : τ → Prop) : Prop where
  call : ∀ {i t r t'}, sem' i t r t' → sem i (proj t) r (proj t')
  move : ∀ {t t'}, K t → env' t t' → Relation.ReflTransGen env (proj t) (proj t')
  keeps_call : ∀ {i t r t'}, allowed i → I (proj t) → K t → sem' i t r t' → K t'
  keeps_move : ∀ {t t'}, I (proj t) → K t → env' t t' → K t'

variable {sem : Sem ι ρ σ} {env : σ → σ → Prop} {I : σ → Prop} {sem' : Sem ι ρ τ}
  {env' : τ → τ → Prop} {proj : τ → σ} {K : τ → Prop}

/-- Where the condition on the smaller state holds all along the environment's steps,
these are steps of the smaller state and keep `K`. -/
theorem Lift.moves (lift : Lift sem env I sem' env' proj allowed K) {t t' : τ} (hK : K t)
    (inside : ∀ s, Relation.ReflTransGen env (proj t) s → I s)
    (steps : Relation.ReflTransGen env' t t') :
    Relation.ReflTransGen env (proj t) (proj t') ∧ K t' := by
  induction steps with
  | refl => exact ⟨.refl, hK⟩
  | tail _ moved ih =>
    obtain ⟨below, hK₁⟩ := ih
    exact ⟨below.trans (lift.move hK₁ moved), lift.keeps_move (inside _ below) hK₁ moved⟩

/-- The rule for larger states. -/
theorem Lift.wp (lift : Lift sem env I sem' env' proj allowed K) {p : Proc ι ρ α}
    (uses : p.Uses allowed) {Q : α → σ → Prop} {t : τ} (h : p.wp sem env I Q (proj t)) (hK : K t) :
    p.wp sem' env' (fun t => I (proj t) ∧ K t) (fun a t => Q a (proj t) ∧ K t) t := by
  induction p generalizing t with
  | ret a =>
    intro t₁ steps
    obtain ⟨below, hK₁⟩ := lift.moves hK (fun s hs => (h s hs).1) steps
    exact ⟨⟨(h _ below).1, hK₁⟩, (h _ below).2, hK₁⟩
  | call i k ih =>
    intro t₁ steps
    obtain ⟨below, hK₁⟩ := lift.moves hK (fun s hs => (h s hs).1) steps
    refine ⟨⟨(h _ below).1, hK₁⟩, fun r t' answered => ?_⟩
    exact ih r (uses.2 r) ((h _ below).2 r _ (lift.call answered))
      (lift.keeps_call uses.1 (h _ below).1 hK₁ answered)

end Lift

/-! ### Sections of a mutex -/

section Lock

variable {T κ : Type}

/-- Who holds the mutex: the thread, which section it runs and in which state it
entered, and what is left to run. -/
structure Holder (T κ ι : Type) (ρ : ι → Type) (α σ : Type) where
  thread : T
  which : κ
  entry : σ
  rest : Proc ι ρ α

/-- Inside a section nothing else happens to what the mutex protects. -/
def noEnv (_ _ : σ) : Prop := False

theorem eq_of_noEnv_steps {s s' : σ} (steps : Relation.ReflTransGen noEnv s s') : s' = s := by
  induction steps with
  | refl => rfl
  | tail _ moved _ => exact moved.elim

/-- Inside a section a program is run step by step from the state it is in. -/
theorem wp_call_noEnv {sem : Sem ι ρ σ} {I : σ → Prop} {i : ι} {k : ρ i → Proc ι ρ α}
    {Q : α → σ → Prop} {s : σ} (inside : I s)
    (next : ∀ r s', sem i s r s' → (k r).wp sem noEnv I Q s') :
    (call i k).wp sem noEnv I Q s := by
  intro s₁ steps
  rw [eq_of_noEnv_steps steps]
  exact ⟨inside, next⟩

theorem wp_ret_noEnv {sem : Sem ι ρ σ} {I : σ → Prop} {a : α} {Q : α → σ → Prop} {s : σ}
    (inside : I s) (post : Q a s) : (ret a : Proc ι ρ α).wp sem noEnv I Q s := by
  intro s₁ steps
  rw [eq_of_noEnv_steps steps]
  exact ⟨inside, post⟩

/-- A thread enters a section while the mutex is free, the holder makes a call, or a
holder that is done leaves. -/
inductive LockStep (sem : Sem ι ρ σ) (body : κ → Proc ι ρ α) :
    Option (Holder T κ ι ρ α σ) × σ → Option (Holder T κ ι ρ α σ) × σ → Prop
  | enter (thread : T) (which : κ) (s : σ) :
      LockStep sem body (none, s) (some ⟨thread, which, s, body which⟩, s)
  | run {holder : Holder T κ ι ρ α σ} {s s' : σ} {rest : Proc ι ρ α}
      (step : Step sem noEnv (holder.rest, s) (rest, s')) :
      LockStep sem body (some holder, s) (some { holder with rest := rest }, s')
  | leave {holder : Holder T κ ι ρ α σ} {s : σ} {a : α} (done : holder.rest = ret a) :
      LockStep sem body (some holder, s) (none, s)

/-- Any number of steps of all threads. -/
abbrev LockSteps (sem : Sem ι ρ σ) (body : κ → Proc ι ρ α) :
    Option (Holder T κ ι ρ α σ) × σ → Option (Holder T κ ι ρ α σ) × σ → Prop :=
  Relation.ReflTransGen (LockStep sem body)

/-- The rule for sections: an invariant that every section restores, and a relation
between the state in which a section is entered and the one in which it returns. -/
theorem lock_invariant {sem : Sem ι ρ σ} {body : κ → Proc ι ρ α} {I Inv : σ → Prop}
    {Q : κ → σ → α → σ → Prop}
    (sections : ∀ which s, Inv s →
      (body which).wp sem noEnv I (fun a s' => Inv s' ∧ Q which s a s') s)
    {s₀ : σ} (start : Inv s₀) {c : Option (Holder T κ ι ρ α σ) × σ}
    (steps : LockSteps sem body (none, s₀) c) :
    (c.1 = none → Inv c.2) ∧
      ∀ holder, c.1 = some holder →
        holder.rest.wp sem noEnv I (fun a s' => Inv s' ∧ Q holder.which holder.entry a s') c.2 := by
  induction steps with
  | refl => exact ⟨fun _ => start, nofun⟩
  | tail _ step ih =>
    cases step with
    | enter thread which s =>
      refine ⟨nofun, fun holder h => ?_⟩
      obtain rfl := Option.some.inj h
      exact sections which s (ih.1 rfl)
    | @run running _ _ _ step =>
      refine ⟨nofun, fun holder h => ?_⟩
      have hrest := ih.2 running rfl
      obtain rfl := Option.some.inj h
      exact wp_step hrest step
    | leave done =>
      refine ⟨fun _ => ?_, nofun⟩
      have hrest := ih.2 _ rfl
      rw [done] at hrest
      exact (wp_returned hrest).1

end Lock

end Proc
