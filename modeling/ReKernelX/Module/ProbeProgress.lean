import ReKernelX.Module.ProbeRefinement

/-!
# Probes and works come to an end

Locks are waited for. A probe waits for the lock of its node and, with that, for the
inner lock; a work, or the driver on its behalf, waits for the inner lock alone. Since
nobody waits for a node lock while it has the inner lock, whoever has the inner lock
can go on until it gives it back, then whoever has a node lock, and then everybody:
from every state that is reached, all programs that have been started can be run to
their ends.
-/

set_option autoImplicit false

namespace ReKernelX

open Proc KpWorld

variable {T : Type} {tsk : ℕ} {env : KpEnv} {direct : Bool} {s s' s'' : KpWorld T} {t u : T}

/-! ### When a call is answered -/

/-- Nobody else has the inner lock. -/
def KpWorld.Clear (s : KpWorld T) (t : T) : Prop := ∀ u, u ≠ t → s.innerLock ≠ some u

theorem KpWorld.Clear.inner_eq_none (clear : s.Clear t) (free : s.innerLock ≠ some t) :
    s.innerLock = none := by
  cases hlock : s.innerLock with
  | none => rfl
  | some u =>
    by_cases hu : u = t
    · rw [hu] at hlock
      exact absurd hlock free
    · exact absurd hlock (clear u hu)

/-- The locks of the other threads are as they were. -/
structure Spared (t : T) (s s' : KpWorld T) : Prop where
  inner : ∀ u, u ≠ t → (s'.innerLock = some u ↔ s.innerLock = some u)
  node : ∀ u, u ≠ t → ∀ n, (s'.nodeLock n = some u ↔ s.nodeLock n = some u)

theorem Spared.refl (t : T) (s : KpWorld T) : Spared t s s :=
  ⟨fun _ _ => Iff.rfl, fun _ _ _ => Iff.rfl⟩

theorem Spared.trans (first : Spared t s s') (second : Spared t s' s'') : Spared t s s'' where
  inner u hu := (second.inner u hu).trans (first.inner u hu)
  node u hu n := (second.node u hu n).trans (first.node u hu n)

theorem Spared.clear (spared : Spared t s s') (clear : s.Clear t) : s'.Clear t :=
  fun u hu hlock => clear u hu ((spared.inner u hu).mp hlock)

theorem Spared.holds (spared : Spared t s s') (ne : u ≠ t) : s'.Holds u ↔ s.Holds u :=
  or_congr (spared.inner u ne) (exists_congr fun n => spared.node u ne n)

theorem kpEnvStep_busy (moved : KpEnvStep s s') :
    s'.probing = s.probing ∧ s'.working = s.working := by
  cases moved <;> exact ⟨rfl, rfl⟩

variable [DecidableEq T]

/-- Only locks are waited for. -/
theorem exists_answer (env : KpEnv) (i : KpCall) (clear : s.Clear t)
    (node : ∀ n, s.Holds t ∨ s.nodeLock n = none) : ∃ r s', kpSem env t i s r s' := by
  cases i with
  | isFrozen | hasEntries | lookupRcu _ _ => exact ⟨_, _, rfl, rfl⟩
  | kzalloc => exact ⟨true, s, rfl⟩
  | nodeLock n =>
    refine ⟨(), Guarded.exists fun hright => ⟨_, ?_, rfl⟩⟩
    exact (node n).resolve_left hright.1
  | innerLock =>
    exact ⟨(), Guarded.exists fun hright => ⟨_, clear.inner_eq_none hright.1, rfl⟩⟩
  | driverDecTmpref w =>
    exact ⟨(), Guarded.exists fun hright => ⟨_, clear.inner_eq_none hright.2.1, rfl⟩⟩
  | hasAsyncTransaction n | deadOrFrozen | asyncTodo n =>
    exact ⟨_, Guarded.exists fun _ => ⟨_, rfl, rfl⟩⟩
  | decTmpRef w => exact ⟨_, Guarded.exists fun _ => ⟨_, rfl, rfl⟩⟩
  | nodeUnlock n | innerUnlock | unlink n q | queueWork w | reclaim w e | freeProc =>
    exact ⟨(), Guarded.exists fun _ => ⟨_, rfl⟩⟩

/-! ### Which threads run something -/

/-- The threads that are in a probe or in a work are those with a program, each once. -/
structure Roster (c : Pool T KpCall KpCall.Answer Unit × KpWorld T) : Prop where
  probing : c.2.probing.Nodup
  working : c.2.working.Nodup
  active : ∀ t, c.2.Busy t ↔ c.1 t ≠ none

theorem kpSem_busy {i : KpCall} {r : i.Answer} (answered : kpSem env t i s r s') :
    s'.probing = s.probing ∧ s'.working = s.working := by
  cases i with
  | isFrozen | hasEntries | lookupRcu _ _ =>
    obtain ⟨-, rfl⟩ := answered
    exact ⟨rfl, rfl⟩
  | kzalloc =>
    obtain rfl := answered
    exact ⟨rfl, rfl⟩
  | nodeLock _ | innerLock | hasAsyncTransaction _ | deadOrFrozen | asyncTodo _
  | driverDecTmpref _ | decTmpRef _ =>
    rcases answered with ⟨-, -, rfl⟩ | ⟨-, rfl⟩
    · exact ⟨rfl, rfl⟩
    · exact ⟨rfl, rfl⟩
  | nodeUnlock _ | innerUnlock | unlink _ _ | queueWork _ | reclaim _ _ | freeProc =>
    rcases answered with ⟨-, rfl⟩ | ⟨-, rfl⟩
    · exact ⟨rfl, rfl⟩
    · exact ⟨rfl, rfl⟩

/-- Replacing what one thread runs. -/
theorem active_update {pool : Pool T KpCall KpCall.Answer Unit} {next : Option (KpProc Unit)}
    (u : T) : Function.update pool t next u ≠ none ↔
      (u = t ∧ next ≠ none) ∨ (u ≠ t ∧ pool u ≠ none) := by
  by_cases hu : u = t
  · rw [hu, Function.update_self]
    simp
  · rw [Function.update_of_ne hu]
    simp [hu]

theorem Roster.step {c c' : Pool T KpCall KpCall.Answer Unit × KpWorld T} (roster : Roster c)
    (step : PoolStep (kpSystem T env direct) c c') : Roster c' := by
  cases step with
  | @call pool s s' t i k r here answered =>
    obtain ⟨hprobing, hworking⟩ := kpSem_busy answered
    refine ⟨hprobing ▸ roster.probing, hworking ▸ roster.working, fun u => ?_⟩
    rw [active_update, KpWorld.Busy, hprobing, hworking]
    change s.Busy u ↔ _
    rw [roster.active u]
    change pool u ≠ none ↔ _
    by_cases hu : u = t
    · simp [hu, here]
    · simp [hu]
  | @start pool s s' t p idle started =>
    have hidle : ∀ {s₁ : KpWorld T}, KpStart env direct t p s s₁ →
        t ∉ s.probing ∧ t ∉ s.working := by
      intro s₁ hstart
      cases hstart with
      | probe _ idle _ _ => exact idle
      | work _ idle _ => exact idle
    have hfree := hidle started
    have hactive : ∀ u, (u = t ∨ s.Busy u) ↔ Function.update pool t (some p) u ≠ none := by
      intro u
      rw [active_update, roster.active u]
      by_cases hu : u = t
      · simp [hu]
      · simp [hu]
    cases started with
    | probe incoming _ registered sending =>
      refine ⟨List.nodup_cons.mpr ⟨hfree.1, roster.probing⟩, roster.working, fun u => ?_⟩
      rw [← hactive u]
      simp [KpWorld.Busy, or_assoc]
    | work w _ queued =>
      refine ⟨roster.probing, List.nodup_cons.mpr ⟨hfree.2, roster.working⟩, fun u => ?_⟩
      rw [← hactive u]
      simp [KpWorld.Busy, or_left_comm]
  | @finish pool s s' t a done finished =>
    obtain rfl := finished
    refine ⟨roster.probing.erase t, roster.working.erase t, fun u => ?_⟩
    rw [active_update]
    change u ∈ s.probing.erase t ∨ u ∈ s.working.erase t ↔ _
    rw [roster.probing.mem_erase_iff, roster.working.mem_erase_iff, ← and_or_left]
    change u ≠ t ∧ s.Busy u ↔ _
    rw [roster.active u]
    simp
  | env moved =>
    obtain ⟨hprobing, hworking⟩ := kpEnvStep_busy moved
    refine ⟨hprobing ▸ roster.probing, hworking ▸ roster.working, fun u => ?_⟩
    rw [KpWorld.Busy, hprobing, hworking]
    exact roster.active u

theorem Roster.keeps {c c' : Pool T KpCall KpCall.Answer Unit × KpWorld T} (roster : Roster c)
    (steps : PoolSteps (kpSystem T env direct) c c') : Roster c' := by
  induction steps with
  | refl => exact roster
  | tail _ step ih => exact ih.step step

/-! ### One thread at a time -/

/-- What every thread keeps to in a verified state. -/
abbrev KpVerified (env : KpEnv) (direct : Bool) (tsk : ℕ) :
    Pool T KpCall KpCall.Answer Unit × KpWorld T → Prop :=
  Verified (kpSystem T env direct) (KpInv tsk) Rely (fun _ _ => True)
    fun t s => ∃ probe, At tsk t ⟨probe, none, false, [], false⟩ s

theorem not_holds_of_returned {pool : Pool T KpCall KpCall.Answer Unit} {a : Unit}
    (h : KpVerified env direct tsk (pool, s)) (returned : pool t = some (ret a)) :
    ¬ s.Holds t := by
  obtain ⟨probe, hat⟩ := wp_returned (h.wp t _ returned)
  intro holds
  rcases holds with hinner | ⟨n, hnode⟩
  · simp [hat.inner] at hinner
  · simp [hat.node] at hnode

/-- A thread can be run until something is reached, or else to its end, if until then no
other thread has a lock that it waits for. -/
theorem exists_run_until (stop J : KpWorld T → Prop)
    (kept : ∀ s s', Spared t s s' → J s → J s') (clear : ∀ s, J s → s.Clear t)
    (node : ∀ s, J s → ¬ stop s → ∀ n, s.Holds t ∨ s.nodeLock n = none)
    {p : KpProc Unit} {pool : Pool T KpCall KpCall.Answer Unit}
    (h : KpVerified env direct tsk (pool, s)) (here : pool t = some p) (hJ : J s) :
    ∃ p' s', PoolSteps (kpSystem T env direct) (pool, s) (Function.update pool t (some p'), s') ∧
      Spared t s s' ∧ (stop s' ∨ ∃ a, p' = ret a) := by
  induction p generalizing pool s with
  | ret a =>
    refine ⟨ret a, s, ?_, Spared.refl t s, .inr ⟨a, rfl⟩⟩
    rw [← here, Function.update_eq_self]
  | call i k ih =>
    by_cases hstop : stop s
    · refine ⟨.call i k, s, ?_, Spared.refl t s, .inl hstop⟩
      rw [← here, Function.update_eq_self]
    · obtain ⟨r, s₁, answered⟩ := exists_answer env i (clear s hJ) (node s hJ hstop)
      have step : PoolStep (kpSystem T env direct) (pool, s)
        (Function.update pool t (some (k r)), s₁) := .call here answered
      have hspared : Spared t s s₁ := by
        have hrely : ∀ u, u ≠ t → Rely u s s₁ :=
          fun u hu => kpSem_rely (Ne.symm hu) h.inv answered
        exact ⟨fun u hu => (hrely u hu).inner, fun u hu n => (hrely u hu).node n⟩
      obtain ⟨p', s', steps, hspared', hend⟩ := ih r
        ((kp_relyGuarantee env direct tsk).step h step) (Function.update_self ..)
        (kept s s₁ hspared hJ)
      rw [Function.update_idem] at steps
      exact ⟨p', s', steps.head step, hspared.trans hspared', hend⟩

/-- A thread gives back all its locks if nobody else has the inner lock. -/
theorem exists_released {pool : Pool T KpCall KpCall.Answer Unit} {p : KpProc Unit}
    (h : KpVerified env direct tsk (pool, s)) (here : pool t = some p) (clear : s.Clear t) :
    ∃ pool' s', PoolSteps (kpSystem T env direct) (pool, s) (pool', s') ∧
      Spared t s s' ∧ ¬ s'.Holds t := by
  obtain ⟨p', s', steps, hspared, hend⟩ := exists_run_until (fun s => ¬ s.Holds t)
    (fun s => s.Clear t) (fun _ _ spared => spared.clear) (fun _ h' => h')
    (fun _ _ hholds _ => .inl (not_not.mp hholds)) h here clear
  refine ⟨_, s', steps, hspared, ?_⟩
  rcases hend with hreleased | ⟨a, rfl⟩
  · exact hreleased
  · exact not_holds_of_returned ((kp_relyGuarantee env direct tsk).keeps h steps)
      (Function.update_self ..)

/-- A thread runs to its end if nobody else has a lock. -/
theorem exists_returned {pool : Pool T KpCall KpCall.Answer Unit} {p : KpProc Unit}
    (h : KpVerified env direct tsk (pool, s)) (here : pool t = some p)
    (alone : ∀ u, u ≠ t → ¬ s.Holds u) :
    ∃ a s', PoolSteps (kpSystem T env direct) (pool, s)
        (Function.update pool t (some (ret a)), s') ∧ Spared t s s' := by
  have hnode : ∀ s : KpWorld T, (∀ u, u ≠ t → ¬ s.Holds u) → ∀ n,
      s.Holds t ∨ s.nodeLock n = none := by
    intro s alone n
    cases hlock : s.nodeLock n with
    | none => exact .inr rfl
    | some u =>
      have hu : u = t := not_not.mp fun hne => alone u hne (.inr ⟨n, hlock⟩)
      exact .inl (.inr ⟨n, hu ▸ hlock⟩)
  obtain ⟨p', s', steps, hspared, hend⟩ := exists_run_until (fun _ => False)
    (fun s => ∀ u, u ≠ t → ¬ s.Holds u)
    (fun _ _ spared alone u hu hholds => alone u hu ((spared.holds hu).mp hholds))
    (fun _ alone u hu hlock => alone u hu (.inl hlock))
    (fun s alone _ => hnode s alone) h here alone
  obtain ⟨a, rfl⟩ := hend.resolve_left not_false
  exact ⟨a, s', steps, hspared⟩

/-! ### All of them -/

/-- With the inner lock free, the threads with a node lock can be run one after the other
until they have none. -/
theorem exists_all_released (ts : List T) {pool : Pool T KpCall KpCall.Answer Unit}
    (h : KpVerified env direct tsk (pool, s)) (roster : Roster (pool, s))
    (inner : s.innerLock = none) (holders : ∀ u, s.Holds u → u ∈ ts) :
    ∃ pool' s', PoolSteps (kpSystem T env direct) (pool, s) (pool', s') ∧ ∀ u, ¬ s'.Holds u := by
  induction ts generalizing pool s with
  | nil => exact ⟨pool, s, .refl, fun u hu => List.not_mem_nil (holders u hu)⟩
  | cons t ts ih =>
    by_cases hholds : s.Holds t
    · have hbusy : s.Busy t := by
        rcases hholds with hlock | ⟨n, hlock⟩
        · exact h.inv.inner t hlock
        · exact h.inv.node n t hlock
      obtain ⟨p, here⟩ := Option.ne_none_iff_exists'.mp ((roster.active t).mp hbusy)
      have hclear : s.Clear t := fun u _ => by simp [inner]
      obtain ⟨pool₁, s₁, steps, hspared, hreleased⟩ := exists_released h here hclear
      -- its locks are back, and the others have what they had
      have hinner : s₁.innerLock = none :=
        (hspared.clear hclear).inner_eq_none fun hlock => hreleased (.inl hlock)
      have hholders : ∀ u, s₁.Holds u → u ∈ ts := by
        intro u hu
        have hne : u ≠ t := fun heq => hreleased (heq ▸ hu)
        exact (List.mem_cons.mp (holders u ((hspared.holds hne).mp hu))).resolve_left hne
      obtain ⟨pool₂, s₂, rest, hnone⟩ := ih ((kp_relyGuarantee env direct tsk).keeps h steps)
        (roster.keeps steps) hinner hholders
      exact ⟨pool₂, s₂, steps.trans rest, hnone⟩
    · refine ih h roster inner fun u hu => ?_
      exact (List.mem_cons.mp (holders u hu)).resolve_left fun heq => hholds (heq ▸ hu)

/-- With all locks free, the threads can be run to their ends one after the other. -/
theorem exists_all_finished (ts : List T) {pool : Pool T KpCall KpCall.Answer Unit}
    (h : KpVerified env direct tsk (pool, s)) (unlocked : ∀ u, ¬ s.Holds u)
    (active : ∀ u, pool u ≠ none → u ∈ ts) :
    ∃ s', PoolSteps (kpSystem T env direct) (pool, s) (fun _ => none, s') := by
  induction ts generalizing pool s with
  | nil =>
    have hnone : pool = fun _ => none := by
      funext u
      by_contra hu
      exact List.not_mem_nil (active u hu)
    exact ⟨s, hnone ▸ .refl⟩
  | cons t ts ih =>
    cases here : pool t with
    | none =>
      refine ih h unlocked fun u hu => ?_
      exact (List.mem_cons.mp (active u hu)).resolve_left fun heq => hu (heq ▸ here)
    | some p =>
      obtain ⟨a, s₁, steps, hspared⟩ := exists_returned h here fun u _ => unlocked u
      have hreturned := (kp_relyGuarantee env direct tsk).keeps h steps
      have finish : PoolStep (kpSystem T env direct)
          (Function.update pool t (some (ret a)), s₁)
          (Function.update (Function.update pool t (some (ret a))) t none,
            { s₁ with probing := s₁.probing.erase t, working := s₁.working.erase t }) :=
        .finish (Function.update_self ..) rfl
      have hunlocked : ∀ u, ¬ s₁.Holds u := by
        intro u hu
        by_cases heq : u = t
        · exact not_holds_of_returned hreturned (Function.update_self ..) (heq ▸ hu)
        · exact unlocked u ((hspared.holds heq).mp hu)
      obtain ⟨s', rest⟩ := ih ((kp_relyGuarantee env direct tsk).step hreturned finish) hunlocked
        (by
          intro u hu
          rw [Function.update_idem, active_update] at hu
          obtain ⟨hne, hu⟩ := hu.resolve_left fun hself => hself.2 rfl
          exact (List.mem_cons.mp (active u hu)).resolve_left hne)
      exact ⟨s', (steps.tail finish).trans rest⟩

/-- From every state that an interleaving of probes, works and the driver reaches, the programs
that have been started can be run to their ends, with every lock given back: waiting for locks
never ends in a deadlock. -/
theorem probe_threads_can_finish (env : KpEnv) (direct : Bool) (tsk : ℕ) (tasks : ℕ → TaskStruct)
    (rules : RkxFreeAsync) {pool : Pool T KpCall KpCall.Answer Unit} {s : KpWorld T}
    (steps : PoolSteps (kpSystem T env direct)
      (fun _ => none, KpWorld.init tsk tasks rules) (pool, s)) :
    ∃ s', PoolSteps (kpSystem T env direct) (pool, s) (fun _ => none, s') ∧
      s'.innerLock = none ∧ ∀ n, s'.nodeLock n = none := by
  have rg := kp_relyGuarantee (T := T) env direct tsk
  have hverified : KpVerified env direct tsk (pool, s) :=
    rg.steps (kpInv_init tsk tasks rules) (fun _ => trivial) steps
  have hroster₀ : Roster (T := T) (fun _ => none, KpWorld.init tsk tasks rules) :=
    ⟨.nil, .nil, by simp [KpWorld.Busy, KpWorld.init]⟩
  have hroster := hroster₀.keeps steps
  -- whoever has the inner lock goes first
  obtain ⟨pool₁, s₁, steps₁, hinner⟩ : ∃ pool₁ s₁,
      PoolSteps (kpSystem T env direct) (pool, s) (pool₁, s₁) ∧ s₁.innerLock = none := by
    cases hlock : s.innerLock with
    | none => exact ⟨pool, s, .refl, hlock⟩
    | some t =>
      have hbusy := hverified.inv.inner t hlock
      obtain ⟨p, here⟩ := Option.ne_none_iff_exists'.mp ((hroster.active t).mp hbusy)
      have hclear : s.Clear t := fun u hu => by simp [hlock, Ne.symm hu]
      obtain ⟨pool₁, s₁, steps₁, hspared, hreleased⟩ := exists_released hverified here hclear
      exact ⟨pool₁, s₁, steps₁,
        (hspared.clear hclear).inner_eq_none fun hlock => hreleased (.inl hlock)⟩
  have hverified₁ := rg.keeps hverified steps₁
  have hroster₁ := hroster.keeps steps₁
  have hholders : ∀ u, s₁.Holds u → u ∈ s₁.probing ++ s₁.working := by
    intro u hu
    rw [List.mem_append]
    rcases hu with hlock | ⟨n, hlock⟩
    · exact hverified₁.inv.inner u hlock
    · exact hverified₁.inv.node n u hlock
  obtain ⟨pool₂, s₂, steps₂, hunlocked⟩ :=
    exists_all_released _ hverified₁ hroster₁ hinner hholders
  have hverified₂ := rg.keeps hverified₁ steps₂
  have hroster₂ := hroster₁.keeps steps₂
  obtain ⟨s₃, steps₃⟩ := exists_all_finished (s₂.probing ++ s₂.working) hverified₂ hunlocked
    fun u hu => List.mem_append.mpr ((hroster₂.active u).mpr hu)
  have hend := rg.keeps hverified₂ steps₃
  have hidle : ∀ u, ¬ s₃.Busy u := fun u hu => ((hroster₂.keeps steps₃).active u).mp hu rfl
  refine ⟨s₃, (steps₁.trans steps₂).trans steps₃, ?_, fun n => ?_⟩
  · exact Option.eq_none_iff_forall_ne_some.mpr fun u hlock => hidle u (hend.inv.inner u hlock)
  · exact Option.eq_none_iff_forall_ne_some.mpr fun u hlock => hidle u (hend.inv.node n u hlock)

/-- Both probes come to their ends, the one that waits for the lock as well. -/
theorem probe_threads_can_finish_contended : ∃ pool k s',
    pool true = some (.call (KpCall.nodeLock 0) k) ∧ contended.nodeLock 0 = some false ∧
      PoolSteps frozenSystem (pool, contended) (fun _ => none, s') ∧
      s'.innerLock = none ∧ ∀ n, s'.nodeLock n = none := by
  obtain ⟨pool, k, steps, hwaits⟩ := exists_steps_contended
  obtain ⟨s', hend⟩ := probe_threads_can_finish frozenEnv true 0 _ _ steps
  exact ⟨pool, k, s', hwaits, rfl, hend⟩

end ReKernelX
