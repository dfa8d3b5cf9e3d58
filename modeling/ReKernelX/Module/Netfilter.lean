import Mathlib.Data.List.Nodup
import ReKernelX.Foundation.Ledger

/-!
# Registering the packet hooks

Packet hooks belong to a network namespace. `rkx_register_netfilter` registers
them in every namespace there is, one after the other, and stops at the first
that refuses. They are removed by one function, which goes through the
namespaces alive by then: after a registration that stopped, at once, and
otherwise when the module is unloaded. Namespaces come and go between the two
walks, and nothing records in which of them the hooks are.

So hooks are removed exactly where they were registered only if no namespace is
alive at the second walk that the first did not reach and succeed in. That none
has the hooks afterwards holds in any case.
-/

set_option autoImplicit false

namespace ReKernelX.Netfilter

open Ledger

/-! ### Namespaces -/

/-- `init_net`, which exists as long as the kernel runs. -/
def initNet : ℕ := 0

/-- The namespaces in the order of `for_each_net`. They are numbered as they are
created, so that no number is used twice. -/
structure Namespaces where
  live : List ℕ
  next : ℕ
  nodup : live.Nodup
  fresh : ∀ n ∈ live, n < next
  init : initNet ∈ live

/-- What happens to namespaces. -/
inductive NetEvent
  | create
  | destroy (n : ℕ)

namespace Namespaces

/-- Booted with `extra` namespaces beside `init_net`. -/
def boot (extra : ℕ) : Namespaces where
  live := List.range (extra + 1)
  next := extra + 1
  nodup := List.nodup_range
  fresh _ hn := List.mem_range.mp hn
  init := List.mem_range.mpr (Nat.succ_pos extra)

def create (nets : Namespaces) : Namespaces where
  live := nets.live ++ [nets.next]
  next := nets.next + 1
  nodup := by
    refine List.Nodup.append nets.nodup (List.nodup_singleton _) ?_
    intro n hn hnext
    rw [List.mem_singleton] at hnext
    exact absurd (nets.fresh n hn) (by omega)
  fresh n hn := by
    rcases List.mem_append.mp hn with hold | hnew
    · exact Nat.lt_succ_of_lt (nets.fresh n hold)
    · rw [List.mem_singleton.mp hnew]
      exact Nat.lt_succ_self _
  init := List.mem_append_left _ nets.init

def destroy (nets : Namespaces) (n : ℕ) (hn : n ≠ initNet) : Namespaces where
  live := nets.live.erase n
  next := nets.next
  nodup := nets.nodup.erase n
  fresh m hm := nets.fresh m (List.mem_of_mem_erase hm)
  init := (List.mem_erase_of_ne hn.symm).mpr nets.init

/-- `init_net` cannot be destroyed. -/
def step (nets : Namespaces) : NetEvent → Namespaces
  | .create => nets.create
  | .destroy n => if hn : n = initNet then nets else nets.destroy n hn

def after (nets : Namespaces) (events : List NetEvent) : Namespaces := events.foldl step nets

variable {nets : Namespaces} {n : ℕ}

theorem lt_next_step (h : n < nets.next) (event : NetEvent) : n < (nets.step event).next := by
  cases event with
  | create => exact Nat.lt_succ_of_lt h
  | destroy m =>
    by_cases hm : m = initNet
    · rwa [step, dif_pos hm]
    · rwa [step, dif_neg hm]

theorem notMem_step (h : n < nets.next) (gone : n ∉ nets.live) (event : NetEvent) :
    n ∉ (nets.step event).live := by
  intro hn
  cases event with
  | create =>
    rcases List.mem_append.mp hn with hold | hnew
    · exact gone hold
    · exact absurd (List.mem_singleton.mp hnew) (Nat.ne_of_lt h)
  | destroy m =>
    by_cases hm : m = initNet
    · rw [step, dif_pos hm] at hn
      exact gone hn
    · rw [step, dif_neg hm] at hn
      exact gone (List.mem_of_mem_erase hn)

theorem lt_next_after {events : List NetEvent} (h : n < nets.next) :
    n < (nets.after events).next := by
  induction events generalizing nets with
  | nil => exact h
  | cons event events ih => exact ih (lt_next_step h event)

/-- A namespace that is gone does not come back. -/
theorem notMem_after {events : List NetEvent} (h : n < nets.next) (gone : n ∉ nets.live) :
    n ∉ (nets.after events).live := by
  induction events generalizing nets with
  | nil => exact gone
  | cons event events ih => exact ih (lt_next_step h event) (notMem_step h gone event)

end Namespaces

/-! ### The code -/

/-- The namespaces, the static flag, and a ledger of where the hooks were registered
and where `nf_unregister_net_hooks` was called. -/
structure NetWorld where
  nets : Namespaces
  rkxNetfilterRegistered : Bool
  log : List (Entry ℕ)

namespace NetWorld

def start (nets : Namespaces) : NetWorld := ⟨nets, false, []⟩

def after (w : NetWorld) (events : List NetEvent) : NetWorld :=
  { w with nets := w.nets.after events }

/-- The namespace has the module's hooks. -/
def Hooked (w : NetWorld) (n : ℕ) : Prop := n ∈ held w.log

end NetWorld

section Code

-- The namespaces in which `nf_register_net_hooks` fails, leaving nothing behind.
variable (fails : ℕ → Bool)

/-- The loop of `rkx_register_netfilter`, until the first failure. -/
def registerLoop : List ℕ → NetWorld → Bool × NetWorld
  | [], w => (true, w)
  | n :: nets, w =>
    if fails n then (false, w)
    else registerLoop nets { w with log := .acquire n :: w.log }

/-- `rkx_unregister_netfilter_hooks` -/
def rkxUnregisterNetfilterHooks (w : NetWorld) : NetWorld :=
  { w with log := releaseAll w.log w.nets.live }

/-- `rkx_register_netfilter`: whether it succeeded. `between` is what happens to the
namespaces while the lock is not held before the rollback. -/
def rkxRegisterNetfilter (between : List NetEvent) (w : NetWorld) : Bool × NetWorld :=
  match registerLoop fails w.nets.live w with
  | (true, w) => (true, { w with rkxNetfilterRegistered := true })
  | (false, w) => (false, rkxUnregisterNetfilterHooks (w.after between))

/-- `rkx_unregister_netfilter` -/
def rkxUnregisterNetfilter (w : NetWorld) : NetWorld :=
  if w.rkxNetfilterRegistered then
    { rkxUnregisterNetfilterHooks w with rkxNetfilterRegistered := false }
  else w

/-- Registering, some time, and unregistering. -/
def netfilterLife (between later : List NetEvent) (nets : Namespaces) : NetWorld :=
  rkxUnregisterNetfilter ((rkxRegisterNetfilter fails between (.start nets)).2.after later)

end Code

/-! ### Where the hooks are -/

section Hooks

variable {fails : ℕ → Bool} {w : NetWorld}

/-- The loop registers the hooks up to the first namespace that refuses. -/
theorem registerLoop_eq (nets : List ℕ) :
    registerLoop fails nets w =
      (!nets.any fails, { w with log := acquireAll w.log (nets.takeWhile fun n => !fails n) }) := by
  induction nets generalizing w with
  | nil => rfl
  | cons n nets ih =>
    by_cases hn : fails n
    -- the rest of the list is not reached
    · simp [registerLoop, hn, acquireAll]
    · simp [registerLoop, hn, ih, acquireAll]

/-- After the second walk no namespace that is alive has the hooks. -/
theorem not_hooked_unregisterHooks (w : NetWorld) :
    ∀ n ∈ w.nets.live, ¬ (rkxUnregisterNetfilterHooks w).Hooked n := by
  intro n hn hooked
  exact (mem_held_releaseAll.mp hooked).1 hn

variable {between later : List NetEvent} {nets : Namespaces}

theorem register_of_failure (h : nets.live.any fails = true) :
    rkxRegisterNetfilter fails between (.start nets) =
      (false, rkxUnregisterNetfilterHooks
        ⟨nets.after between, false, acquireAll [] (nets.live.takeWhile fun n => !fails n)⟩) := by
  unfold rkxRegisterNetfilter
  rw [NetWorld.start, registerLoop_eq, h]
  rfl

theorem register_of_success (h : nets.live.any fails = false) :
    rkxRegisterNetfilter fails between (.start nets) =
      (true, ⟨nets, true, acquireAll [] (nets.live.takeWhile fun n => !fails n)⟩) := by
  unfold rkxRegisterNetfilter
  rw [NetWorld.start, registerLoop_eq, h]
  rfl

/-- After a registration that stopped, unregistering does nothing more. -/
theorem life_of_failure (h : nets.live.any fails = true) :
    netfilterLife fails between later nets =
      (rkxUnregisterNetfilterHooks ⟨nets.after between, false,
        acquireAll [] (nets.live.takeWhile fun n => !fails n)⟩).after later := by
  rw [netfilterLife, register_of_failure h]
  rfl

theorem life_of_success (h : nets.live.any fails = false) :
    netfilterLife fails between later nets =
      rkxUnregisterNetfilterHooks ⟨nets.after later, false,
        acquireAll [] (nets.live.takeWhile fun n => !fails n)⟩ := by
  rw [netfilterLife, register_of_success h]
  rfl

/-- The namespaces alive when the hooks are removed. -/
def atRemoval (fails : ℕ → Bool) (between later : List NetEvent) (nets : Namespaces) :
    Namespaces :=
  if nets.live.any fails then nets.after between else nets.after later

/-- The ledger of the module's whole life: registered up to the first refusal,
removed wherever there is a namespace. -/
theorem life_log : (netfilterLife fails between later nets).log =
    releaseAll (acquireAll [] (nets.live.takeWhile fun n => !fails n))
      (atRemoval fails between later nets).live := by
  unfold atRemoval
  cases h : nets.live.any fails with
  | true =>
    rw [life_of_failure h]
    rfl
  | false =>
    rw [life_of_success h]
    rfl

theorem hooked_life {n : ℕ} : (netfilterLife fails between later nets).Hooked n ↔
    n ∉ (atRemoval fails between later nets).live ∧
      n ∈ nets.live.takeWhile fun n => !fails n := by
  rw [NetWorld.Hooked, life_log, mem_held_releaseAll, mem_held_acquireAll, held_nil]
  simp

/-- Nothing has the hooks in the end, also if namespaces were created since. -/
theorem not_hooked_life :
    ∀ n ∈ (netfilterLife fails between later nets).nets.live,
      ¬ (netfilterLife fails between later nets).Hooked n := by
  intro n hlive hooked
  obtain ⟨hgone, hreached⟩ := hooked_life.mp hooked
  have hstart : n ∈ nets.live := (List.takeWhile_sublist _).mem hreached
  cases h : nets.live.any fails with
  | true =>
    -- it was destroyed before the rollback, and its number is not used again
    rw [life_of_failure h] at hlive
    rw [atRemoval, if_pos h] at hgone
    exact Namespaces.notMem_after (Namespaces.lt_next_after (nets.fresh n hstart)) hgone hlive
  | false =>
    -- the walk that removes the hooks is the last thing that happens
    rw [life_of_success h] at hlive
    rw [atRemoval, if_neg (Bool.eq_false_iff.mp h)] at hgone
    exact hgone hlive

theorem not_hooked_of_failure
    (failed : (rkxRegisterNetfilter fails between (.start nets)).1 = false) :
    ∀ n ∈ (rkxRegisterNetfilter fails between (.start nets)).2.nets.live,
      ¬ (rkxRegisterNetfilter fails between (.start nets)).2.Hooked n := by
  cases h : nets.live.any fails with
  | true =>
    rw [register_of_failure h]
    intro n hn
    exact not_hooked_unregisterHooks ⟨nets.after between, false, _⟩ n hn
  | false =>
    rw [register_of_success h] at failed
    exact absurd failed (by simp)

end Hooks

/-- The hooks are removed only where they are, and are gone afterwards, if and only
if every namespace alive when they are removed was there when they were
registered and before the first that refused. -/
theorem hooks_removed_where_installed_iff (fails : ℕ → Bool) (between later : List NetEvent)
    (nets : Namespaces) :
    (Balanced (netfilterLife fails between later nets).log ∧
      ((rkxRegisterNetfilter fails between (.start nets)).1 = false →
        ∀ n ∈ (rkxRegisterNetfilter fails between (.start nets)).2.nets.live,
          ¬ (rkxRegisterNetfilter fails between (.start nets)).2.Hooked n) ∧
      ∀ n ∈ (netfilterLife fails between later nets).nets.live,
        ¬ (netfilterLife fails between later nets).Hooked n) ↔
    ∀ n ∈ (atRemoval fails between later nets).live,
      n ∈ nets.live.takeWhile fun n => !fails n := by
  have hreached : (nets.live.takeWhile fun n => !fails n).Nodup :=
    nets.nodup.sublist (List.takeWhile_sublist _)
  have hregistered : Balanced (acquireAll [] (nets.live.takeWhile fun n => !fails n)) := by
    rw [balanced_acquireAll hreached]
    exact ⟨fun _ _ => Set.notMem_empty _, balanced_nil⟩
  have hbalanced : Balanced (netfilterLife fails between later nets).log ↔
      ∀ n ∈ (atRemoval fails between later nets).live,
        n ∈ nets.live.takeWhile fun n => !fails n := by
    rw [life_log, balanced_releaseAll (atRemoval fails between later nets).nodup,
      and_iff_left hregistered]
    refine forall₂_congr fun n _ => ?_
    rw [mem_held_acquireAll, held_nil, or_iff_left (Set.notMem_empty n)]
  rw [hbalanced]
  exact ⟨fun h => h.1, fun h => ⟨h, not_hooked_of_failure, not_hooked_life⟩⟩

/-- With two namespaces of which the second refuses, the rollback calls
`nf_unregister_net_hooks` for it; and so does unloading for a namespace created
after loading. -/
theorem hooks_removed_where_not_installed :
    ¬ Balanced (netfilterLife (fun n => decide (n = 1)) [] [] (.boot 1)).log ∧
    ¬ Balanced (netfilterLife (fun _ => false) [] [.create] (.boot 0)).log := by
  constructor
  · have hlog : (netfilterLife (fun n => decide (n = 1)) [] [] (.boot 1)).log =
        [.release 1, .release 0, .acquire 0] := rfl
    rw [hlog]
    rintro ⟨hheld, -⟩
    simp [held] at hheld
  · have hlog : (netfilterLife (fun _ => false) [] [.create] (.boot 0)).log =
        [.release 1, .release 0, .acquire 0] := rfl
    rw [hlog]
    rintro ⟨hheld, -⟩
    simp [held] at hheld

end ReKernelX.Netfilter
