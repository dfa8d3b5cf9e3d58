import Mathlib.Data.List.Basic
import Mathlib.Data.List.Nodup
import Mathlib.Logic.Relation

/-!
# Lists with lock-free readers

A list whose writers are serialised and whose readers are not stopped. A writer
links a node at the head or unlinks one; each is a single store to a pointer that
readers follow. The node that was unlinked keeps its own pointer, so a reader
that stands on it finds its way back.

A reader therefore sees neither the list as it was when it started nor as it is
when it ends. What can be said is where it can still get to: it never loses a
node that stays linked, and it never gets to a node that it could not get to
before.
-/

set_option autoImplicit false

namespace Rcu

variable {ν : Type*} [DecidableEq ν]

/-- What follows a node in a list. -/
def succ : List ν → ν → Option ν
  | [], _ => none
  | m :: rest, n => if m = n then rest.head? else succ rest n

/-- A list of nodes, and the pointers that unlinked nodes were left with. -/
structure Chain (ν : Type*) where
  live : List ν
  left : ν → Option ν

namespace Chain

variable (c : Chain ν)

/-- The pointer in a node. -/
def next (n : ν) : Option ν := if n ∈ c.live then succ c.live n else c.left n

/-- Link a node at the head. -/
def link (y : ν) : Chain ν := { c with live := y :: c.live }

/-- Unlink a node, leaving its own pointer as it is. -/
def unlink (y : ν) : Chain ν := ⟨c.live.erase y, Function.update c.left y (c.next y)⟩

/-- Following pointers from one node gets to another. -/
def Reaches : ν → ν → Prop := Relation.ReflTransGen fun m n => c.next m = some n

/-- A reader that holds a pointer can get to a node. -/
def ReachesFrom (p : Option ν) (x : ν) : Prop := ∃ n ∈ p, c.Reaches n x

end Chain

/-! ### Successors -/

section Succ

variable {l : List ν} {m n y : ν}

theorem mem_of_succ (h : succ l n = some m) : m ∈ l := by
  induction l with
  | nil => cases h
  | cons a l ih =>
    rw [succ] at h
    split_ifs at h
    · exact List.mem_cons_of_mem a (List.mem_of_mem_head? h)
    · exact List.mem_cons_of_mem a (ih h)

theorem succ_cons_of_ne (h : y ≠ n) : succ (y :: l) n = succ l n := if_neg h

theorem succ_append_cons {front : List ν} (h : n ∉ front) :
    succ (front ++ n :: l) n = l.head? := by
  induction front with
  | nil => exact if_pos rfl
  | cons a front ih =>
    rw [List.mem_cons, not_or] at h
    rw [List.cons_append, succ_cons_of_ne (Ne.symm h.1), ih h.2]

/-- Taking a node out of a list, its predecessor is followed by its successor. -/
theorem succ_erase (nodup : l.Nodup) (hne : n ≠ y) :
    succ (l.erase y) n = if succ l n = some y then succ l y else succ l n := by
  induction l with
  | nil => rfl
  | cons a l ih =>
    obtain ⟨ha, hl⟩ := List.nodup_cons.mp nodup
    by_cases hay : a = y
    · -- the head goes: nothing points to it
      subst hay
      have hnot : succ l n ≠ some a := fun h => ha (mem_of_succ h)
      rw [List.erase_cons_head, succ_cons_of_ne hne.symm, if_neg hnot]
    · rw [List.erase_cons_tail (by simpa using hay)]
      by_cases han : a = n
      · subst han
        rw [succ, if_pos rfl, succ, if_pos rfl, succ_cons_of_ne hay]
        cases l with
        | nil => rfl
        | cons b l =>
          by_cases hby : b = y
          · subst hby
            rw [List.erase_cons_head, List.head?_cons, if_pos rfl, succ, if_pos rfl]
          · have hhead : (b :: l).head? ≠ some y := by simpa using hby
            rw [List.erase_cons_tail (by simpa using hby), if_neg hhead]
            rfl
      · rw [succ_cons_of_ne han, succ_cons_of_ne han, succ_cons_of_ne hay, ih hl]

end Succ

namespace Chain

variable {c : Chain ν} {l : List ν} {m n p x y : ν}

/-! ### Pointers -/

theorem next_of_mem (h : n ∈ c.live) : c.next n = succ c.live n := if_pos h

theorem mem_of_next (hn : n ∈ c.live) (h : c.next n = some m) : m ∈ c.live := by
  rw [next_of_mem hn] at h
  exact mem_of_succ h

theorem next_link (hne : n ≠ y) : (c.link y).next n = c.next n := by
  unfold next link
  by_cases hn : n ∈ c.live
  · rw [if_pos (List.mem_cons_of_mem y hn), if_pos hn, succ_cons_of_ne hne.symm]
  · have hnot : n ∉ y :: c.live := by
      rw [List.mem_cons, not_or]
      exact ⟨hne, hn⟩
    rw [if_neg hnot, if_neg hn]

theorem next_unlink_self (nodup : c.live.Nodup) : (c.unlink y).next y = c.next y := by
  have hgone : y ∉ (c.unlink y).live := nodup.not_mem_erase
  rw [next, if_neg hgone]
  exact Function.update_self ..

/-- Unlinking moves the pointers to the node on to the next, or leaves them. -/
theorem next_unlink (nodup : c.live.Nodup) (hne : n ≠ y) :
    (c.unlink y).next n = c.next n ∨
      c.next n = some y ∧ (c.unlink y).next n = c.next y := by
  have hmem : n ∈ (c.unlink y).live ↔ n ∈ c.live := List.mem_erase_of_ne hne
  by_cases hn : n ∈ c.live
  · rw [next_of_mem (hmem.mpr hn), next_of_mem hn]
    change succ (c.live.erase y) n = _ ∨ _ ∧ succ (c.live.erase y) n = _
    rw [succ_erase nodup hne]
    split_ifs with hpointed
    · have hy : y ∈ c.live := mem_of_succ hpointed
      exact .inr ⟨hpointed, (next_of_mem hy).symm⟩
    · exact .inl rfl
  · left
    rw [next, if_neg (mt hmem.mp hn), next, if_neg hn]
    exact Function.update_of_ne hne ..

/-! ### Where a reader can get to -/

theorem Reaches.of_next (h : c.next n = some m) (rest : c.Reaches m x) : c.Reaches n x :=
  Relation.ReflTransGen.head h rest

/-- Getting to another node takes a first step. -/
theorem Reaches.next (h : c.Reaches n x) (hne : n ≠ x) :
    ∃ m, c.next n = some m ∧ c.Reaches m x := by
  rcases Relation.ReflTransGen.cases_head h with rfl | ⟨m, hnext, hrest⟩
  · exact absurd rfl hne
  · exact ⟨m, hnext, hrest⟩

/-- From a linked node one stays among the linked nodes. -/
theorem Reaches.mem_live (h : c.Reaches n x) (hn : n ∈ c.live) : x ∈ c.live := by
  induction h with
  | refl => exact hn
  | tail _ hnext ih => exact mem_of_next ih hnext

/-- Linking a node that a reader cannot get to changes nothing for the reader. -/
theorem reaches_link (hnew : ∀ n, c.Reaches p n → n ≠ y) :
    (c.link y).Reaches p x ↔ c.Reaches p x := by
  constructor
  · intro h
    induction h with
    | refl => exact .refl
    | @tail m n _ hstep ih =>
      rw [next_link (hnew m ih)] at hstep
      exact ih.tail hstep
  · intro h
    induction h with
    | refl => exact .refl
    | @tail m n hbefore hstep ih => exact ih.tail ((next_link (hnew m hbefore)).trans hstep)

/-- A reader that starts at the head can get to every linked node. -/
theorem reachesFrom_head (nodup : c.live.Nodup) (hx : x ∈ c.live) :
    c.ReachesFrom c.live.head? x := by
  obtain ⟨live, left⟩ := c
  induction live with
  | nil => cases hx
  | cons n l ih =>
    obtain ⟨hn, hl⟩ := List.nodup_cons.mp nodup
    refine ⟨n, rfl, ?_⟩
    rcases List.mem_cons.mp hx with rfl | hx
    · exact .refl
    · -- the list without its head is a list to which the head was linked
      obtain ⟨h, hhead, hrest⟩ := ih hl hx
      have hother : ∀ m, (⟨l, left⟩ : Chain ν).Reaches h m → m ≠ n := by
        rintro m hm rfl
        exact hn (hm.mem_live (List.mem_of_mem_head? hhead))
      have hfirst : (⟨n :: l, left⟩ : Chain ν).next n = some h := by
        rw [next_of_mem List.mem_cons_self, succ, if_pos rfl]
        exact hhead
      exact Reaches.of_next hfirst ((reaches_link hother).mpr hrest)

/-- A reader never loses a node that stays linked. -/
theorem Reaches.unlink (nodup : c.live.Nodup) (h : c.Reaches p x) (hx : x ≠ y) :
    (c.unlink y).Reaches p x := by
  induction h using Relation.ReflTransGen.head_induction_on with
  | refl => exact .refl
  | @head p n hstep hrest ih =>
    by_cases hpy : p = y
    · -- the node that is unlinked keeps its pointer
      subst hpy
      exact Reaches.of_next ((next_unlink_self nodup).trans hstep) ih
    · rcases next_unlink nodup hpy with hsame | ⟨hpointed, hmoved⟩
      · exact Reaches.of_next (hsame.trans hstep) ih
      · -- the step that led to `y` now leads where the next one did
        obtain rfl : n = y := Option.some.inj (hstep.symm.trans hpointed)
        obtain ⟨m, hnext, hrest'⟩ := ih.next hx.symm
        rw [next_unlink_self nodup] at hnext
        exact Reaches.of_next (hmoved.trans hnext) hrest'

/-- A reader never gets to a node that it could not get to before. -/
theorem Reaches.of_unlink (nodup : c.live.Nodup) (h : (c.unlink y).Reaches p x) :
    c.Reaches p x := by
  induction h using Relation.ReflTransGen.head_induction_on with
  | refl => exact .refl
  | @head p n hstep hrest ih =>
    by_cases hpy : p = y
    · subst hpy
      exact Reaches.of_next ((next_unlink_self nodup).symm.trans hstep) ih
    · rcases next_unlink nodup hpy with hsame | ⟨hpointed, hmoved⟩
      · exact Reaches.of_next (hsame.symm.trans hstep) ih
      · exact Reaches.of_next hpointed (Reaches.of_next (hmoved.symm.trans hstep) ih)

/-! ### Unlinking everything -/

/-- A writer that unlinks each node it comes to, having loaded its pointer before.
There is no result if it has not come to the end after so many nodes. -/
def drain : ℕ → Option ν → Chain ν → Option (Chain ν)
  | _, none, c => some c
  | 0, some _, _ => none
  | fuel + 1, some n, c => drain fuel (c.next n) (c.unlink n)

/-- From the head, the walk comes to the end, and nothing is linked any more. -/
theorem exists_drain (c : Chain ν) :
    ∃ c' : Chain ν, c'.live = [] ∧
      ∀ fuel, c.live.length ≤ fuel → drain fuel c.live.head? c = some c' := by
  obtain ⟨live, left⟩ := c
  induction live generalizing left with
  | nil =>
    refine ⟨⟨[], left⟩, rfl, fun fuel _ => ?_⟩
    rw [List.head?_nil, drain]
  | cons n l ih =>
    -- the node that is unlinked is the head, and the pointer loaded is the next one
    have hnext : (⟨n :: l, left⟩ : Chain ν).next n = l.head? := by
      rw [next_of_mem List.mem_cons_self, succ, if_pos rfl]
    have hunlinked : (⟨n :: l, left⟩ : Chain ν).unlink n =
        ⟨l, Function.update left n l.head?⟩ := by
      rw [unlink, hnext, List.erase_cons_head]
    obtain ⟨c', hempty, hdrain⟩ := ih (Function.update left n l.head?)
    refine ⟨c', hempty, fun fuel hfuel => ?_⟩
    obtain ⟨fuel, rfl⟩ := Nat.exists_eq_add_of_lt (Nat.lt_of_lt_of_le (Nat.succ_pos _) hfuel)
    rw [Nat.zero_add, List.head?_cons, drain, hnext, hunlinked]
    exact hdrain fuel (Nat.le_of_succ_le_succ (by simpa using hfuel))

section Buckets

variable {β : Type*} [DecidableEq β]

/-- The same for the chains of several buckets, one after the other. -/
def drainEach (fuel : ℕ) : List β → (β → Chain ν) → Option (β → Chain ν)
  | [], chains => some chains
  | b :: rest, chains =>
    (drain fuel (chains b).live.head? (chains b)).bind fun c =>
      drainEach fuel rest (Function.update chains b c)

/-- The walk comes to an end, with nothing linked in the buckets it went over. -/
theorem exists_drainEach {fuel : ℕ} (buckets : List β) (chains : β → Chain ν)
    (hfuel : ∀ b, (chains b).live.length ≤ fuel) :
    ∃ chains', drainEach fuel buckets chains = some chains' ∧
      (∀ b ∈ buckets, (chains' b).live = []) ∧ ∀ b ∉ buckets, chains' b = chains b := by
  induction buckets generalizing chains with
  | nil => exact ⟨chains, rfl, List.forall_mem_nil _, fun _ _ => rfl⟩
  | cons b rest ih =>
    obtain ⟨c, hempty, hdrain⟩ := exists_drain (chains b)
    have hshort : ∀ d, (Function.update chains b c d).live.length ≤ fuel := by
      rw [Function.forall_update_iff chains fun _ chain => chain.live.length ≤ fuel, hempty]
      exact ⟨Nat.zero_le fuel, fun d _ => hfuel d⟩
    obtain ⟨chains', hrun, hin, hout⟩ := ih (Function.update chains b c) hshort
    refine ⟨chains', ?_, ?_, ?_⟩
    · rw [drainEach, hdrain fuel (hfuel b), Option.bind_some, hrun]
    · intro d hd
      by_cases hrest : d ∈ rest
      · exact hin d hrest
      · obtain rfl : d = b := (List.mem_cons.mp hd).resolve_right hrest
        rw [hout d hrest, Function.update_self, hempty]
    · intro d hd
      rw [List.mem_cons, not_or] at hd
      rw [hout d hd.2, Function.update_of_ne hd.1]

end Buckets

end Chain

end Rcu
