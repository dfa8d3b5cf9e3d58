import Mathlib.Data.Finset.Basic
import Mathlib.Data.Finset.Insert
import Mathlib.Data.Finset.Erase
import ReKernelX.Foundation.RcuList

/-!
# Giving memory back while readers hold pointers

Lists in buckets again, now with the memory of their nodes. A node is allocated,
linked, unlinked and then handed to a deferred free, which waits for the readers
that are inside a read-side critical section at that time. After that its memory
belongs to somebody else: it may be written to, or come back as a new node.

What keeps readers out of such memory is an invariant of the pointers. A reader may
hold a node that is linked in its bucket, or one that was unlinked while the reader
was already inside; and the pointer of such a node leads to a node that the same
reader may hold. Deferred frees do not end for a node that somebody may hold.
-/

set_option autoImplicit false

namespace Rcu

/-- Chains that agree on the pointers a reader can follow take it to the same nodes. -/
theorem Chain.reaches_congr {ν : Type*} [DecidableEq ν] {c c' : Chain ν} {p x : ν}
    (same : ∀ n, c.Reaches p n → c'.next n = c.next n) : c'.Reaches p x ↔ c.Reaches p x := by
  constructor
  · intro h
    induction h with
    | refl => exact .refl
    | tail _ hstep ih => exact ih.tail ((same _ ih).symm.trans hstep)
  · intro h
    induction h with
    | refl => exact .refl
    | tail hbefore hstep ih => exact ih.tail ((same _ hbefore).trans hstep)

/-! ### Nodes and their memory -/

/-- What has become of a node. The `holders` were inside when it was unlinked and have
not left since; the deferred free ends when `waitsFor` is empty. -/
inductive Status (β ρ : Type*)
  /-- The memory is not a node, or not a node any more. -/
  | free
  /-- Allocated, and known to the writer alone. -/
  | fresh
  | linked (b : β)
  | unlinked (b : β) (holders : Finset ρ)
  | waiting (b : β) (holders waitsFor : Finset ρ)
  deriving DecidableEq

/-- Nodes in memory, and the readers inside a read-side critical section. -/
structure Heap (β ν ρ : Type*) where
  live : β → List ν
  /-- The pointers in nodes that are not linked. -/
  left : ν → Option ν
  status : ν → Status β ρ
  inside : Finset ρ

/-- What happens to the memory. -/
inductive Op (β ν ρ : Type*)
  | enter (r : ρ)
  | leave (r : ρ)
  | alloc (y : ν)
  | link (b : β) (y : ν)
  | unlink (b : β) (y : ν)
  /-- The node is handed to the deferred free. -/
  | retire (y : ν)
  /-- The deferred free ends. -/
  | release (y : ν)
  /-- Memory that is not a node is written to. -/
  | scribble (y : ν) (p : Option ν)

section Operations

variable {β ν ρ : Type*} [DecidableEq β] [DecidableEq ν] [DecidableEq ρ]

/-- A reader leaves. -/
def Status.drop (r : ρ) : Status β ρ → Status β ρ
  | .unlinked b holders => .unlinked b (holders.erase r)
  | .waiting b holders waitsFor => .waiting b (holders.erase r) (waitsFor.erase r)
  | s => s

namespace Heap

variable (h : Heap β ν ρ)

/-- The pointer in a node. -/
def next (n : ν) : Option ν :=
  match h.status n with
  | .linked b => succ (h.live b) n
  | _ => h.left n

/-- The list of a bucket, with the pointers that unlinked nodes were left with. -/
def chain (b : β) : Chain ν := ⟨h.live b, h.left⟩

/-- The status of a node that is handed to the deferred free. -/
def retired (y : ν) : Status β ρ :=
  match h.status y with
  | .unlinked b holders => .waiting b holders h.inside
  | s => s

def perform : Op β ν ρ → Heap β ν ρ
  | .enter r => { h with inside := insert r h.inside }
  | .leave r => { h with inside := h.inside.erase r, status := fun n => (h.status n).drop r }
  | .alloc y => { h with status := Function.update h.status y .fresh }
  | .link b y =>
    { h with
      live := Function.update h.live b (y :: h.live b)
      status := Function.update h.status y (.linked b) }
  | .unlink b y =>
    { h with
      live := Function.update h.live b ((h.live b).erase y)
      left := Function.update h.left y (h.next y)
      status := Function.update h.status y (.unlinked b h.inside) }
  | .retire y => { h with status := Function.update h.status y (h.retired y) }
  | .release y => { h with status := Function.update h.status y .free }
  | .scribble y p => { h with left := Function.update h.left y p }

omit [DecidableEq β] [DecidableEq ν] [DecidableEq ρ] in
/-- When an operation is in order. -/
def Allowed : Op β ν ρ → Prop
  | .enter _ | .leave _ => True
  | .alloc y => h.status y = .free
  | .link _ y => h.status y = .fresh
  | .unlink b y => h.status y = .linked b
  | .retire y => ∃ b holders, h.status y = .unlinked b holders
  | .release y => ∃ b holders, h.status y = .waiting b holders ∅
  | .scribble y _ => h.status y = .free ∨ h.status y = .fresh

end Heap

end Operations

/-! ### Who may hold what -/

section Holding

variable {β ν ρ : Type*}

/-- An unlinked node of a bucket that a reader may still hold. -/
def Status.HeldBy (r : ρ) (b : β) : Status β ρ → Prop
  | .unlinked b' holders | .waiting b' holders _ => b' = b ∧ r ∈ holders
  | .free | .fresh | .linked _ => False

/-- A node that a reader of a bucket may hold. -/
def Status.KeptFor (r : ρ) (b : β) (s : Status β ρ) : Prop := s = .linked b ∨ s.HeldBy r b

/-- A node that a reader may hold is a node. -/
theorem Status.KeptFor.ne_free {r : ρ} {b : β} {s : Status β ρ} (kept : s.KeptFor r b) :
    s ≠ .free ∧ s ≠ .fresh := by
  constructor
  · rintro rfl
    rcases kept with hlinked | hheld
    · cases hlinked
    · exact hheld
  · rintro rfl
    rcases kept with hlinked | hheld
    · cases hlinked
    · exact hheld

theorem Status.HeldBy.ne_linked {r : ρ} {b b' : β} {s : Status β ρ} (held : s.HeldBy r b) :
    s ≠ .linked b' := by
  rintro rfl
  exact held

/-- The invariant of the pointers. -/
structure Heap.Inv (h : Heap β ν ρ) : Prop where
  linked : ∀ b n, n ∈ h.live b ↔ h.status n = .linked b
  nodup : ∀ b, (h.live b).Nodup
  inside : ∀ r b n, (h.status n).HeldBy r b → r ∈ h.inside
  waits : ∀ n b holders waitsFor, h.status n = .waiting b holders waitsFor →
    holders ⊆ waitsFor ∧ waitsFor ⊆ h.inside
  left : ∀ r b x y, (h.status x).HeldBy r b → h.left x = some y → (h.status y).KeptFor r b

variable {h : Heap β ν ρ} {r : ρ} {b : β} {m n p x y : ν}

/-- Nodes of different status are different. -/
theorem Status.KeptFor.ne_of_unused (kept : (h.status n).KeptFor r b)
    (unused : h.status y = .free ∨ h.status y = .fresh) : n ≠ y := by
  rintro rfl
  rcases unused with hfree | hfresh
  · exact kept.ne_free.1 hfree
  · exact kept.ne_free.2 hfresh

section

variable [DecidableEq ν]

theorem Heap.next_of_linked (hn : h.status n = .linked b) : h.next n = succ (h.live b) n := by
  rw [Heap.next, hn]

theorem Heap.next_of_heldBy (held : (h.status n).HeldBy r b) : h.next n = h.left n := by
  rw [Heap.next]
  split
  · next b' hlinked => exact absurd hlinked held.ne_linked
  · rfl

/-- The pointer of a node that a reader may hold leads to one that it may hold. -/
theorem Heap.Inv.next (inv : h.Inv) (kept : (h.status n).KeptFor r b) (hnext : h.next n = some m) :
    (h.status m).KeptFor r b := by
  rcases kept with hlinked | hheld
  · rw [next_of_linked hlinked] at hnext
    exact .inl ((inv.linked b m).mp (mem_of_succ hnext))
  · rw [next_of_heldBy hheld] at hnext
    exact inv.left r b n m hheld hnext

/-- For a node that a reader of the bucket may hold, it is the pointer of the chain. -/
theorem Heap.Inv.next_chain (inv : h.Inv) (kept : (h.status n).KeptFor r b) :
    (h.chain b).next n = h.next n := by
  rcases kept with hlinked | hheld
  · rw [next_of_linked hlinked]
    exact Chain.next_of_mem ((inv.linked b n).mpr hlinked)
  · have hnot : n ∉ h.live b := fun hmem => hheld.ne_linked ((inv.linked b n).mp hmem)
    rw [next_of_heldBy hheld]
    exact if_neg hnot

/-- All that a reader can get to it may hold. -/
theorem Heap.Inv.kept_of_reaches (inv : h.Inv) (kept : (h.status p).KeptFor r b)
    (reach : (h.chain b).Reaches p x) : (h.status x).KeptFor r b := by
  induction reach with
  | refl => exact kept
  | tail _ hstep ih =>
    rw [inv.next_chain ih] at hstep
    exact inv.next ih hstep

end

/-! ### One operation -/

variable [DecidableEq β] [DecidableEq ν] [DecidableEq ρ] {op : Op β ν ρ}

namespace Heap

omit [DecidableEq β] [DecidableEq ν] [DecidableEq ρ] in
theorem retired_of_unlinked {holders : Finset ρ} (hy : h.status y = .unlinked b holders) :
    h.retired y = .waiting b holders h.inside := by
  rw [retired, hy]

omit [DecidableEq β] [DecidableEq ν] in
theorem heldBy_drop {s : Status β ρ} {r' : ρ} :
    (s.drop r').HeldBy r b ↔ s.HeldBy r b ∧ r ≠ r' := by
  cases s with
  | unlinked b' holders =>
    change b' = b ∧ r ∈ holders.erase r' ↔ (b' = b ∧ r ∈ holders) ∧ r ≠ r'
    rw [Finset.mem_erase]
    tauto
  | waiting b' holders waitsFor =>
    change b' = b ∧ r ∈ holders.erase r' ↔ (b' = b ∧ r ∈ holders) ∧ r ≠ r'
    rw [Finset.mem_erase]
    tauto
  | free => exact ⟨False.elim, And.left⟩
  | fresh => exact ⟨False.elim, And.left⟩
  | linked b' => exact ⟨False.elim, And.left⟩

omit [DecidableEq β] [DecidableEq ν] in
theorem drop_eq_linked {s : Status β ρ} {r' : ρ} : s.drop r' = .linked b ↔ s = .linked b := by
  cases s <;> simp [Status.drop]

end Heap

/-- As long as a reader stays inside, what it may hold it may go on holding. -/
theorem Status.KeptFor.perform (kept : (h.status n).KeptFor r b) (inv : h.Inv)
    (allowed : h.Allowed op) (stays : op ≠ .leave r) (inside : r ∈ h.inside) :
    ((h.perform op).status n).KeptFor r b := by
  cases op with
  | enter r' => exact kept
  | leave r' =>
    have hne : r ≠ r' := fun hr => stays (congrArg Op.leave hr.symm)
    exact kept.imp Heap.drop_eq_linked.mpr fun hheld => Heap.heldBy_drop.mpr ⟨hheld, hne⟩
  | alloc y =>
    have hne : n ≠ y := kept.ne_of_unused (.inl allowed)
    change (Function.update h.status y _ n).KeptFor r b
    rwa [Function.update_of_ne hne]
  | link b' y =>
    have hne : n ≠ y := kept.ne_of_unused (.inr allowed)
    change (Function.update h.status y _ n).KeptFor r b
    rwa [Function.update_of_ne hne]
  | unlink b' y =>
    change (Function.update h.status y _ n).KeptFor r b
    by_cases hne : n = y
    · -- it was linked, and the reader is inside
      subst hne
      rw [Function.update_self]
      rcases kept with hlinked | hheld
      · have hsame : Status.linked b' = Status.linked b := allowed.symm.trans hlinked
        exact .inr ⟨Status.linked.inj hsame, inside⟩
      · exact absurd allowed hheld.ne_linked
    · rwa [Function.update_of_ne hne]
  | retire y =>
    obtain ⟨b', holders, hy⟩ := allowed
    change (Function.update h.status y _ n).KeptFor r b
    by_cases hne : n = y
    · subst hne
      rw [Function.update_self, Heap.retired_of_unlinked hy]
      rw [hy] at kept
      exact .inr (kept.resolve_left (by simp))
    · rwa [Function.update_of_ne hne]
  | release y =>
    obtain ⟨b', holders, hy⟩ := allowed
    change (Function.update h.status y _ n).KeptFor r b
    have hne : n ≠ y := by
      -- nobody may hold a node whose free waits for nobody
      rintro rfl
      rw [hy] at kept
      have hheld : r ∈ holders := (kept.resolve_left (by simp)).2
      exact absurd ((inv.waits n b' holders ∅ hy).1 hheld) (Finset.notMem_empty r)
    rwa [Function.update_of_ne hne]
  | scribble y p => exact kept

namespace Heap

omit [DecidableEq β] [DecidableEq ρ] in
/-- A status that nobody holds a node by does not make a node held. -/
theorem heldBy_of_update {s : Status β ρ} (unheld : ¬ s.HeldBy r b)
    (held : (Function.update h.status y s x).HeldBy r b) : (h.status x).HeldBy r b := by
  by_cases hxy : x = y
  · rw [hxy, Function.update_self] at held
    exact absurd held unheld
  · rwa [Function.update_of_ne hxy] at held

/-- A node that a reader may hold after an operation and that is not linked was such a
node before, with the same pointer, or is the one unlinked. -/
theorem heldBy_of_perform (allowed : h.Allowed op)
    (held : ((h.perform op).status x).HeldBy r b) :
    (h.status x).HeldBy r b ∧ (h.perform op).left x = h.left x ∧ op ≠ .leave r ∨
      op = .unlink b x ∧ r ∈ h.inside := by
  cases op with
  | enter r' => exact .inl ⟨held, rfl, by simp⟩
  | leave r' =>
    obtain ⟨hheld, hne⟩ := heldBy_drop.mp held
    refine .inl ⟨hheld, rfl, ?_⟩
    rintro ⟨⟩
    exact hne rfl
  | alloc y => exact .inl ⟨heldBy_of_update id held, rfl, by simp⟩
  | link b' y => exact .inl ⟨heldBy_of_update id held, rfl, by simp⟩
  | unlink b' y =>
    change (Function.update h.status y _ x).HeldBy r b at held
    by_cases hxy : x = y
    · subst hxy
      rw [Function.update_self] at held
      obtain ⟨rfl, hinside⟩ := held
      exact .inr ⟨rfl, hinside⟩
    · rw [Function.update_of_ne hxy] at held
      exact .inl ⟨held, Function.update_of_ne hxy .., by simp⟩
  | retire y =>
    obtain ⟨b', holders, hy⟩ := allowed
    change (Function.update h.status y _ x).HeldBy r b at held
    refine .inl ⟨?_, rfl, by simp⟩
    by_cases hxy : x = y
    · subst hxy
      rw [Function.update_self, retired_of_unlinked hy] at held
      rw [hy]
      exact held
    · rwa [Function.update_of_ne hxy] at held
  | release y => exact .inl ⟨heldBy_of_update id held, rfl, by simp⟩
  | scribble y p =>
    have hxy : x ≠ y := Status.KeptFor.ne_of_unused (.inr held) allowed
    exact .inl ⟨held, Function.update_of_ne hxy .., by simp⟩

/-- Readers that may hold an unlinked node are inside, also after an operation. -/
theorem Inv.inside_perform (inv : h.Inv) (allowed : h.Allowed op)
    (held : ((h.perform op).status x).HeldBy r b) : r ∈ (h.perform op).inside := by
  have hbefore : r ∈ h.inside ∧ op ≠ .leave r := by
    rcases heldBy_of_perform allowed held with ⟨hheld, -, hstays⟩ | ⟨rfl, hinside⟩
    · exact ⟨inv.inside r b x hheld, hstays⟩
    · exact ⟨hinside, by simp⟩
  cases op with
  | enter r' => exact Finset.mem_insert_of_mem hbefore.1
  | leave r' =>
    have hne : r ≠ r' := fun hr => hbefore.2 (congrArg Op.leave hr.symm)
    exact Finset.mem_erase.mpr ⟨hne, hbefore.1⟩
  | alloc | link | unlink | retire | release | scribble => exact hbefore.1

theorem Inv.left_perform (inv : h.Inv) (allowed : h.Allowed op)
    (held : ((h.perform op).status x).HeldBy r b) (hleft : (h.perform op).left x = some y) :
    ((h.perform op).status y).KeptFor r b := by
  rcases heldBy_of_perform allowed held with ⟨hheld, hsame, hstays⟩ | ⟨rfl, hinside⟩
  · rw [hsame] at hleft
    exact (inv.left r b x y hheld hleft).perform inv allowed hstays (inv.inside r b x hheld)
  · -- the node was linked, and is left with the pointer it had
    have hnext : h.next x = some y := by
      rw [← hleft]
      exact (Function.update_self x (h.next x) h.left).symm
    exact (inv.next (.inl allowed) hnext).perform inv allowed (by simp) hinside

omit [DecidableEq β] [DecidableEq ρ] in
/-- Changing the status of a node that is linked neither before nor after. -/
theorem Inv.linked_update (inv : h.Inv) {s : Status β ρ} (hs : ∀ b, s ≠ .linked b)
    (hy : ∀ b, h.status y ≠ .linked b) (b : β) (n : ν) :
    n ∈ h.live b ↔ Function.update h.status y s n = .linked b := by
  rw [inv.linked]
  by_cases hny : n = y
  · subst hny
    rw [Function.update_self]
    exact iff_of_false (hy b) (hs b)
  · rw [Function.update_of_ne hny]

theorem Inv.linked_perform (inv : h.Inv) (allowed : h.Allowed op) (b : β) (n : ν) :
    n ∈ (h.perform op).live b ↔ (h.perform op).status n = .linked b := by
  cases op with
  | enter r => exact inv.linked b n
  | leave r => exact (inv.linked b n).trans drop_eq_linked.symm
  | alloc y =>
    refine inv.linked_update (fun _ => by simp) (fun _ => ?_) b n
    simp [show h.status y = .free from allowed]
  | link b' y =>
    change n ∈ Function.update h.live b' _ b ↔ Function.update h.status y _ n = _
    have hnew : y ∉ h.live b := by
      simp [inv.linked, show h.status y = .fresh from allowed]
    by_cases hb : b = b'
    · subst hb
      rw [Function.update_self, List.mem_cons]
      by_cases hny : n = y
      · rw [hny, Function.update_self]
        exact iff_of_true (.inl rfl) rfl
      · rw [Function.update_of_ne hny, ← inv.linked]
        exact or_iff_right hny
    · rw [Function.update_of_ne hb]
      by_cases hny : n = y
      · rw [hny, Function.update_self]
        exact iff_of_false hnew fun h => hb (Status.linked.inj h).symm
      · rw [Function.update_of_ne hny, inv.linked]
  | unlink b' y =>
    change n ∈ Function.update h.live b' _ b ↔ Function.update h.status y _ n = _
    have hy : h.status y = .linked b' := allowed
    by_cases hny : n = y
    · subst hny
      rw [Function.update_self]
      refine iff_of_false (fun hmem => ?_) (by simp)
      by_cases hb : b = b'
      · subst hb
        rw [Function.update_self] at hmem
        exact (inv.nodup b).not_mem_erase hmem
      · rw [Function.update_of_ne hb, inv.linked, hy] at hmem
        exact hb (Status.linked.inj hmem).symm
    · rw [Function.update_of_ne hny, ← inv.linked]
      by_cases hb : b = b'
      · subst hb
        rw [Function.update_self, List.mem_erase_of_ne hny]
      · rw [Function.update_of_ne hb]
  | retire y =>
    obtain ⟨b', holders, hy⟩ := allowed
    refine inv.linked_update (fun _ => ?_) (fun _ => ?_) b n
    · simp [retired_of_unlinked hy]
    · simp [hy]
  | release y =>
    obtain ⟨b', holders, hy⟩ := allowed
    refine inv.linked_update (fun _ => by simp) (fun _ => ?_) b n
    simp [hy]
  | scribble y p => exact inv.linked b n

theorem Inv.nodup_perform (inv : h.Inv) (allowed : h.Allowed op) (b : β) :
    ((h.perform op).live b).Nodup := by
  cases op with
  | link b' y =>
    have hnew : y ∉ h.live b' := by
      simp [inv.linked, show h.status y = .fresh from allowed]
    change (Function.update h.live b' _ b).Nodup
    by_cases hb : b = b'
    · subst hb
      rw [Function.update_self]
      exact List.nodup_cons.mpr ⟨hnew, inv.nodup b⟩
    · rw [Function.update_of_ne hb]
      exact inv.nodup b
  | unlink b' y =>
    change (Function.update h.live b' _ b).Nodup
    by_cases hb : b = b'
    · subst hb
      rw [Function.update_self]
      exact (inv.nodup b).erase y
    · rw [Function.update_of_ne hb]
      exact inv.nodup b
  | enter | leave | alloc | retire | release | scribble => exact inv.nodup b

/-- A deferred free waits for those that may hold the node, and for nobody outside. -/
theorem Inv.waits_perform (inv : h.Inv) (allowed : h.Allowed op) {holders waitsFor : Finset ρ}
    (hn : (h.perform op).status n = .waiting b holders waitsFor) :
    holders ⊆ waitsFor ∧ waitsFor ⊆ (h.perform op).inside := by
  -- an update to a status that is not waiting leaves the nodes that are
  have hother : ∀ {y : ν} {s : Status β ρ}, (∀ b s' w, s ≠ .waiting b s' w) →
      Function.update h.status y s n = .waiting b holders waitsFor →
      holders ⊆ waitsFor ∧ waitsFor ⊆ h.inside := by
    intro y s hs hupdate
    by_cases hny : n = y
    · rw [hny, Function.update_self] at hupdate
      exact absurd hupdate (hs _ _ _)
    · rw [Function.update_of_ne hny] at hupdate
      exact inv.waits n b holders waitsFor hupdate
  cases op with
  | enter r =>
    obtain ⟨hholders, hinside⟩ := inv.waits n b holders waitsFor hn
    exact ⟨hholders, hinside.trans (Finset.subset_insert r h.inside)⟩
  | leave r =>
    change (h.status n).drop r = _ at hn
    cases hstatus : h.status n with
    | waiting b' holders' waitsFor' =>
      rw [hstatus, Status.drop] at hn
      obtain ⟨-, rfl, rfl⟩ := Status.waiting.inj hn
      obtain ⟨hholders, hinside⟩ := inv.waits n _ _ _ hstatus
      exact ⟨Finset.erase_subset_erase r hholders, Finset.erase_subset_erase r hinside⟩
    | free | fresh | linked | unlinked =>
      rw [hstatus] at hn
      cases hn
  | alloc y => exact hother (fun _ _ _ => by simp) hn
  | link b' y => exact hother (fun _ _ _ => by simp) hn
  | unlink b' y => exact hother (fun _ _ _ => by simp) hn
  | retire y =>
    obtain ⟨b', holders', hy⟩ := allowed
    change Function.update h.status y _ n = _ at hn
    by_cases hny : n = y
    · subst hny
      rw [Function.update_self, retired_of_unlinked hy] at hn
      obtain ⟨rfl, rfl, rfl⟩ := Status.waiting.inj hn
      refine ⟨fun r hr => inv.inside r b' n ?_, subset_rfl⟩
      rw [hy]
      exact ⟨rfl, hr⟩
    · rw [Function.update_of_ne hny] at hn
      exact inv.waits n b holders waitsFor hn
  | release y => exact hother (fun _ _ _ => by simp) hn
  | scribble y p => exact inv.waits n b holders waitsFor hn

/-- Operations that are in order keep the invariant. -/
theorem Inv.perform (inv : h.Inv) (allowed : h.Allowed op) : (h.perform op).Inv where
  linked := inv.linked_perform allowed
  nodup := inv.nodup_perform allowed
  inside _ _ _ held := inv.inside_perform allowed held
  waits _ _ _ _ hn := inv.waits_perform allowed hn
  left _ _ _ _ held hleft := inv.left_perform allowed held hleft

/-- A node stays linked unless it is unlinked. -/
theorem mem_live_perform (hx : x ∈ h.live b) (stays : op ≠ .unlink b x) :
    x ∈ (h.perform op).live b := by
  cases op with
  | link b' y =>
    change x ∈ Function.update h.live b' _ b
    by_cases hb : b = b'
    · subst hb
      rw [Function.update_self]
      exact List.mem_cons_of_mem y hx
    · rwa [Function.update_of_ne hb]
  | unlink b' y =>
    change x ∈ Function.update h.live b' _ b
    by_cases hb : b = b'
    · subst hb
      have hxy : x ≠ y := fun hxy => stays (congrArg (Op.unlink b) hxy.symm)
      rw [Function.update_self]
      exact (List.mem_erase_of_ne hxy).mpr hx
    · rwa [Function.update_of_ne hb]
  | enter | leave | alloc | retire | release | scribble => exact hx

/-! ### Where a reader can still get to -/

/-- Except for unlinking in its bucket, operations leave the pointers a reader can follow. -/
theorem next_chain_perform (allowed : h.Allowed op)
    (kept : (h.status n).KeptFor r b) (hop : ∀ y, op ≠ .unlink b y) :
    ((h.perform op).chain b).next n = (h.chain b).next n := by
  cases op with
  | link b' y =>
    have hne : n ≠ y := kept.ne_of_unused (.inr allowed)
    change Chain.next ⟨Function.update h.live b' _ b, h.left⟩ n = _
    by_cases hb : b = b'
    · subst hb
      rw [Function.update_self]
      exact Chain.next_link (c := h.chain b) hne
    · rw [Function.update_of_ne hb]
      rfl
  | unlink b' y =>
    have hb : b ≠ b' := fun hb => hop y (congrArg (Op.unlink · y) hb.symm)
    have hne : n ≠ y := by
      rintro rfl
      rcases kept with hlinked | hheld
      · exact hb (Status.linked.inj (hlinked.symm.trans allowed))
      · exact hheld.ne_linked allowed
    change Chain.next ⟨Function.update h.live b' _ b, _⟩ n = _
    rw [Function.update_of_ne hb]
    change (if n ∈ h.live b then _ else Function.update h.left y _ n) = _
    rw [Function.update_of_ne hne]
    rfl
  | scribble y p =>
    have hne : n ≠ y := kept.ne_of_unused allowed
    change (if n ∈ h.live b then _ else Function.update h.left y p n) = _
    rw [Function.update_of_ne hne]
    rfl
  | enter | leave | alloc | retire | release => rfl

theorem Inv.chain_unlink (inv : h.Inv) (hy : h.status y = .linked b) :
    (h.perform (.unlink b y)).chain b = (h.chain b).unlink y := by
  have hnext : h.next y = (h.chain b).next y := by
    rw [next_of_linked hy]
    exact (Chain.next_of_mem (c := h.chain b) ((inv.linked b y).mpr hy)).symm
  change Chain.mk (Function.update h.live b _ b) (Function.update h.left y (h.next y)) = _
  rw [Function.update_self, hnext]
  rfl

/-- No operation lets a reader that is inside get anywhere new. -/
theorem Inv.reaches_of_perform (inv : h.Inv) (allowed : h.Allowed op)
    (kept : (h.status p).KeptFor r b) (reach : ((h.perform op).chain b).Reaches p x) :
    (h.chain b).Reaches p x := by
  by_cases hop : ∃ y, op = .unlink b y
  · obtain ⟨y, rfl⟩ := hop
    rw [inv.chain_unlink allowed] at reach
    exact reach.of_unlink (inv.nodup b)
  · refine (Chain.reaches_congr fun n hn => ?_).mp reach
    exact next_chain_perform allowed (inv.kept_of_reaches kept hn) (not_exists.mp hop)

/-- A reader that is inside loses a node only when that node is unlinked. -/
theorem Inv.reaches_perform (inv : h.Inv) (allowed : h.Allowed op)
    (kept : (h.status p).KeptFor r b) (reach : (h.chain b).Reaches p x)
    (stays : op ≠ .unlink b x) : ((h.perform op).chain b).Reaches p x := by
  by_cases hop : ∃ y, op = .unlink b y
  · obtain ⟨y, rfl⟩ := hop
    rw [inv.chain_unlink allowed]
    refine reach.unlink (inv.nodup b) ?_
    rintro rfl
    exact stays rfl
  · refine (Chain.reaches_congr fun n hn => ?_).mpr reach
    exact next_chain_perform allowed (inv.kept_of_reaches kept hn) (not_exists.mp hop)

end Heap

end Holding

end Rcu
