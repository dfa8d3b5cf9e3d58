import ReKernelX.Module.UidMemory

/-!
# Looking up a user id while ids change

`rkx_nf_local_in` looks up the user id of every packet, on any number of processors
at once, inside a read-side critical section and without a lock. A lookup may stand
on an entry that has been removed, follow its pointer, and find an entry that was
added after it began.

Its answer is nevertheless one that the table gave at a moment of the lookup, and the
memory it reads is always that of an entry.
-/

set_option autoImplicit false

namespace ReKernelX

open Transition

/-! ### Lookups -/

/-- Of the tables there were from the end of the first `since` calls on, one gives this
answer for the id. -/
def AnsweredSince (hash : UInt32 → Fin 64) (calls : List UidCall) (since : ℕ) (uid : UInt32)
    (answer : Bool) : Prop :=
  ∃ k, since ≤ k ∧ k ≤ calls.length ∧
    rkxNetUidMonitoredRcu hash (UidCall.tableAfter hash (calls.take k)) uid = answer

theorem AnsweredSince.append {hash : UInt32 → Fin 64} {calls : List UidCall} {since : ℕ}
    {uid : UInt32} {answer : Bool} (h : AnsweredSince hash calls since uid answer)
    (more : List UidCall) : AnsweredSince hash (calls ++ more) since uid answer := by
  obtain ⟨k, hsince, hk, hanswer⟩ := h
  refine ⟨k, hsince, ?_, ?_⟩
  · rw [List.length_append]
    omega
  · rwa [List.take_append_of_le_length hk]

section Lookup

variable {ν ρ : Type} [DecidableEq ν] {hash : UInt32 → Fin 64} {m m' : UidMemory ν ρ} {r : ρ}
  {uid : UInt32} {S S' : Bool → Prop} {p : Option ν} {n : ν}

/-- A walk with a pointer `p` ahead of it. `S` stands for the answers that the table has
given since the lookup began: an entry of the id that is ahead is linked or was, and if
none is ahead, then the id was not monitored at some moment. -/
structure Ahead (hash : UInt32 → Fin 64) (m : UidMemory ν ρ) (r : ρ) (uid : UInt32)
    (S : Bool → Prop) (p : Option ν) : Prop where
  kept : ∀ n ∈ p, (m.heap.status n).KeptFor r (hash uid)
  tracked : ∀ x, (m.heap.chain (hash uid)).ReachesFrom p x → m.uid x = uid →
    x ∈ m.heap.live (hash uid) ∨ S true
  missed : S false ∨ ∃ x ∈ m.heap.live (hash uid), m.uid x = uid ∧
    (m.heap.chain (hash uid)).ReachesFrom p x

/-- What is known at each point of a lookup. -/
def UidPoint.Inv (hash : UInt32 → Fin 64) (m : UidMemory ν ρ) (r : ρ) (uid : UInt32)
    (S : Bool → Prop) : UidPoint ν → Prop
  | .head => True
  | .compare p => Ahead hash m r uid S p
  | .next n => Ahead hash m r uid S (some n) ∧ m.uid n ≠ uid
  | .done found => S found

/-- From the head everything linked is ahead. -/
theorem ahead_head (inv : m.heap.Inv) (current : S (rkxNetUidMonitoredRcu hash m.map uid)) :
    Ahead hash m r uid S (m.heap.live (hash uid)).head? where
  kept n hn := .inl ((inv.linked _ n).mp (List.mem_of_mem_head? hn))
  tracked x hx _ := by
    obtain ⟨n, hn, hreach⟩ := hx
    exact .inl (hreach.mem_live (List.mem_of_mem_head? hn))
  missed := by
    cases hnow : rkxNetUidMonitoredRcu hash m.map uid with
    | false =>
      rw [hnow] at current
      exact .inl current
    | true =>
      obtain ⟨x, hx, huid⟩ := UidMemory.monitored_map.mp hnow
      have hreach := Rcu.Chain.reachesFrom_head (c := m.heap.chain (hash uid)) (inv.nodup _) hx
      exact .inr ⟨x, hx, huid, hreach⟩

/-- At the end of the chain, an id that was not met was not monitored. -/
theorem Ahead.absent (ahead : Ahead hash m r uid S none) : S false := by
  rcases ahead.missed with habsent | ⟨x, -, -, n, hn, -⟩
  · exact habsent
  · cases hn

/-- An id that is met was monitored. -/
theorem Ahead.met (ahead : Ahead hash m r uid S (some n)) (huid : m.uid n = uid)
    (current : S (rkxNetUidMonitoredRcu hash m.map uid)) : S true := by
  rcases ahead.tracked n ⟨n, rfl, .refl⟩ huid with hlive | hseen
  · rwa [UidMemory.monitored_map.mpr ⟨n, hlive, huid⟩] at current
  · exact hseen

/-- Stepping over an entry of another id. -/
theorem Ahead.next (ahead : Ahead hash m r uid S (some n)) (inv : m.heap.Inv)
    (other : m.uid n ≠ uid) : Ahead hash m r uid S (m.heap.next n) := by
  have hkept := ahead.kept n rfl
  have hchain := inv.next_chain hkept
  refine ⟨fun x hx => inv.next hkept hx, fun x hx => ?_, ?_⟩
  · obtain ⟨y, hy, hreach⟩ := hx
    exact ahead.tracked x ⟨n, rfl, Rcu.Chain.Reaches.of_next (hchain.trans hy) hreach⟩
  · rcases ahead.missed with habsent | ⟨x, hlive, huid, y, hy, hreach⟩
    · exact .inl habsent
    · obtain rfl : n = y := Option.some.inj hy
      have hne : n ≠ x := by
        rintro rfl
        exact other huid
      obtain ⟨z, hnext, hrest⟩ := hreach.next hne
      exact .inr ⟨x, hlive, huid, z, hchain.symm.trans hnext, hrest⟩

/-- What is known after each step of a lookup. -/
theorem UidPoint.Inv.read {point point' : UidPoint ν} (h : point.Inv hash m r uid S)
    (inv : m.heap.Inv) (current : S (rkxNetUidMonitoredRcu hash m.map uid))
    (hread : m.read hash uid point = some point') : point'.Inv hash m r uid S := by
  cases point with
  | head =>
    obtain rfl := Option.some.inj hread
    exact ahead_head inv current
  | compare p =>
    cases p with
    | none =>
      obtain rfl := Option.some.inj hread
      exact Ahead.absent h
    | some n =>
      obtain rfl := Option.some.inj hread
      split_ifs with huid
      · exact Ahead.met h huid current
      · exact ⟨h, huid⟩
  | next n =>
    obtain rfl := Option.some.inj hread
    exact Ahead.next h.1 inv h.2
  | done found => cases hread

/-! ### Lookups among the steps of others -/

section Change

variable [DecidableEq ρ] {op : Option (Rcu.Op (Fin 64) ν ρ)} {b : Fin 64} {x : ν}

namespace UidMemory.Change

theorem inv (change : m.Change m' op) (inv : m.heap.Inv) : m'.heap.Inv := by
  rw [change.heap]
  cases op with
  | none => exact inv
  | some o => exact inv.perform (change.allowed o rfl)

theorem kept (change : m.Change m' op) (inv : m.heap.Inv) (inside : r ∈ m.heap.inside)
    (stays : op ≠ some (.leave r)) (kept : (m.heap.status n).KeptFor r b) :
    (m'.heap.status n).KeptFor r b := by
  rw [change.heap]
  cases op with
  | none => exact kept
  | some o =>
    have hstays : o ≠ .leave r := fun h => stays (congrArg some h)
    exact kept.perform inv (change.allowed o rfl) hstays inside

theorem reaches_before (change : m.Change m' op) (inv : m.heap.Inv)
    (kept : (m.heap.status n).KeptFor r b) (reach : (m'.heap.chain b).Reaches n x) :
    (m.heap.chain b).Reaches n x := by
  rw [change.heap] at reach
  cases op with
  | none => exact reach
  | some o => exact inv.reaches_of_perform (change.allowed o rfl) kept reach

theorem reaches (change : m.Change m' op) (inv : m.heap.Inv)
    (kept : (m.heap.status n).KeptFor r b) (reach : (m.heap.chain b).Reaches n x)
    (stays : op ≠ some (.unlink b x)) : (m'.heap.chain b).Reaches n x := by
  rw [change.heap]
  cases op with
  | none => exact reach
  | some o =>
    have hstays : o ≠ .unlink b x := fun h => stays (congrArg some h)
    exact inv.reaches_perform (change.allowed o rfl) kept reach hstays

theorem mem_live (change : m.Change m' op) (live : x ∈ m.heap.live b)
    (stays : op ≠ some (.unlink b x)) : x ∈ m'.heap.live b := by
  rw [change.heap]
  cases op with
  | none => exact live
  | some o =>
    have hstays : o ≠ .unlink b x := fun h => stays (congrArg some h)
    exact Rcu.Heap.mem_live_perform live hstays

/-- The id of an entry that a lookup may hold does not change. -/
theorem uid_of_kept (change : m.Change m' op) (kept : (m.heap.status n).KeptFor r b) :
    m'.uid n = m.uid n :=
  change.uid n kept.ne_free.1 kept.ne_free.2

theorem uid_of_linked (change : m.Change m' op) (hn : m.heap.status n = .linked b) :
    m'.uid n = m.uid n := by
  apply change.uid n
  · simp [hn]
  · simp [hn]

/-- After its entry is unlinked an id is not monitored. -/
theorem not_monitored (change : m.Change m' (some (.unlink (hash uid) x))) (inv : m.heap.Inv)
    (keyed : m.map.Inv hash) (live : x ∈ m.heap.live (hash uid)) (huid : m.uid x = uid) :
    rkxNetUidMonitoredRcu hash m'.map uid = false := by
  rw [← Bool.not_eq_true, monitored_map, change.heap]
  rintro ⟨z, hz, hzuid⟩
  change z ∈ Function.update m.heap.live (hash uid) _ (hash uid) at hz
  rw [Function.update_self] at hz
  have hzlive : z ∈ m.heap.live (hash uid) := List.mem_of_mem_erase hz
  rw [change.uid_of_linked ((inv.linked _ z).mp hzlive), ← huid] at hzuid
  rw [eq_of_uid keyed hzlive live hzuid] at hz
  exact (inv.nodup _).not_mem_erase hz

end UidMemory.Change

/-- What is ahead of a lookup stays ahead or is answered for. -/
theorem Ahead.change (ahead : Ahead hash m r uid S p) (change : m.Change m' op)
    (inv : m.heap.Inv) (keyed : m.map.Inv hash) (inside : r ∈ m.heap.inside)
    (stays : op ≠ some (.leave r)) (mono : ∀ v, S v → S' v)
    (current : S (rkxNetUidMonitoredRcu hash m.map uid))
    (current' : S' (rkxNetUidMonitoredRcu hash m'.map uid)) : Ahead hash m' r uid S' p where
  kept n hn := change.kept inv inside stays (ahead.kept n hn)
  tracked x hx huid := by
    obtain ⟨n, hn, hreach⟩ := hx
    have hbefore := change.reaches_before inv (ahead.kept n hn) hreach
    have hkept := inv.kept_of_reaches (ahead.kept n hn) hbefore
    rw [change.uid_of_kept hkept] at huid
    rcases ahead.tracked x ⟨n, hn, hbefore⟩ huid with hlive | hseen
    · by_cases hop : op = some (.unlink (hash uid) x)
      · -- it was linked until now
        rw [UidMemory.monitored_map.mpr ⟨x, hlive, huid⟩] at current
        exact .inr (mono _ current)
      · exact .inl (change.mem_live hlive hop)
    · exact .inr (mono _ hseen)
  missed := by
    rcases ahead.missed with habsent | ⟨x, hlive, huid, n, hn, hreach⟩
    · exact .inl (mono _ habsent)
    by_cases hop : op = some (.unlink (hash uid) x)
    · -- the entry itself is unlinked: now the id is not monitored
      subst hop
      rw [change.not_monitored inv keyed hlive huid] at current'
      exact .inl current'
    · have hkept := inv.kept_of_reaches (ahead.kept n hn) hreach
      refine .inr ⟨x, change.mem_live hlive hop, ?_, n, hn, ?_⟩
      · rw [change.uid_of_kept hkept, huid]
      · exact change.reaches inv (ahead.kept n hn) hreach hop

/-- What is known of a lookup survives the steps of others. -/
theorem UidPoint.Inv.change {point : UidPoint ν} (h : point.Inv hash m r uid S)
    (change : m.Change m' op) (inv : m.heap.Inv) (keyed : m.map.Inv hash)
    (inside : r ∈ m.heap.inside) (stays : op ≠ some (.leave r)) (mono : ∀ v, S v → S' v)
    (current : S (rkxNetUidMonitoredRcu hash m.map uid))
    (current' : S' (rkxNetUidMonitoredRcu hash m'.map uid)) : point.Inv hash m' r uid S' := by
  cases point with
  | head => trivial
  | compare p => exact Ahead.change h change inv keyed inside stays mono current current'
  | next n =>
    refine ⟨Ahead.change h.1 change inv keyed inside stays mono current current', ?_⟩
    rw [change.uid_of_kept (h.1.kept n rfl)]
    exact h.2
  | done found => exact mono found h

end Change

/-- Nothing is lost when there are more answers to refer to. -/
theorem UidPoint.Inv.mono {point : UidPoint ν} (h : point.Inv hash m r uid S)
    (mono : ∀ v, S v → S' v) : point.Inv hash m r uid S' := by
  have hahead : ∀ p, Ahead hash m r uid S p → Ahead hash m r uid S' p := fun p ahead =>
    ⟨ahead.kept, fun x hx huid => (ahead.tracked x hx huid).imp_right (mono true),
      ahead.missed.imp_left (mono false)⟩
  cases point with
  | head => trivial
  | compare p => exact hahead p h
  | next n => exact ⟨hahead _ h.1, h.2⟩
  | done found => exact mono found h

end Lookup

/-! ### Everybody together -/

section World

variable {ν ρ : Type} {hash : UInt32 → Fin 64} {w w' : UidWorld ν ρ}

/-- For one id, what the table shows is the answer after the calls that are over, or
the answer after all calls. -/
theorem UidWriter.Inv.answered {m : UidMemory ν ρ} {s : UidWriter ν} {calls : List UidCall}
    {since done : ℕ} {uid : UInt32}
    (writer : s.Inv hash m (UidCall.tableAfter hash (calls.take done))
      (UidCall.tableAfter hash calls))
    (hsince : since ≤ done) (hdone : done ≤ calls.length) :
    AnsweredSince hash calls since uid (rkxNetUidMonitoredRcu hash m.map uid) := by
  rcases writer.monitored uid with hbefore | hafter
  · exact ⟨done, hsince, hdone, hbefore.symm⟩
  · refine ⟨calls.length, hsince.trans hdone, le_rfl, ?_⟩
    rw [List.take_length]
    exact hafter.symm

namespace UidWorld

theorem completed_of_ne_idle (h : w.writer ≠ .idle) : w.completed = w.calls.length - 1 := by
  unfold completed
  split
  · next hidle => exact absurd hidle h
  · rfl

theorem completed_le (w : UidWorld ν ρ) : w.completed ≤ w.calls.length := by
  unfold completed
  split
  · exact le_rfl
  · exact Nat.sub_le _ _

variable [DecidableEq ν]

/-- The invariant of the table, the calls and the lookups. -/
structure Inv (hash : UInt32 → Fin 64) (w : UidWorld ν ρ) : Prop where
  heap : w.mem.heap.Inv
  writer : w.writer.Inv hash w.mem (UidCall.tableAfter hash (w.calls.take w.completed))
    (UidCall.tableAfter hash w.calls)
  owned : ∀ n, InHand (w.mem.heap.status n) → w.writer.node = some n
  inside : ∀ r, r ∈ w.mem.heap.inside ↔ (w.reader r).isSome
  since : ∀ r l, w.reader r = some l → l.since ≤ w.completed
  reader : ∀ r l, w.reader r = some l →
    l.point.Inv hash w.mem r l.uid (AnsweredSince hash w.calls l.since l.uid)

theorem Inv.keyed (inv : w.Inv hash) : w.mem.map.Inv hash :=
  inv.writer.keyed (UidCall.inv_tableAfter _) (UidCall.inv_tableAfter _)

/-- What the table shows is an answer for every lookup in progress. -/
theorem Inv.current (inv : w.Inv hash) {r : ρ} {l : UidLookup ν} (hr : w.reader r = some l) :
    AnsweredSince hash w.calls l.since l.uid (rkxNetUidMonitoredRcu hash w.mem.map l.uid) :=
  inv.writer.answered (inv.since r l hr) w.completed_le

theorem inv_init (uid : ν → UInt32) (left : ν → Option ν) :
    (init uid left : UidWorld ν ρ).Inv hash where
  heap :=
    { linked := fun b n => ⟨fun h => absurd h List.not_mem_nil, fun h => by cases h⟩
      nodup := fun _ => List.nodup_nil
      inside := fun _ _ _ h => h.elim
      waits := by rintro _ _ _ _ ⟨⟩
      left := fun _ _ _ _ h => h.elim }
  writer := ⟨rfl, rfl⟩
  owned _ h := h.elim
  inside r := ⟨fun h => absurd h (Finset.notMem_empty r), fun h => by cases h⟩
  since := by rintro _ _ ⟨⟩
  reader := by rintro _ _ ⟨⟩

variable [DecidableEq ρ]

/-- Lookups that do not move, when others do. -/
theorem Inv.reader_change (inv : w.Inv hash) {m' : UidMemory ν ρ}
    {op : Option (Rcu.Op (Fin 64) ν ρ)} (change : w.mem.Change m' op) {r : ρ} {l : UidLookup ν}
    (hr : w.reader r = some l) (stays : op ≠ some (.leave r))
    (current' : AnsweredSince hash w.calls l.since l.uid
      (rkxNetUidMonitoredRcu hash m'.map l.uid)) :
    l.point.Inv hash m' r l.uid (AnsweredSince hash w.calls l.since l.uid) := by
  have hinside : r ∈ w.mem.heap.inside := by
    rw [inv.inside, hr]
    rfl
  exact (inv.reader r l hr).change change inv.heap inv.keyed hinside stays (fun _ h => h)
    (inv.current hr) current'

/-- A step that is neither a call's nor a lookup's. -/
theorem Inv.quiet (inv : w.Inv hash) {m' : UidMemory ν ρ} {op : Rcu.Op (Fin 64) ν ρ}
    (quiet : w.mem.Quiet m') (change : w.mem.Change m' (some op))
    (inside : m'.heap.inside = w.mem.heap.inside) (stays : ∀ r, op ≠ .leave r) :
    Inv hash { w with mem := m' } where
  heap := change.inv inv.heap
  writer := inv.writer.quiet quiet inv.heap
  owned n hn := inv.owned n (quiet.inHand n hn)
  inside r := by
    rw [inside]
    exact inv.inside r
  since := inv.since
  reader r l hr := by
    refine inv.reader_change change hr (fun h => stays r (Option.some.inj h)) ?_
    rw [quiet.map_eq inv.heap]
    exact inv.current hr

theorem Inv.readLock (inv : w.Inv hash) {r : ρ} {uid : UInt32}
    (hstep : w.step hash (.readLock r uid) = some w') : w'.Inv hash := by
  rw [step] at hstep
  split at hstep
  · cases hstep
  · next hnone =>
    obtain rfl := Option.some.inj hstep
    have quiet : w.mem.Quiet (w.mem.perform (.enter r)) := UidMemory.quiet_enter r
    have change : w.mem.Change (w.mem.perform (.enter r)) (some (.enter r)) := .perform trivial
    refine ⟨change.inv inv.heap, inv.writer.quiet quiet inv.heap,
      fun n hn => inv.owned n (quiet.inHand n hn), fun x => ?_, fun x l hx => ?_, fun x l hx => ?_⟩
    · change x ∈ insert r w.mem.heap.inside ↔ (Function.update w.reader r _ x).isSome
      rw [Finset.mem_insert, inv.inside]
      by_cases hxr : x = r
      · subst hxr
        rw [Function.update_self]
        exact iff_of_true (.inl rfl) rfl
      · rw [Function.update_of_ne hxr]
        exact or_iff_right hxr
    · change Function.update w.reader r _ x = some l at hx
      by_cases hxr : x = r
      · subst hxr
        rw [Function.update_self] at hx
        obtain rfl := Option.some.inj hx
        exact le_rfl
      · rw [Function.update_of_ne hxr] at hx
        exact inv.since x l hx
    · change Function.update w.reader r _ x = some l at hx
      by_cases hxr : x = r
      · subst hxr
        rw [Function.update_self] at hx
        obtain rfl := Option.some.inj hx
        trivial
      · rw [Function.update_of_ne hxr] at hx
        exact inv.reader_change change hx (by simp) (inv.current hx)

theorem Inv.read (inv : w.Inv hash) {r : ρ} (hstep : w.step hash (.read r) = some w') :
    w'.Inv hash := by
  rw [step] at hstep
  split at hstep
  · cases hstep
  · next l hr =>
    obtain ⟨point, hread, rfl⟩ := Option.map_eq_some_iff.mp hstep
    refine ⟨inv.heap, inv.writer, inv.owned, fun x => ?_, fun x l' hx => ?_, fun x l' hx => ?_⟩
    · change _ ↔ (Function.update w.reader r _ x).isSome
      rw [inv.inside]
      by_cases hxr : x = r
      · rw [hxr, Function.update_self, hr]
        rfl
      · rw [Function.update_of_ne hxr]
    · change Function.update w.reader r _ x = some l' at hx
      by_cases hxr : x = r
      · rw [hxr, Function.update_self] at hx
        obtain rfl := Option.some.inj hx
        exact inv.since r l hr
      · rw [Function.update_of_ne hxr] at hx
        exact inv.since x l' hx
    · change Function.update w.reader r _ x = some l' at hx
      by_cases hxr : x = r
      · subst hxr
        rw [Function.update_self] at hx
        obtain rfl := Option.some.inj hx
        exact (inv.reader x l hr).read inv.heap (inv.current hr) hread
      · rw [Function.update_of_ne hxr] at hx
        exact inv.reader x l' hx

theorem Inv.readUnlock (inv : w.Inv hash) {r : ρ}
    (hstep : w.step hash (.readUnlock r) = some w') : w'.Inv hash := by
  rw [step] at hstep
  split at hstep
  · obtain rfl := Option.some.inj hstep
    have quiet : w.mem.Quiet (w.mem.perform (.leave r)) := UidMemory.quiet_leave r
    have change : w.mem.Change (w.mem.perform (.leave r)) (some (.leave r)) := .perform trivial
    -- the lookups that are left are those of others
    have hother : ∀ x l, Function.update w.reader r none x = some l →
        x ≠ r ∧ w.reader x = some l := by
      intro x l hx
      by_cases hxr : x = r
      · rw [hxr, Function.update_self] at hx
        cases hx
      · rw [Function.update_of_ne hxr] at hx
        exact ⟨hxr, hx⟩
    refine ⟨change.inv inv.heap, inv.writer.quiet quiet inv.heap,
      fun n hn => inv.owned n (quiet.inHand n hn), fun x => ?_,
      fun x l hx => inv.since x l (hother x l hx).2, fun x l hx => ?_⟩
    · change x ∈ w.mem.heap.inside.erase r ↔ (Function.update w.reader r none x).isSome
      rw [Finset.mem_erase, inv.inside]
      by_cases hxr : x = r
      · rw [hxr, Function.update_self]
        exact iff_of_false (fun h => h.1 rfl) (by simp)
      · rw [Function.update_of_ne hxr]
        exact and_iff_right hxr
    · obtain ⟨hxr, hx⟩ := hother x l hx
      refine inv.reader_change change hx (fun h => ?_) (inv.current hx)
      exact hxr (Rcu.Op.leave.inj (Option.some.inj h)).symm
  · cases hstep

theorem Inv.call (inv : w.Inv hash) {c : UidCall} (hstep : w.step hash (.call c) = some w') :
    w'.Inv hash := by
  rw [step] at hstep
  split at hstep
  · next hidle =>
    obtain rfl := Option.some.inj hstep
    have hwriter := inv.writer
    rw [hidle] at hwriter
    have hcompleted : completed { w with writer := .locked c, calls := w.calls ++ [c] } =
        w.calls.length := by
      rw [completed_of_ne_idle (by simp), List.length_append]
      rfl
    refine ⟨inv.heap, ?_, ?_, inv.inside, fun r l hr => ?_, fun r l hr => ?_⟩
    · rw [hcompleted, List.take_left]
      refine ⟨?_, hwriter.2⟩
      rw [UidCall.tableAfter, List.foldl_append]
      rfl
    · have howned := inv.owned
      rw [hidle] at howned
      exact howned
    · rw [hcompleted]
      exact (inv.since r l hr).trans w.completed_le
    · exact (inv.reader r l hr).mono fun _ h => h.append [c]
  · cases hstep

theorem Inv.write (inv : w.Inv hash) {y : ν} (hstep : w.step hash (.write y) = some w') :
    w'.Inv hash := by
  obtain ⟨⟨m', s'⟩, hwrite, rfl⟩ := Option.map_eq_some_iff.mp hstep
  by_cases hunlock : w.writer = .unlock
  · -- the call is over
    have hwriter := inv.writer
    have howned := inv.owned
    rw [hunlock] at hwriter hwrite howned
    obtain ⟨rfl, rfl⟩ := Prod.mk.inj (Option.some.inj hwrite)
    have hcompleted : completed { w with writer := .idle } = w.calls.length := rfl
    refine ⟨inv.heap, ?_, howned, inv.inside, fun r l hr => ?_, inv.reader⟩
    · rw [hcompleted, List.take_length]
      exact ⟨rfl, hwriter⟩
    · rw [hcompleted]
      exact (inv.since r l hr).trans w.completed_le
  · have hwrote := wrote inv.heap inv.writer inv.owned (UidCall.inv_tableAfter _) hunlock hwrite
    have hbusy : w.writer ≠ .idle := by
      intro hidle
      rw [hidle] at hwrite
      cases hwrite
    obtain ⟨op, change, hstays⟩ := inv.writer.change inv.heap hwrite
    have hcompleted : completed { w with mem := m', writer := s' } = w.completed := by
      rw [completed_of_ne_idle hbusy, completed_of_ne_idle hwrote.busy]
    have hwriter : s'.Inv hash m' (UidCall.tableAfter hash (w.calls.take w.completed))
        (UidCall.tableAfter hash w.calls) := hwrote.writer
    refine ⟨change.inv inv.heap, ?_, hwrote.owned, fun r => ?_, fun r l hr => ?_, fun r l hr => ?_⟩
    · rw [hcompleted]
      exact hwriter
    · rw [hwrote.inside]
      exact inv.inside r
    · rw [hcompleted]
      exact inv.since r l hr
    · exact inv.reader_change change hr (hstays r)
        (hwriter.answered (inv.since r l hr) w.completed_le)

/-- Every step keeps the invariant. -/
theorem Inv.step (inv : w.Inv hash) {label : UidLabel ν ρ}
    (hstep : w.step hash label = some w') : w'.Inv hash := by
  cases label with
  | readLock r uid => exact inv.readLock hstep
  | read r => exact inv.read hstep
  | readUnlock r => exact inv.readUnlock hstep
  | call c => exact inv.call hstep
  | write y => exact inv.write hstep
  | release n =>
    rw [UidWorld.step] at hstep
    split at hstep
    · next b holders waitsFor hn =>
      split_ifs at hstep with hempty
      obtain rfl := Option.some.inj hstep
      rw [hempty] at hn
      have allowed : w.mem.heap.Allowed (.release n) := ⟨b, holders, hn⟩
      exact inv.quiet (UidMemory.quiet_release allowed) (.perform allowed) rfl (by simp)
    · cases hstep
  | scribble n uid p =>
    rw [UidWorld.step] at hstep
    split_ifs at hstep with hfree
    obtain rfl := Option.some.inj hstep
    exact inv.quiet (UidMemory.quiet_scribble hfree uid p) (UidMemory.change_scribble hfree uid p)
      rfl (by simp)

theorem inv_of_run {uid : ν → UInt32} {left : ν → Option ν}
    {trace : List (UidLabel ν ρ × UidWorld ν ρ)} (run : UidRun hash uid left trace w) :
    w.Inv hash :=
  run.invariant (inv_init uid left) fun _ _ _ inv hstep => inv.step hstep

end UidWorld

end World

/-! ### What can be relied on -/

section Results

variable {ν ρ : Type}

/-- The call that a label starts. -/
def UidLabel.call? : UidLabel ν ρ → Option UidCall
  | .call c => some c
  | _ => none

variable {hash : UInt32 → Fin 64} {m : UidMemory ν ρ} {n : ν} [DecidableEq ν]

/-- A lookup touches entries only, and only those that it may hold. -/
theorem UidPoint.Inv.kept {point : UidPoint ν} {r : ρ} {uid : UInt32} {S : Bool → Prop}
    (h : point.Inv hash m r uid S) (htouched : point.touched = some n) :
    (m.heap.status n).KeptFor r (hash uid) := by
  cases point with
  | head | done => cases htouched
  | compare p => exact Ahead.kept h n htouched
  | next x =>
    obtain rfl : x = n := Option.some.inj htouched
    exact h.1.kept x rfl

variable [DecidableEq ρ] {uid : ν → UInt32} {left : ν → Option ν}
  {trace : List (UidLabel ν ρ × UidWorld ν ρ)} {w : UidWorld ν ρ}

theorem calls_of_step {w' : UidWorld ν ρ} {label : UidLabel ν ρ}
    (hstep : w.step hash label = some w') :
    w'.calls = w.calls ++ [label].filterMap UidLabel.call? := by
  cases label with
  | call c =>
    rw [UidWorld.step] at hstep
    split at hstep
    · obtain rfl := Option.some.inj hstep
      rfl
    · cases hstep
  | readLock r uid =>
    rw [UidWorld.step] at hstep
    split at hstep
    · cases hstep
    · obtain rfl := Option.some.inj hstep
      exact (List.append_nil _).symm
  | read r =>
    rw [UidWorld.step] at hstep
    split at hstep
    · cases hstep
    · obtain ⟨point, -, rfl⟩ := Option.map_eq_some_iff.mp hstep
      exact (List.append_nil _).symm
  | readUnlock r =>
    rw [UidWorld.step] at hstep
    split at hstep
    · obtain rfl := Option.some.inj hstep
      exact (List.append_nil _).symm
    · cases hstep
  | write y =>
    obtain ⟨next, -, rfl⟩ := Option.map_eq_some_iff.mp hstep
    exact (List.append_nil _).symm
  | release n =>
    rw [UidWorld.step] at hstep
    split at hstep
    · split_ifs at hstep
      obtain rfl := Option.some.inj hstep
      exact (List.append_nil _).symm
    · cases hstep
  | scribble n uid p =>
    rw [UidWorld.step] at hstep
    split_ifs at hstep
    obtain rfl := Option.some.inj hstep
    exact (List.append_nil _).symm

theorem calls_of_run (run : UidRun hash uid left trace w) :
    w.calls = (trace.map Prod.fst).filterMap UidLabel.call? := by
  induction run with
  | nil => rfl
  | snoc _ hstep ih =>
    rw [List.map_append, List.filterMap_append, ← ih]
    exact calls_of_step hstep

/-- **A lookup answers for a moment at which it was in progress.** Whatever else goes on,
its answer is the answer of `rkx_net_uid_monitored_rcu` on the table after some of the
calls, in the order in which they took the mutex: at least those that were over when the
lookup began, and no more than those that have begun when it ends. -/
theorem uid_lookup_answers_for_a_moment (hash : UInt32 → Fin 64) (uid : ν → UInt32)
    (left : ν → Option ν) (trace : List (UidLabel ν ρ × UidWorld ν ρ)) (w : UidWorld ν ρ)
    (r : ρ) (l : UidLookup ν) (found : Bool) (run : UidRun hash uid left trace w)
    (hr : w.reader r = some l) (hdone : l.point = .done found) :
    w.calls = (trace.map Prod.fst).filterMap UidLabel.call? ∧
    ∃ k, l.since ≤ k ∧ k ≤ w.calls.length ∧
      found = rkxNetUidMonitoredRcu hash (UidCall.tableAfter hash (w.calls.take k)) l.uid := by
  have hpoint := (UidWorld.inv_of_run run).reader r l hr
  rw [hdone] at hpoint
  obtain ⟨k, hsince, hk, hanswer⟩ := hpoint
  exact ⟨calls_of_run run, k, hsince, hk, hanswer.symm⟩

theorem next_scribble {p : Option ν} {x : ν} (hne : x ≠ n) :
    (m.perform (.scribble n p)).heap.next x = m.heap.next x := by
  simp only [UidMemory.perform, Rcu.Heap.perform, Rcu.Heap.next, Function.update_of_ne hne]

namespace UidWorld.Inv

omit [DecidableEq ρ] in
/-- What is neither linked nor waiting is in the hands of a call. -/
theorem linked_or_waiting (inv : w.Inv hash) (hidle : w.writer = .idle)
    (hused : w.mem.heap.status n ≠ .free) :
    (∃ b, w.mem.heap.status n = .linked b) ∨
      ∃ b holders waitsFor, w.mem.heap.status n = .waiting b holders waitsFor := by
  have hhand : ¬ InHand (w.mem.heap.status n) := by
    intro hhand
    have hnode := inv.owned n hhand
    rw [hidle] at hnode
    cases hnode
  cases hstatus : w.mem.heap.status n with
  | free => exact absurd hstatus hused
  | fresh =>
    rw [hstatus] at hhand
    exact absurd trivial hhand
  | linked b => exact .inl ⟨b, rfl⟩
  | unlinked b holders =>
    rw [hstatus] at hhand
    exact absurd trivial hhand
  | waiting b holders waitsFor => exact .inr ⟨b, holders, waitsFor, rfl⟩

theorem exists_release (inv : w.Inv hash) (hnone : ∀ r, w.reader r = none) {b : Fin 64}
    {holders waitsFor : Finset ρ} (hn : w.mem.heap.status n = .waiting b holders waitsFor) :
    ∃ w', w.step hash (.release n) = some w' ∧ w'.mem.heap.status n = .free := by
  have hinside : w.mem.heap.inside = ∅ := by
    refine Finset.eq_empty_of_forall_notMem fun r hr => ?_
    rw [inv.inside, hnone r] at hr
    cases hr
  have hempty : waitsFor = ∅ := by
    rw [← Finset.subset_empty, ← hinside]
    exact (inv.heap.waits n b holders waitsFor hn).2
  refine ⟨{ w with mem := w.mem.perform (.release n) }, ?_, Function.update_self ..⟩
  rw [UidWorld.step, hn]
  exact if_pos hempty

/-- What is written to free memory is seen by nobody. -/
theorem scribble_unseen (inv : w.Inv hash) {value : UInt32} {p : Option ν} {w' : UidWorld ν ρ}
    (hstep : w.step hash (.scribble n value p) = some w') :
    (∀ r l, w.reader r = some l →
      w'.mem.read hash l.uid l.point = w.mem.read hash l.uid l.point) ∧
    ∀ y, (w'.mem.write hash y w.writer).map Prod.snd =
      (w.mem.write hash y w.writer).map Prod.snd := by
  rw [UidWorld.step] at hstep
  split_ifs at hstep with hfree
  obtain rfl := Option.some.inj hstep
  -- what is touched is not free, so it is another entry
  have hsame : ∀ x, w.mem.heap.status x ≠ .free →
      ((w.mem.perform (.scribble n p)).store n value).uid x = w.mem.uid x ∧
        ((w.mem.perform (.scribble n p)).store n value).heap.next x = w.mem.heap.next x := by
    intro x hx
    have hne : x ≠ n := by
      rintro rfl
      exact hx hfree
    exact ⟨Function.update_of_ne hne .., next_scribble hne⟩
  constructor
  · intro r l hr
    exact UidMemory.read_congr rfl fun x hx => hsame x ((inv.reader r l hr).kept hx).ne_free.1
  · intro y
    exact UidMemory.write_congr rfl rfl fun x hx => hsame x (inv.writer.used inv.heap hx)

end UidWorld.Inv

/-- **No entry is used after it is freed, none is freed twice, and none is forgotten.**
Lookups read entries that are linked or whose free waits for them; calls link new
entries, unlink linked ones and free unlinked ones, each once; between calls every
entry is linked or waits to be freed; without lookups it does not wait in vain; and what
is written to memory that was freed changes no step of a lookup or of a call. -/
theorem uid_entries_are_reclaimed_safely (hash : UInt32 → Fin 64) (uid : ν → UInt32)
    (left : ν → Option ν) (trace : List (UidLabel ν ρ × UidWorld ν ρ)) (w : UidWorld ν ρ)
    (run : UidRun hash uid left trace w) :
    (∀ r l n, w.reader r = some l → l.point.touched = some n →
      w.mem.heap.status n ≠ .free ∧ w.mem.heap.status n ≠ .fresh) ∧
    (∀ n, w.writer.touched = some n → w.mem.heap.status n ≠ .free) ∧
    (∀ op, w.writer.op hash w.mem = some op → w.mem.heap.Allowed op) ∧
    (w.writer = .idle → ∀ n, w.mem.heap.status n ≠ .free →
      (∃ b, w.mem.heap.status n = .linked b) ∨
        ∃ b holders waitsFor, w.mem.heap.status n = .waiting b holders waitsFor) ∧
    ((∀ r, w.reader r = none) → ∀ n b holders waitsFor,
      w.mem.heap.status n = .waiting b holders waitsFor →
        ∃ w', w.step hash (.release n) = some w' ∧ w'.mem.heap.status n = .free) ∧
    (∀ n value p w', w.step hash (.scribble n value p) = some w' →
      (∀ r l, w.reader r = some l →
        w'.mem.read hash l.uid l.point = w.mem.read hash l.uid l.point) ∧
      ∀ y, (w'.mem.write hash y w.writer).map Prod.snd =
        (w.mem.write hash y w.writer).map Prod.snd) := by
  have inv := UidWorld.inv_of_run run
  refine ⟨fun r l n hr htouched => ((inv.reader r l hr).kept htouched).ne_free, ?_, ?_, ?_, ?_, ?_⟩
  · exact fun n => inv.writer.used inv.heap
  · exact fun op => inv.writer.allowed inv.heap
  · exact fun hidle n => inv.linked_or_waiting hidle
  · exact fun hnone n b holders waitsFor => inv.exists_release hnone
  · exact fun n value p w' => inv.scribble_unseen

end Results

/-! ### A lookup on an entry that is removed -/

/-- An id is added. A lookup of it loads the head of the bucket, then the id is removed,
and the lookup goes on with the entry that it has. -/
def removalLabels : List (UidLabel ℕ ℕ) :=
  [.call (.add 10001 true), .write 0, .write 0, .write 0, .write 0, .write 0,
    .readLock 0 10001, .read 0,
    .call (.del 10001), .write 0, .write 0, .write 0, .write 0, .read 0]

/-- The bucket of every id in this run. -/
def oneBucket : UInt32 → Fin 64 := fun _ => ⟨0, Nat.succ_pos 63⟩

/-- The run with these labels. -/
def removal : List (UidLabel ℕ ℕ × UidWorld ℕ ℕ) × UidWorld ℕ ℕ :=
  follow (fun w a => w.step oneBucket a) (UidWorld.init (fun _ => 0) fun _ => none) removalLabels

theorem removal_run : UidRun oneBucket (fun _ => 0) (fun _ => none) removal.1 removal.2 :=
  run_follow _ _ _

theorem removal_reader : removal.2.reader 0 = some ⟨10001, 1, .done true⟩ := by decide +kernel

/-- The lookup finds the id, which is right for the moment at which it began. -/
theorem uid_lookup_answers_removal :
    ∃ k, 1 ≤ k ∧ k ≤ removal.2.calls.length ∧
      true = rkxNetUidMonitoredRcu oneBucket
        (UidCall.tableAfter oneBucket (removal.2.calls.take k)) 10001 :=
  (uid_lookup_answers_for_a_moment oneBucket _ _ removal.1 removal.2 0 ⟨10001, 1, .done true⟩ true
    removal_run removal_reader rfl).2

/-- Its entry is not freed as long as it is there. -/
theorem uid_entries_reclaimed_removal :
    removal.2.mem.heap.status 0 = .waiting ⟨0, Nat.succ_pos 63⟩ {0} {0} ∧
      ∀ op, removal.2.writer.op oneBucket removal.2.mem = some op →
        removal.2.mem.heap.Allowed op :=
  ⟨by decide +kernel,
    (uid_entries_are_reclaimed_safely oneBucket _ _ removal.1 removal.2 removal_run).2.2.1⟩

end ReKernelX
