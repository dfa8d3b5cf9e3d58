import ReKernelX.Foundation.RcuReclaim
import ReKernelX.Foundation.Transition
import ReKernelX.Module.NetUid

/-!
# The monitored user ids in memory

The table of `NetUid` once more, with addresses, and with the memory of its entries.
Ids are added and removed under the mutex, one call at a time, while lookups go on;
the memory of a removed entry goes back to the allocator when its grace period is
over, and the allocator may give it to anybody.

The writers are followed pointer by pointer, with `hash_del_rcu` and `kfree_rcu` as
steps of their own. Each call takes the table from what it was to what `NetUid` says,
and on the way the table shows every id either as before or as after.
-/

set_option autoImplicit false

namespace ReKernelX

open Transition

/-! ### The code -/

/-- The entries of `rkx_net_uid_map` in memory; `ν` are the addresses, `ρ` the threads. -/
structure UidMemory (ν ρ : Type) where
  heap : Rcu.Heap (Fin 64) ν ρ
  /-- The word at `uid`, whatever it holds. -/
  uid : ν → UInt32

/-- Where a lookup stands, from `rcu_read_lock` to `rcu_read_unlock`. -/
inductive UidPoint (ν : Type)
  /-- Before the head of the bucket is loaded. -/
  | head
  /-- With a pointer to an entry that it has not compared, or null. -/
  | compare (p : Option ν)
  /-- Done with an entry, before its pointer is loaded. -/
  | next (n : ν)
  | done (found : Bool)
  deriving DecidableEq

/-- A lookup in progress. `since` counts the calls that were over when it began. -/
structure UidLookup (ν : Type) where
  uid : UInt32
  since : ℕ
  point : UidPoint ν
  deriving DecidableEq

/-- Where the call that holds the mutex stands. -/
inductive UidWriter (ν : Type)
  /-- Nobody holds the mutex. -/
  | idle
  | locked (call : UidCall)
  /-- `rkx_add_net_uid`, with a pointer to an entry that it has not compared. -/
  | addWalk (uid : UInt32) (kmallocOk : Bool) (p : Option ν)
  /-- With a new entry, before `entry->uid` is stored. -/
  | addFresh (uid : UInt32) (n : ν)
  /-- With a new entry, before `hash_add_rcu`. -/
  | addFilled (uid : UInt32) (n : ν)
  /-- `rkx_del_net_uid`, with a pointer to an entry that it has not compared. -/
  | delWalk (uid : UInt32) (p : Option ν)
  /-- Between `hash_del_rcu` and `kfree_rcu`. -/
  | delUnlinked (n : ν)
  /-- `rkx_destroy_net_uid`, before the head of a bucket is loaded. -/
  | bucket (bkt : ℕ)
  /-- At an entry of the bucket, or at its end. -/
  | entry (bkt : Fin 64) (p : Option ν)
  /-- With the pointer of the entry in `tmp`, before `hash_del_rcu`. -/
  | loaded (bkt : Fin 64) (n : ν) (tmp : Option ν)
  /-- Between `hash_del_rcu` and `kfree_rcu`. -/
  | unlinked (bkt : Fin 64) (n : ν) (tmp : Option ν)
  | unlock

/-- The memory, the call that holds the mutex, the lookups, and all calls that have
taken the mutex so far. -/
structure UidWorld (ν ρ : Type) where
  mem : UidMemory ν ρ
  writer : UidWriter ν
  reader : ρ → Option (UidLookup ν)
  calls : List UidCall

/-- Whose step it is. -/
inductive UidLabel (ν ρ : Type)
  /-- `rcu_read_lock`, for the lookup of an id. -/
  | readLock (r : ρ) (uid : UInt32)
  /-- A step of a lookup. -/
  | read (r : ρ)
  /-- `rcu_read_unlock` -/
  | readUnlock (r : ρ)
  /-- A call takes the mutex. -/
  | call (c : UidCall)
  /-- The call that holds the mutex, with what `kmalloc` returns. -/
  | write (y : ν)
  /-- The grace period of an entry is over and its memory is freed. -/
  | release (n : ν)
  /-- Memory that is free, or that others have, is written to. -/
  | scribble (n : ν) (uid : UInt32) (p : Option ν)

section Code

variable {ν ρ : Type} [DecidableEq ν] [DecidableEq ρ] (hash : UInt32 → Fin 64)

namespace UidMemory

/-- The entries linked in each bucket. -/
def map (m : UidMemory ν ρ) : RkxNetUid := fun b => (m.heap.live b).map fun n => ⟨m.uid n⟩

def perform (m : UidMemory ν ρ) (op : Rcu.Op (Fin 64) ν ρ) : UidMemory ν ρ :=
  { m with heap := m.heap.perform op }

/-- `entry->uid = uid` -/
def store (m : UidMemory ν ρ) (n : ν) (uid : UInt32) : UidMemory ν ρ :=
  { m with uid := Function.update m.uid n uid }

/-- The next step of `rkx_net_uid_monitored_rcu`. -/
def read (m : UidMemory ν ρ) (uid : UInt32) : UidPoint ν → Option (UidPoint ν)
  | .head => some (.compare (m.heap.live (hash uid)).head?)
  | .compare none => some (.done false)
  | .compare (some n) => some (if m.uid n = uid then .done true else .next n)
  | .next n => some (.compare (m.heap.next n))
  | .done _ => none

/-- The next step of the call that holds the mutex; `y` is what `kmalloc` returns, if
it is called. What the call reads of the table is changed by nobody else, so it
compares an entry and loads its pointer in one step. -/
def write (m : UidMemory ν ρ) (y : ν) : UidWriter ν → Option (UidMemory ν ρ × UidWriter ν)
  | .idle => none
  | .locked (.add uid kmallocOk) => some (m, .addWalk uid kmallocOk (m.heap.live (hash uid)).head?)
  | .locked (.del uid) => some (m, .delWalk uid (m.heap.live (hash uid)).head?)
  | .locked .destroy => some (m, .bucket 0)
  | .addWalk uid kmallocOk (some n) =>
    some (m, if m.uid n = uid then .unlock else .addWalk uid kmallocOk (m.heap.next n))
  | .addWalk _ false none => some (m, .unlock)
  | .addWalk uid true none =>
    -- an allocation returns memory that is free
    if m.heap.status y = .free then some (m.perform (.alloc y), .addFresh uid y) else none
  | .addFresh uid n => some (m.store n uid, .addFilled uid n)
  | .addFilled uid n => some (m.perform (.link (hash uid) n), .unlock)
  | .delWalk uid (some n) =>
    if m.uid n = uid then some (m.perform (.unlink (hash uid) n), .delUnlinked n)
    else some (m, .delWalk uid (m.heap.next n))
  | .delWalk _ none => some (m, .unlock)
  | .delUnlinked n => some (m.perform (.retire n), .unlock)
  | .bucket bkt =>
    if h : bkt < 64 then some (m, .entry ⟨bkt, h⟩ (m.heap.live ⟨bkt, h⟩).head?)
    else some (m, .unlock)
  | .entry bkt (some n) => some (m, .loaded bkt n (m.heap.next n))
  | .entry bkt none => some (m, .bucket (bkt + 1))
  | .loaded bkt n tmp => some (m.perform (.unlink bkt n), .unlinked bkt n tmp)
  | .unlinked bkt n tmp => some (m.perform (.retire n), .entry bkt tmp)
  | .unlock => some (m, .idle)

/-- After `rkx_init_net_uid`, with anything in the rest of the memory. -/
def init (uid : ν → UInt32) (left : ν → Option ν) : UidMemory ν ρ :=
  ⟨⟨fun _ => [], left, fun _ => .free, ∅⟩, uid⟩

end UidMemory

namespace UidWorld

def init (uid : ν → UInt32) (left : ν → Option ν) : UidWorld ν ρ :=
  ⟨.init uid left, .idle, fun _ => none, []⟩

/-- The calls that are over. -/
def completed (w : UidWorld ν ρ) : ℕ :=
  match w.writer with
  | .idle => w.calls.length
  | _ => w.calls.length - 1

/-- A step, if there is one. -/
def step (w : UidWorld ν ρ) : UidLabel ν ρ → Option (UidWorld ν ρ)
  | .readLock r uid =>
    match w.reader r with
    | some _ => none
    | none =>
      some { w with
        mem := w.mem.perform (.enter r)
        reader := Function.update w.reader r (some ⟨uid, w.completed, .head⟩) }
  | .read r =>
    match w.reader r with
    | none => none
    | some l =>
      (w.mem.read hash l.uid l.point).map fun point =>
        { w with reader := Function.update w.reader r (some { l with point := point }) }
  | .readUnlock r =>
    match w.reader r with
    | some ⟨_, _, .done _⟩ =>
      some { w with
        mem := w.mem.perform (.leave r)
        reader := Function.update w.reader r none }
    | _ => none
  | .call c =>
    match w.writer with
    | .idle => some { w with writer := .locked c, calls := w.calls ++ [c] }
    | _ => none
  | .write y =>
    (w.mem.write hash y w.writer).map fun next => { w with mem := next.1, writer := next.2 }
  | .release n =>
    match w.mem.heap.status n with
    | .waiting _ _ waitsFor =>
      if waitsFor = ∅ then some { w with mem := w.mem.perform (.release n) } else none
    | _ => none
  | .scribble n uid p =>
    if w.mem.heap.status n = .free then
      some { w with mem := (w.mem.perform (.scribble n p)).store n uid }
    else none

end UidWorld

/-- The runs of lookups and calls, from the state after `rkx_init_net_uid`. -/
abbrev UidRun (uid : ν → UInt32) (left : ν → Option ν) :
    List (UidLabel ν ρ × UidWorld ν ρ) → UidWorld ν ρ → Prop :=
  Run (fun w a w' => w.step hash a = some w') (UidWorld.init uid left)

end Code

/-! ### Writers -/

namespace UidMemory

variable {ν ρ : Type} {hash : UInt32 → Fin 64} {m : UidMemory ν ρ} {b : Fin 64} {n : ν}
  {uid : UInt32} {p : Option ν}

theorem monitored_map : rkxNetUidMonitoredRcu hash m.map uid = true ↔
    ∃ n ∈ m.heap.live (hash uid), m.uid n = uid := by
  rw [rkxNetUidMonitoredRcu, map, List.any_map]
  simp

/-- Of the linked entries of a bucket, one at most has a given id. -/
theorem eq_of_uid (keyed : m.map.Inv hash) {x : ν} (hn : n ∈ m.heap.live b)
    (hx : x ∈ m.heap.live b) (same : m.uid n = m.uid x) : n = x := by
  have hnodup := keyed.nodup b
  rw [map, List.map_map] at hnodup
  exact List.inj_on_of_nodup_map hnodup hn hx same

/-- A walk for an id that has only passed entries of other ids. -/
def Walking (m : UidMemory ν ρ) (b : Fin 64) (uid : UInt32) (p : Option ν) : Prop :=
  ∃ passed rest, m.heap.live b = passed ++ rest ∧ p = rest.head? ∧ ∀ n ∈ passed, m.uid n ≠ uid

theorem walking_head (m : UidMemory ν ρ) (b : Fin 64) (uid : UInt32) :
    m.Walking b uid (m.heap.live b).head? :=
  ⟨[], _, rfl, rfl, List.forall_mem_nil _⟩

theorem Walking.mem_live (walking : m.Walking b uid (some n)) : n ∈ m.heap.live b := by
  obtain ⟨passed, rest, hlive, hp, -⟩ := walking
  rw [hlive]
  exact List.mem_append_right passed (List.mem_of_mem_head? hp.symm)

theorem Walking.not_monitored (walking : m.Walking (hash uid) uid none) :
    rkxNetUidMonitoredRcu hash m.map uid = false := by
  obtain ⟨passed, rest, hlive, hp, hpassed⟩ := walking
  rw [List.head?_eq_none_iff.mp hp.symm, List.append_nil] at hlive
  rw [← Bool.not_eq_true, monitored_map, hlive]
  rintro ⟨n, hn, huid⟩
  exact hpassed n hn huid

variable [DecidableEq ν]

theorem Walking.next (walking : m.Walking b uid (some n)) (inv : m.heap.Inv)
    (other : m.uid n ≠ uid) : m.Walking b uid (m.heap.next n) := by
  have hlinked := (inv.linked b n).mp walking.mem_live
  obtain ⟨passed, rest, hlive, hp, hpassed⟩ := walking
  obtain ⟨rest, rfl⟩ : ∃ tail, rest = n :: tail := List.head?_eq_some_iff.mp hp.symm
  have hnodup := inv.nodup b
  rw [hlive] at hnodup
  have hfirst : n ∉ passed := fun hmem =>
    List.disjoint_of_nodup_append hnodup hmem List.mem_cons_self
  refine ⟨passed ++ [n], rest, ?_, ?_, ?_⟩
  · rw [hlive, List.append_assoc, List.singleton_append]
  · rw [Rcu.Heap.next_of_linked hlinked, hlive, Rcu.succ_append_cons hfirst]
  · exact List.forall_mem_append.mpr ⟨hpassed, List.forall_mem_singleton.mpr other⟩

/-- Storing to an entry that is not linked. -/
theorem map_store (inv : m.heap.Inv) (unlinked : ∀ b, m.heap.status n ≠ .linked b) :
    (m.store n uid).map = m.map := by
  funext b
  apply List.map_congr_left
  intro x hx
  have hne : x ≠ n := by
    rintro rfl
    exact unlinked b ((inv.linked b x).mp hx)
  change RkxUidInfo.mk (Function.update m.uid n uid x) = _
  rw [Function.update_of_ne hne]

variable [DecidableEq ρ]

theorem map_link : (m.perform (.link b n)).map = m.map.addHead b ⟨m.uid n⟩ := by
  funext b'
  change (Function.update m.heap.live b _ b').map _ = Function.update m.map b _ b'
  by_cases hb : b' = b
  · subst hb
    rw [Function.update_self, Function.update_self]
    rfl
  · rw [Function.update_of_ne hb, Function.update_of_ne hb]
    rfl

theorem map_unlink : (m.perform (.unlink b n)).map =
    Function.update m.map b (((m.heap.live b).erase n).map fun n => ⟨m.uid n⟩) := by
  funext b'
  change (Function.update m.heap.live b _ b').map _ = _
  by_cases hb : b' = b
  · subst hb
    rw [Function.update_self, Function.update_self]
    rfl
  · rw [Function.update_of_ne hb, Function.update_of_ne hb]
    rfl

/-- Unlinking the entry of an id is what `rkx_del_net_uid` does. -/
theorem map_unlink_eq_del (keyed : m.map.Inv hash) (linked : n ∈ m.heap.live (hash uid))
    (hn : m.uid n = uid) :
    (m.perform (.unlink (hash uid) n)).map = rkxDelNetUid hash m.map uid := by
  have hfind : (m.heap.live (hash uid)).find? (fun x => decide (m.uid x = uid)) = some n := by
    cases hfind : (m.heap.live (hash uid)).find? (fun x => decide (m.uid x = uid)) with
    | none => exact absurd (decide_eq_true hn) (List.find?_eq_none.mp hfind n linked)
    | some x =>
      have hx : m.uid x = uid := by simpa using List.find?_some hfind
      rw [eq_of_uid keyed (List.mem_of_find?_eq_some hfind) linked (hx.trans hn.symm)]
  have hwalk : Chains.unlinkFirst (fun entry => decide (RkxUidInfo.uid entry = uid))
      (m.map (hash uid)) =
      some (((m.heap.live (hash uid)).erase n).map fun x => ⟨m.uid x⟩) := by
    rw [map, Chains.unlinkFirst_map, hfind]
    rfl
  rw [map_unlink, rkxDelNetUid, hwalk]

/-- What `rkx_destroy_net_uid` has left of a table before bucket `bkt`. -/
structure Swept (m : UidMemory ν ρ) (before : RkxNetUid) (bkt : ℕ) : Prop where
  suffix : ∀ b, m.map b <:+ before b
  empty : ∀ b : Fin 64, b < bkt → m.map b = []

end UidMemory

namespace UidWriter

variable {ν ρ : Type} {hash : UInt32 → Fin 64} {m : UidMemory ν ρ} {before after : RkxNetUid}
  {s : UidWriter ν}

/-- Where the call that holds the mutex has got to, on its way from the table `before`
it to the table `after` it. -/
def Inv (hash : UInt32 → Fin 64) (m : UidMemory ν ρ) (before after : RkxNetUid) :
    UidWriter ν → Prop
  | .idle => before = after ∧ m.map = after
  | .locked call => after = call.run hash before ∧ m.map = before
  | .addWalk uid kmallocOk p =>
    after = rkxAddNetUid hash before uid kmallocOk ∧ m.map = before ∧ m.Walking (hash uid) uid p
  | .addFresh uid n =>
    after = rkxAddNetUid hash before uid true ∧ m.map = before ∧
      m.Walking (hash uid) uid none ∧ m.heap.status n = .fresh
  | .addFilled uid n =>
    after = rkxAddNetUid hash before uid true ∧ m.map = before ∧
      m.Walking (hash uid) uid none ∧ m.heap.status n = .fresh ∧ m.uid n = uid
  | .delWalk uid p =>
    after = rkxDelNetUid hash before uid ∧ m.map = before ∧ m.Walking (hash uid) uid p
  | .delUnlinked n => m.map = after ∧ ∃ b holders, m.heap.status n = .unlinked b holders
  | .bucket bkt => after = rkxInitNetUid ∧ m.Swept before bkt
  | .entry bkt p => after = rkxInitNetUid ∧ m.Swept before bkt ∧ p = (m.heap.live bkt).head?
  | .loaded bkt n tmp =>
    after = rkxInitNetUid ∧ m.Swept before bkt ∧
      ∃ rest, m.heap.live bkt = n :: rest ∧ tmp = rest.head?
  | .unlinked bkt n tmp =>
    after = rkxInitNetUid ∧ m.Swept before bkt ∧ tmp = (m.heap.live bkt).head? ∧
      ∃ b holders, m.heap.status n = .unlinked b holders
  | .unlock => m.map = after

/-- The table is the one before the call, or the one after, or a part of the one before
that is to become empty. -/
theorem Inv.map_cases (inv : s.Inv hash m before after) :
    m.map = before ∨ m.map = after ∨ after = rkxInitNetUid ∧ ∀ b, m.map b <:+ before b := by
  cases s with
  | idle => exact .inr (.inl inv.2)
  | locked call => exact .inl inv.2
  | addWalk uid kmallocOk p => exact .inl inv.2.1
  | addFresh uid n => exact .inl inv.2.1
  | addFilled uid n => exact .inl inv.2.1
  | delWalk uid p => exact .inl inv.2.1
  | delUnlinked n => exact .inr (.inl inv.1)
  | bucket bkt => exact .inr (.inr ⟨inv.1, inv.2.suffix⟩)
  | entry bkt p => exact .inr (.inr ⟨inv.1, inv.2.1.suffix⟩)
  | loaded bkt n tmp => exact .inr (.inr ⟨inv.1, inv.2.1.suffix⟩)
  | unlinked bkt n tmp => exact .inr (.inr ⟨inv.1, inv.2.1.suffix⟩)
  | unlock => exact .inr (.inl inv)

/-- For one id, the table is at every moment the one before the call or the one after. -/
theorem Inv.monitored (inv : s.Inv hash m before after) (uid : UInt32) :
    rkxNetUidMonitoredRcu hash m.map uid = rkxNetUidMonitoredRcu hash before uid ∨
      rkxNetUidMonitoredRcu hash m.map uid = rkxNetUidMonitoredRcu hash after uid := by
  rcases inv.map_cases with hmap | hmap | ⟨rfl, hsuffix⟩
  · rw [hmap]
    exact .inl rfl
  · rw [hmap]
    exact .inr rfl
  · rw [RkxNetUid.monitored_init]
    cases hnow : rkxNetUidMonitoredRcu hash m.map uid with
    | false => exact .inr rfl
    | true =>
      -- an entry that is left was there before
      left
      rw [rkxNetUidMonitoredRcu, List.any_eq_true] at hnow
      obtain ⟨e, he, huid⟩ := hnow
      exact (List.any_eq_true.mpr ⟨e, (hsuffix (hash uid)).subset he, huid⟩).symm

theorem Inv.keyed (inv : s.Inv hash m before after) (hbefore : before.Inv hash)
    (hafter : after.Inv hash) : m.map.Inv hash := by
  rcases inv.map_cases with hmap | hmap | ⟨-, hsuffix⟩
  · rwa [hmap]
  · rwa [hmap]
  · constructor
    · exact fun b e he => hbefore.placed b e ((hsuffix b).subset he)
    · exact fun b => (hbefore.nodup b).sublist ((hsuffix b).sublist.map _)

/-- The entry that is not linked, or linked no more, and still in the hands of the call. -/
def node : UidWriter ν → Option ν
  | .addFresh _ n | .addFilled _ n | .delUnlinked n | .unlinked _ n _ => some n
  | _ => none

end UidWriter

/-! ### What a step touches and does -/

section Touched

variable {ν ρ : Type} {hash : UInt32 → Fin 64} {m m' : UidMemory ν ρ} {before after : RkxNetUid}
  {s s' : UidWriter ν} {n y : ν}

/-- The entry that the next step of a lookup reads. -/
def UidPoint.touched : UidPoint ν → Option ν
  | .compare p => p
  | .next n => some n
  | .head | .done _ => none

/-- The entry that the next step of a call reads or writes. -/
def UidWriter.touched : UidWriter ν → Option ν
  | .addWalk _ _ p | .delWalk _ p | .entry _ p => p
  | .addFresh _ n | .addFilled _ n | .delUnlinked n | .loaded _ n _ | .unlinked _ n _ => some n
  | .idle | .locked _ | .bucket _ | .unlock => none

/-- What the next step of a call does to the lists: `hash_add_rcu`, `hash_del_rcu` or
`kfree_rcu`. -/
def UidWriter.op (hash : UInt32 → Fin 64) (m : UidMemory ν ρ) :
    UidWriter ν → Option (Rcu.Op (Fin 64) ν ρ)
  | .addFilled uid n => some (.link (hash uid) n)
  | .delWalk uid (some n) => if m.uid n = uid then some (.unlink (hash uid) n) else none
  | .loaded bkt n _ => some (.unlink bkt n)
  | .delUnlinked n | .unlinked _ n _ => some (.retire n)
  | _ => none

/-- A call touches entries only. -/
theorem UidWriter.Inv.used (writer : s.Inv hash m before after) (inv : m.heap.Inv)
    (htouched : s.touched = some n) : m.heap.status n ≠ .free := by
  have hlinked : ∀ b, n ∈ m.heap.live b → m.heap.status n ≠ .free := by
    intro b hn
    simp [(inv.linked b n).mp hn]
  cases s with
  | idle | locked | bucket | unlock => cases htouched
  | addWalk uid kmallocOk p =>
    obtain rfl : p = some n := htouched
    exact hlinked _ writer.2.2.mem_live
  | delWalk uid p =>
    obtain rfl : p = some n := htouched
    exact hlinked _ writer.2.2.mem_live
  | entry bkt p =>
    obtain rfl : p = some n := htouched
    exact hlinked _ (List.mem_of_mem_head? writer.2.2.symm)
  | addFresh uid x =>
    obtain rfl : x = n := Option.some.inj htouched
    simp [writer.2.2.2]
  | addFilled uid x =>
    obtain rfl : x = n := Option.some.inj htouched
    simp [writer.2.2.2.1]
  | delUnlinked x =>
    obtain rfl : x = n := Option.some.inj htouched
    obtain ⟨-, b, holders, hx⟩ := writer
    simp [hx]
  | loaded bkt x tmp =>
    obtain rfl : x = n := Option.some.inj htouched
    obtain ⟨-, -, rest, hlive, -⟩ := writer
    refine hlinked bkt ?_
    rw [hlive]
    exact List.mem_cons_self
  | unlinked bkt x tmp =>
    obtain rfl : x = n := Option.some.inj htouched
    obtain ⟨-, -, -, b, holders, hx⟩ := writer
    simp [hx]

/-- A call links new entries, unlinks linked ones, and frees unlinked ones. -/
theorem UidWriter.Inv.allowed (writer : s.Inv hash m before after) (inv : m.heap.Inv)
    {op : Rcu.Op (Fin 64) ν ρ} (hop : s.op hash m = some op) : m.heap.Allowed op := by
  cases s with
  | idle | locked | addWalk | addFresh | bucket | entry | unlock => cases hop
  | addFilled uid x =>
    obtain rfl := Option.some.inj hop
    exact writer.2.2.2.1
  | delWalk uid p =>
    cases p with
    | none => cases hop
    | some x =>
      rw [UidWriter.op] at hop
      split_ifs at hop
      obtain rfl := Option.some.inj hop
      exact (inv.linked _ x).mp writer.2.2.mem_live
  | delUnlinked x =>
    obtain rfl := Option.some.inj hop
    exact writer.2
  | loaded bkt x tmp =>
    obtain rfl := Option.some.inj hop
    obtain ⟨-, -, rest, hlive, -⟩ := writer
    refine (inv.linked bkt x).mp ?_
    rw [hlive]
    exact List.mem_cons_self
  | unlinked bkt x tmp =>
    obtain rfl := Option.some.inj hop
    exact writer.2.2.2

theorem UidWriter.op_ne_leave {r : ρ} : s.op hash m ≠ some (.leave r) := by
  cases s with
  | delWalk uid p =>
    cases p with
    | none => simp [op]
    | some n =>
      rw [op]
      split_ifs
      · simp
      · simp
  | _ => simp [op]

variable [DecidableEq ν]

/-- A lookup depends on the head of its bucket and on the entry that it touches. -/
theorem UidMemory.read_congr {uid : UInt32} {point : UidPoint ν}
    (live : m'.heap.live = m.heap.live)
    (same : ∀ n, point.touched = some n → m'.uid n = m.uid n ∧ m'.heap.next n = m.heap.next n) :
    m'.read hash uid point = m.read hash uid point := by
  cases point with
  | head => rw [read, read, live]
  | compare p =>
    cases p with
    | none => rfl
    | some n => rw [read, read, (same n rfl).1]
  | next n => rw [read, read, (same n rfl).2]
  | done found => rfl

variable [DecidableEq ρ]

/-- Where a call goes on depends on the heads of the buckets, on the entry that it touches,
and on what the allocator has. -/
theorem UidMemory.write_congr (live : m'.heap.live = m.heap.live)
    (status : m'.heap.status y = m.heap.status y)
    (same : ∀ n, s.touched = some n → m'.uid n = m.uid n ∧ m'.heap.next n = m.heap.next n) :
    (m'.write hash y s).map Prod.snd = (m.write hash y s).map Prod.snd := by
  cases s with
  | idle | addFresh | addFilled | delUnlinked | loaded | unlinked | unlock => rfl
  | locked call =>
    cases call with
    | add | del =>
      simp only [write, live]
      rfl
    | destroy => rfl
  | addWalk uid kmallocOk p =>
    cases p with
    | some n =>
      obtain ⟨huid, hnext⟩ := same n rfl
      simp only [write, huid, hnext]
      rfl
    | none =>
      cases kmallocOk with
      | false => rfl
      | true =>
        rw [write, write, status]
        split_ifs
        · rfl
        · rfl
  | delWalk uid p =>
    cases p with
    | none => rfl
    | some n =>
      obtain ⟨huid, hnext⟩ := same n rfl
      rw [write, write, huid, hnext]
      split_ifs
      · rfl
      · rfl
  | bucket bkt =>
    rw [write, write, live]
    split_ifs
    · rfl
    · rfl
  | entry bkt p =>
    cases p with
    | none => rfl
    | some n =>
      simp only [write, (same n rfl).2]
      rfl

/-- What a step of a call does to the memory: its operation on the lists, or an
allocation, or the store to a new entry. -/
theorem UidMemory.write_cases (hwrite : m.write hash y s = some (m', s')) :
    (∃ op, s.op hash m = some op ∧ m' = m.perform op) ∨
      s.op hash m = none ∧
        (m' = m ∨ (m.heap.status y = .free ∧ m' = m.perform (.alloc y)) ∨
          ∃ uid n, s = .addFresh uid n ∧ m' = m.store n uid) := by
  cases s with
  | idle => cases hwrite
  | locked call =>
    cases call with
    | add | del | destroy =>
      obtain ⟨rfl, -⟩ := Prod.mk.inj (Option.some.inj hwrite)
      exact .inr ⟨rfl, .inl rfl⟩
  | addWalk uid kmallocOk p =>
    cases p with
    | some n =>
      obtain ⟨rfl, -⟩ := Prod.mk.inj (Option.some.inj hwrite)
      exact .inr ⟨rfl, .inl rfl⟩
    | none =>
      cases kmallocOk with
      | false =>
        obtain ⟨rfl, -⟩ := Prod.mk.inj (Option.some.inj hwrite)
        exact .inr ⟨rfl, .inl rfl⟩
      | true =>
        -- the only step that asks the allocator
        rw [write] at hwrite
        split_ifs at hwrite with hfree
        obtain ⟨rfl, -⟩ := Prod.mk.inj (Option.some.inj hwrite)
        exact .inr ⟨rfl, .inr (.inl ⟨hfree, rfl⟩)⟩
  | addFresh uid n =>
    obtain ⟨rfl, -⟩ := Prod.mk.inj (Option.some.inj hwrite)
    exact .inr ⟨rfl, .inr (.inr ⟨uid, n, rfl, rfl⟩)⟩
  | addFilled | delUnlinked | loaded | unlinked =>
    obtain ⟨rfl, -⟩ := Prod.mk.inj (Option.some.inj hwrite)
    exact .inl ⟨_, rfl, rfl⟩
  | delWalk uid p =>
    cases p with
    | none =>
      obtain ⟨rfl, -⟩ := Prod.mk.inj (Option.some.inj hwrite)
      exact .inr ⟨rfl, .inl rfl⟩
    | some n =>
      -- a deletion unlinks the entry when it finds it, in the step that compares
      rw [write] at hwrite
      rw [UidWriter.op]
      split_ifs at hwrite ⊢
      · obtain ⟨rfl, -⟩ := Prod.mk.inj (Option.some.inj hwrite)
        exact .inl ⟨_, rfl, rfl⟩
      · obtain ⟨rfl, -⟩ := Prod.mk.inj (Option.some.inj hwrite)
        exact .inr ⟨rfl, .inl rfl⟩
  | bucket bkt =>
    rw [write] at hwrite
    split_ifs at hwrite
    · obtain ⟨rfl, -⟩ := Prod.mk.inj (Option.some.inj hwrite)
      exact .inr ⟨rfl, .inl rfl⟩
    · obtain ⟨rfl, -⟩ := Prod.mk.inj (Option.some.inj hwrite)
      exact .inr ⟨rfl, .inl rfl⟩
  | entry bkt p =>
    cases p with
    | none | some =>
      obtain ⟨rfl, -⟩ := Prod.mk.inj (Option.some.inj hwrite)
      exact .inr ⟨rfl, .inl rfl⟩
  | unlock =>
    obtain ⟨rfl, -⟩ := Prod.mk.inj (Option.some.inj hwrite)
    exact .inr ⟨rfl, .inl rfl⟩

end Touched

/-- A status that an entry only has while a call is at work on it. -/
def InHand {β ρ : Type} : Rcu.Status β ρ → Prop
  | .fresh | .unlinked _ _ => True
  | .free | .linked _ | .waiting _ _ _ => False

section Write

variable {ν ρ : Type} [DecidableEq ν] [DecidableEq ρ] {hash : UInt32 → Fin 64}
  {m m' : UidMemory ν ρ} {before after : RkxNetUid} {w w' : UidWorld ν ρ} {y : ν}

/-- A step as it looks to those who follow pointers: at most one operation on the
entries, and stores to entries that nobody else knows. -/
structure UidMemory.Change (m m' : UidMemory ν ρ) (op : Option (Rcu.Op (Fin 64) ν ρ)) : Prop where
  heap : m'.heap = op.elim m.heap m.heap.perform
  allowed : ∀ o ∈ op, m.heap.Allowed o
  uid : ∀ n, m.heap.status n ≠ .free → m.heap.status n ≠ .fresh → m'.uid n = m.uid n

theorem UidMemory.Change.same (m : UidMemory ν ρ) : m.Change m none :=
  ⟨rfl, by simp, fun _ _ _ => rfl⟩

theorem UidMemory.Change.perform {op : Rcu.Op (Fin 64) ν ρ} (allowed : m.heap.Allowed op) :
    m.Change (m.perform op) (some op) := by
  refine ⟨rfl, ?_, fun _ _ _ => rfl⟩
  rintro _ ⟨⟩
  exact allowed

theorem UidMemory.Change.store {n : ν} {uid : UInt32} (fresh : m.heap.status n = .fresh) :
    m.Change (m.store n uid) none := by
  refine ⟨rfl, by simp, fun x _ hx => ?_⟩
  have hne : x ≠ n := by
    rintro rfl
    exact hx fresh
  exact Function.update_of_ne hne ..

/-- A step of a call is in order. -/
theorem UidWriter.Inv.change {s s' : UidWriter ν} (writer : s.Inv hash m before after)
    (heap : m.heap.Inv) (hwrite : m.write hash y s = some (m', s')) :
    ∃ op, m.Change m' op ∧ ∀ r, op ≠ some (.leave r) := by
  rcases UidMemory.write_cases hwrite with ⟨op, hop, rfl⟩ | ⟨-, rfl | ⟨hfree, rfl⟩ | hstore⟩
  · exact ⟨_, .perform (writer.allowed heap hop), fun r => hop ▸ UidWriter.op_ne_leave⟩
  · exact ⟨none, .same m', by simp⟩
  · exact ⟨_, .perform hfree, by simp⟩
  · obtain ⟨uid, n, rfl, rfl⟩ := hstore
    exact ⟨none, .store writer.2.2.2, by simp⟩

omit [DecidableEq ρ] in
/-- If a call changes the status of an entry, no other entry is in its hands. -/
theorem inHand_of_update {status : ν → Rcu.Status (Fin 64) ρ} {s : Rcu.Status (Fin 64) ρ}
    {node : Option ν} (owned : ∀ x, InHand (status x) → node = some x)
    (hnode : node = none ∨ node = some y) {x : ν} (h : InHand (Function.update status y s x)) :
    x = y ∧ InHand s := by
  by_cases hxy : x = y
  · subst hxy
    rw [Function.update_self] at h
    exact ⟨rfl, h⟩
  · rw [Function.update_of_ne hxy] at h
    have hx := owned x h
    rcases hnode with hnone | hy
    · exact absurd (hx.symm.trans hnone) (Option.some_ne_none x)
    · exact absurd (Option.some.inj (hx.symm.trans hy)) hxy

/-- What a step of the call that holds the mutex does, up to its release. -/
structure Wrote (hash : UInt32 → Fin 64) (before after : RkxNetUid) (m m' : UidMemory ν ρ)
    (s' : UidWriter ν) : Prop where
  writer : s'.Inv hash m' before after
  owned : ∀ n, InHand (m'.heap.status n) → s'.node = some n
  busy : s' ≠ .idle
  inside : m'.heap.inside = m.heap.inside

omit [DecidableEq ν] [DecidableEq ρ] in
/-- A step that only moves on. -/
theorem Wrote.same {s' : UidWriter ν} (owned : ∀ n, ¬ InHand (m.heap.status n))
    (busy : s' ≠ .idle) (writer : s'.Inv hash m before after) :
    Wrote hash before after m m s' where
  writer := writer
  owned n hn := absurd hn (owned n)
  busy := busy
  inside := rfl

theorem rkxDelNetUid_of_not_monitored {t : RkxNetUid} {uid : UInt32}
    (absent : rkxNetUidMonitoredRcu hash t uid = false) : rkxDelNetUid hash t uid = t := by
  have hnone := Chains.unlinkFirst_eq_none_iff.mpr (RkxNetUid.held_eq_none_of_not_monitored absent)
  rw [rkxDelNetUid, hnone]

namespace UidMemory

variable {b : Fin 64} {n : ν} {rest : List ν}

omit [DecidableEq ν] [DecidableEq ρ] in
theorem map_eq_nil (h : m.heap.live b = []) : m.map b = [] := by
  rw [map, h, List.map_nil]

omit [DecidableEq ν] [DecidableEq ρ] in
/-- When the last bucket is done, nothing is left. -/
theorem Swept.map_eq (swept : m.Swept before 64) : m.map = rkxInitNetUid :=
  funext fun b => swept.empty b b.isLt

omit [DecidableEq ν] [DecidableEq ρ] in
theorem Swept.next_bucket (swept : m.Swept before b) (done : m.heap.live b = []) :
    m.Swept before (b + 1) where
  suffix := swept.suffix
  empty b' hb' := by
    rcases Nat.lt_succ_iff_lt_or_eq.mp hb' with hlt | heq
    · exact swept.empty b' hlt
    · rw [Fin.ext heq]
      exact map_eq_nil done

/-- Unlinking the first entry of a bucket that is being emptied. -/
theorem Swept.unlink (swept : m.Swept before b) (hlive : m.heap.live b = n :: rest) :
    (m.perform (.unlink b n)).Swept before b ∧
      (m.perform (.unlink b n)).heap.live b = rest := by
  have hrest : (m.heap.live b).erase n = rest := by
    rw [hlive, List.erase_cons_head]
  refine ⟨⟨fun b' => ?_, fun b' hb' => ?_⟩, ?_⟩
  · rw [map_unlink, hrest]
    by_cases hb : b' = b
    · subst hb
      rw [Function.update_self]
      refine List.IsSuffix.trans ?_ (swept.suffix b')
      rw [map, hlive, List.map_cons]
      exact List.suffix_cons _ _
    · rw [Function.update_of_ne hb]
      exact swept.suffix b'
  · have hb : b' ≠ b := by
      rintro rfl
      exact Nat.lt_irrefl _ hb'
    rw [map_unlink, Function.update_of_ne hb]
    exact swept.empty b' hb'
  · change Function.update m.heap.live b _ b = rest
    rw [Function.update_self, hrest]

end UidMemory

/-- An addition of an id that is there changes nothing. -/
theorem rkxAddNetUid_of_monitored {t : RkxNetUid} {uid : UInt32} {kmallocOk : Bool}
    (present : rkxNetUidMonitoredRcu hash t uid = true) :
    rkxAddNetUid hash t uid kmallocOk = t := by
  rcases RkxNetUid.add_cases t uid kmallocOk with ⟨-, h⟩ | ⟨habsent, -⟩ | ⟨habsent, -⟩
  · exact h
  · exact absurd (present.symm.trans habsent) Bool.noConfusion
  · exact absurd (present.symm.trans habsent) Bool.noConfusion

/-- An addition of an id that is not there links an entry, if there is memory. -/
theorem rkxAddNetUid_of_not_monitored {t : RkxNetUid} {uid : UInt32} {kmallocOk : Bool}
    (absent : rkxNetUidMonitoredRcu hash t uid = false) :
    rkxAddNetUid hash t uid kmallocOk = if kmallocOk then t.addHead (hash uid) ⟨uid⟩ else t := by
  rcases RkxNetUid.add_cases t uid kmallocOk with ⟨hpresent, -⟩ | ⟨-, hok, h⟩ | ⟨-, hok, h⟩
  · exact absurd (absent.symm.trans hpresent) Bool.noConfusion
  · rw [h, hok, if_pos rfl]
  · rw [h, hok]
    rfl

section Wrote

variable {s s' : UidWriter ν} {uid : UInt32} {n : ν} {bkt : Fin 64} {p tmp : Option ν}

/-- `kmalloc` in `rkx_add_net_uid` -/
theorem wrote_alloc (writer : (UidWriter.addWalk uid true none).Inv hash m before after)
    (owned : ∀ x, ¬ InHand (m.heap.status x))
    (hwrite : m.write hash y (.addWalk uid true none) = some (m', s')) :
    Wrote hash before after m m' s' := by
  obtain ⟨hafter, hmap, walking⟩ := writer
  rw [UidMemory.write] at hwrite
  split_ifs at hwrite
  obtain ⟨rfl, rfl⟩ := Prod.mk.inj (Option.some.inj hwrite)
  refine ⟨⟨hafter, hmap, walking, ?_⟩, fun x hx => ?_, by simp, rfl⟩
  · exact Function.update_self ..
  · rw [(inHand_of_update (fun x hx => absurd hx (owned x)) (.inl rfl) hx).1]
    rfl

omit [DecidableEq ρ] in
/-- `entry->uid = uid` in `rkx_add_net_uid` -/
theorem wrote_store (heap : m.heap.Inv)
    (writer : (UidWriter.addFresh uid n).Inv hash m before after)
    (owned : ∀ x, InHand (m.heap.status x) → some n = some x) :
    Wrote hash before after m (m.store n uid) (.addFilled uid n) := by
  obtain ⟨hafter, hmap, walking, hfresh⟩ := writer
  have hunlinked : ∀ b, m.heap.status n ≠ .linked b := by
    intro b
    simp [hfresh]
  refine ⟨⟨hafter, ?_, ?_, hfresh, ?_⟩, owned, by simp, rfl⟩
  · rw [UidMemory.map_store heap hunlinked, hmap]
  · -- the new entry is not linked, so the walk has not passed it
    obtain ⟨passed, rest, hlive, hp, hpassed⟩ := walking
    refine ⟨passed, rest, hlive, hp, fun x hx => ?_⟩
    have hne : x ≠ n := by
      rintro rfl
      have hmem : x ∈ m.heap.live (hash uid) := hlive ▸ List.mem_append_left rest hx
      exact hunlinked _ ((heap.linked _ x).mp hmem)
    change Function.update m.uid n uid x ≠ uid
    rw [Function.update_of_ne hne]
    exact hpassed x hx
  · exact Function.update_self ..

/-- `hash_add_rcu` in `rkx_add_net_uid` -/
theorem wrote_link (writer : (UidWriter.addFilled uid n).Inv hash m before after)
    (owned : ∀ x, InHand (m.heap.status x) → some n = some x) :
    Wrote hash before after m (m.perform (.link (hash uid) n)) .unlock := by
  obtain ⟨hafter, hmap, walking, hfresh, huid⟩ := writer
  refine ⟨?_, fun x hx => ?_, by simp, rfl⟩
  · have habsent := walking.not_monitored
    rw [hmap] at habsent
    change UidMemory.map _ = after
    rw [hafter, rkxAddNetUid_of_not_monitored habsent, if_pos rfl, UidMemory.map_link, hmap, huid]
  · exact (inHand_of_update owned (.inr rfl) hx).2.elim

/-- `hash_del_rcu` in `rkx_del_net_uid` -/
theorem wrote_unlink (keyed : before.Inv hash)
    (writer : (UidWriter.delWalk uid (some n)).Inv hash m before after)
    (owned : ∀ x, ¬ InHand (m.heap.status x)) (huid : m.uid n = uid) :
    Wrote hash before after m (m.perform (.unlink (hash uid) n)) (.delUnlinked n) := by
  obtain ⟨rfl, rfl, walking⟩ := writer
  refine ⟨⟨?_, hash uid, m.heap.inside, ?_⟩, fun x hx => ?_, by simp, rfl⟩
  · exact UidMemory.map_unlink_eq_del keyed walking.mem_live huid
  · exact Function.update_self ..
  · rw [(inHand_of_update (fun x hx => absurd hx (owned x)) (.inl rfl) hx).1]
    rfl

/-- `hash_del_rcu` in `rkx_destroy_net_uid` -/
theorem wrote_sweep (writer : (UidWriter.loaded bkt n tmp).Inv hash m before after)
    (owned : ∀ x, ¬ InHand (m.heap.status x)) :
    Wrote hash before after m (m.perform (.unlink bkt n)) (.unlinked bkt n tmp) := by
  obtain ⟨hafter, swept, rest, hlive, rfl⟩ := writer
  obtain ⟨hswept, hrest⟩ := swept.unlink hlive
  refine ⟨⟨hafter, hswept, ?_, bkt, m.heap.inside, ?_⟩, fun x hx => ?_, by simp, rfl⟩
  · rw [hrest]
  · exact Function.update_self ..
  · rw [(inHand_of_update (fun x hx => absurd hx (owned x)) (.inl rfl) hx).1]
    rfl

/-- `kfree_rcu`, in `rkx_del_net_uid` or `rkx_destroy_net_uid` -/
theorem wrote_retire (unlinked : ∃ b holders, m.heap.status n = .unlinked b holders)
    (owned : ∀ x, InHand (m.heap.status x) → some n = some x) (busy : s' ≠ .idle)
    (writer : s'.Inv hash (m.perform (.retire n)) before after) :
    Wrote hash before after m (m.perform (.retire n)) s' := by
  refine ⟨writer, fun x hx => ?_, busy, rfl⟩
  obtain ⟨b, holders, hn⟩ := unlinked
  have hhand := (inHand_of_update owned (.inr rfl) hx).2
  rw [Rcu.Heap.retired_of_unlinked hn] at hhand
  exact hhand.elim

/-- A step of the call that holds the mutex, up to its release. -/
theorem wrote (heap : m.heap.Inv) (writer : s.Inv hash m before after)
    (owned : ∀ n, InHand (m.heap.status n) → s.node = some n) (keyed : before.Inv hash)
    (hunlock : s ≠ .unlock) (hwrite : m.write hash y s = some (m', s')) :
    Wrote hash before after m m' s' := by
  -- while it has no entry in its hands, there is none
  have hnone : s.node = none → ∀ x, ¬ InHand (m.heap.status x) := by
    intro hnode x hx
    exact absurd ((owned x hx).symm.trans hnode) (Option.some_ne_none x)
  cases s with
  | idle => cases hwrite
  | locked call =>
    obtain ⟨rfl, hmap⟩ := writer
    cases call with
    | add uid kmallocOk =>
      obtain ⟨rfl, rfl⟩ := Prod.mk.inj (Option.some.inj hwrite)
      exact .same (hnone rfl) (by simp) ⟨rfl, hmap, m.walking_head _ uid⟩
    | del uid =>
      obtain ⟨rfl, rfl⟩ := Prod.mk.inj (Option.some.inj hwrite)
      exact .same (hnone rfl) (by simp) ⟨rfl, hmap, m.walking_head _ uid⟩
    | destroy =>
      obtain ⟨rfl, rfl⟩ := Prod.mk.inj (Option.some.inj hwrite)
      refine .same (hnone rfl) (by simp)
        ⟨RkxNetUid.rkxDestroyNetUid_eq_init before, fun b => ?_, ?_⟩
      · rw [← hmap]
      · exact fun b hb => absurd hb (Nat.not_lt_zero _)
  | addWalk uid kmallocOk p =>
    cases p with
    | some n =>
      obtain ⟨rfl, rfl, walking⟩ := writer
      obtain ⟨rfl, rfl⟩ := Prod.mk.inj (Option.some.inj hwrite)
      by_cases huid : m.uid n = uid
      · rw [if_pos huid]
        have hpresent : rkxNetUidMonitoredRcu hash m.map uid = true :=
          UidMemory.monitored_map.mpr ⟨n, walking.mem_live, huid⟩
        refine .same (hnone rfl) (by simp) ?_
        exact (rkxAddNetUid_of_monitored hpresent).symm
      · rw [if_neg huid]
        exact .same (hnone rfl) (by simp) ⟨rfl, rfl, walking.next heap huid⟩
    | none =>
      cases kmallocOk with
      | false =>
        obtain ⟨rfl, rfl, walking⟩ := writer
        obtain ⟨rfl, rfl⟩ := Prod.mk.inj (Option.some.inj hwrite)
        refine .same (hnone rfl) (by simp) ?_
        change m.map = rkxAddNetUid hash m.map uid false
        rw [rkxAddNetUid_of_not_monitored walking.not_monitored]
        rfl
      | true => exact wrote_alloc writer (hnone rfl) hwrite
  | addFresh uid n =>
    obtain ⟨rfl, rfl⟩ := Prod.mk.inj (Option.some.inj hwrite)
    exact wrote_store heap writer owned
  | addFilled uid n =>
    obtain ⟨rfl, rfl⟩ := Prod.mk.inj (Option.some.inj hwrite)
    exact wrote_link writer owned
  | delWalk uid p =>
    cases p with
    | none =>
      obtain ⟨rfl, rfl, walking⟩ := writer
      obtain ⟨rfl, rfl⟩ := Prod.mk.inj (Option.some.inj hwrite)
      refine .same (hnone rfl) (by simp) ?_
      exact (rkxDelNetUid_of_not_monitored walking.not_monitored).symm
    | some n =>
      rw [UidMemory.write] at hwrite
      split_ifs at hwrite with huid
      · obtain ⟨rfl, rfl⟩ := Prod.mk.inj (Option.some.inj hwrite)
        exact wrote_unlink keyed writer (hnone rfl) huid
      · obtain ⟨rfl, rfl, walking⟩ := writer
        obtain ⟨rfl, rfl⟩ := Prod.mk.inj (Option.some.inj hwrite)
        exact .same (hnone rfl) (by simp) ⟨rfl, rfl, walking.next heap huid⟩
  | delUnlinked n =>
    obtain ⟨rfl, rfl⟩ := Prod.mk.inj (Option.some.inj hwrite)
    exact wrote_retire writer.2 owned (by simp) writer.1
  | bucket bkt =>
    obtain ⟨hafter, swept⟩ := writer
    rw [UidMemory.write] at hwrite
    split_ifs at hwrite with hbkt
    · obtain ⟨rfl, rfl⟩ := Prod.mk.inj (Option.some.inj hwrite)
      exact .same (hnone rfl) (by simp) ⟨hafter, swept, rfl⟩
    · obtain ⟨rfl, rfl⟩ := Prod.mk.inj (Option.some.inj hwrite)
      refine .same (hnone rfl) (by simp) ?_
      rw [hafter]
      exact UidMemory.Swept.map_eq ⟨swept.suffix, fun b _ => swept.empty b (by omega)⟩
  | entry bkt p =>
    obtain ⟨hafter, swept, rfl⟩ := writer
    cases hlive : m.heap.live bkt with
    | nil =>
      rw [hlive] at hwrite
      obtain ⟨rfl, rfl⟩ := Prod.mk.inj (Option.some.inj hwrite)
      exact .same (hnone rfl) (by simp) ⟨hafter, swept.next_bucket hlive⟩
    | cons x rest =>
      rw [hlive] at hwrite
      obtain ⟨rfl, rfl⟩ := Prod.mk.inj (Option.some.inj hwrite)
      have hlinked : m.heap.status x = .linked bkt := by
        rw [← heap.linked, hlive]
        exact List.mem_cons_self
      refine .same (hnone rfl) (by simp) ⟨hafter, swept, rest, hlive, ?_⟩
      rw [Rcu.Heap.next_of_linked hlinked, hlive]
      exact if_pos rfl
  | loaded bkt n tmp =>
    obtain ⟨rfl, rfl⟩ := Prod.mk.inj (Option.some.inj hwrite)
    exact wrote_sweep writer (hnone rfl)
  | unlinked bkt n tmp =>
    obtain ⟨rfl, rfl⟩ := Prod.mk.inj (Option.some.inj hwrite)
    obtain ⟨hafter, swept, htmp, hunlinked⟩ := writer
    refine wrote_retire hunlinked owned (by simp) ⟨hafter, ?_, htmp⟩
    exact ⟨swept.suffix, swept.empty⟩
  | unlock => exact absurd rfl hunlock

end Wrote

end Write

/-! ### The steps of others -/

section Others

variable {ν ρ : Type} {hash : UInt32 → Fin 64} {m m' : UidMemory ν ρ} {before after : RkxNetUid}
  {s : UidWriter ν}

/-- A step that is not the call's: it neither links nor unlinks, and leaves alone what
the call has in its hands. -/
structure UidMemory.Quiet (m m' : UidMemory ν ρ) : Prop where
  live : m'.heap.live = m.heap.live
  uid : ∀ n, m.heap.status n ≠ .free → m'.uid n = m.uid n
  fresh : ∀ n, m.heap.status n = .fresh → m'.heap.status n = .fresh
  unlinked : ∀ n b holders, m.heap.status n = .unlinked b holders →
    ∃ holders', m'.heap.status n = .unlinked b holders'
  inHand : ∀ n, InHand (m'.heap.status n) → InHand (m.heap.status n)

namespace UidMemory

theorem Quiet.map_eq (quiet : m.Quiet m') (inv : m.heap.Inv) : m'.map = m.map := by
  funext b
  rw [map, quiet.live]
  apply List.map_congr_left
  intro n hn
  have hused : m.heap.status n ≠ .free := by
    simp [(inv.linked b n).mp hn]
  rw [quiet.uid n hused]

theorem Quiet.walking (quiet : m.Quiet m') (inv : m.heap.Inv) {b : Fin 64} {uid : UInt32}
    {p : Option ν} (walking : m.Walking b uid p) : m'.Walking b uid p := by
  obtain ⟨passed, rest, hlive, hp, hpassed⟩ := walking
  refine ⟨passed, rest, ?_, hp, fun n hn => ?_⟩
  · rw [quiet.live, hlive]
  · have hmem : n ∈ m.heap.live b := hlive ▸ List.mem_append_left rest hn
    have hused : m.heap.status n ≠ .free := by
      simp [(inv.linked b n).mp hmem]
    rw [quiet.uid n hused]
    exact hpassed n hn

theorem Quiet.swept (quiet : m.Quiet m') (inv : m.heap.Inv) {bkt : ℕ}
    (swept : m.Swept before bkt) : m'.Swept before bkt := by
  have hmap := quiet.map_eq inv
  constructor
  · rw [hmap]
    exact swept.suffix
  · rw [hmap]
    exact swept.empty

end UidMemory

/-- Others do not get in the way of the call that holds the mutex. -/
theorem UidWriter.Inv.quiet (writer : s.Inv hash m before after) (quiet : m.Quiet m')
    (inv : m.heap.Inv) : s.Inv hash m' before after := by
  have hmap := quiet.map_eq inv
  cases s with
  | idle => exact ⟨writer.1, hmap.trans writer.2⟩
  | locked call => exact ⟨writer.1, hmap.trans writer.2⟩
  | addWalk uid kmallocOk p =>
    obtain ⟨hafter, hbefore, walking⟩ := writer
    exact ⟨hafter, hmap.trans hbefore, quiet.walking inv walking⟩
  | addFresh uid n =>
    obtain ⟨hafter, hbefore, walking, hfresh⟩ := writer
    exact ⟨hafter, hmap.trans hbefore, quiet.walking inv walking, quiet.fresh n hfresh⟩
  | addFilled uid n =>
    obtain ⟨hafter, hbefore, walking, hfresh, huid⟩ := writer
    have hused : m.heap.status n ≠ .free := by
      simp [hfresh]
    exact ⟨hafter, hmap.trans hbefore, quiet.walking inv walking, quiet.fresh n hfresh,
      (quiet.uid n hused).trans huid⟩
  | delWalk uid p =>
    obtain ⟨hafter, hbefore, walking⟩ := writer
    exact ⟨hafter, hmap.trans hbefore, quiet.walking inv walking⟩
  | delUnlinked n =>
    obtain ⟨hafter, b, holders, hn⟩ := writer
    exact ⟨hmap.trans hafter, b, quiet.unlinked n b holders hn⟩
  | bucket bkt => exact ⟨writer.1, quiet.swept inv writer.2⟩
  | entry bkt p =>
    obtain ⟨hafter, swept, hp⟩ := writer
    refine ⟨hafter, quiet.swept inv swept, ?_⟩
    rwa [quiet.live]
  | loaded bkt n tmp =>
    obtain ⟨hafter, swept, hrest⟩ := writer
    refine ⟨hafter, quiet.swept inv swept, ?_⟩
    rwa [quiet.live]
  | unlinked bkt n tmp =>
    obtain ⟨hafter, swept, htmp, b, holders, hn⟩ := writer
    refine ⟨hafter, quiet.swept inv swept, ?_, b, quiet.unlinked n b holders hn⟩
    rwa [quiet.live]
  | unlock => exact hmap.trans writer

namespace UidMemory

variable [DecidableEq ν] [DecidableEq ρ]

theorem quiet_enter (r : ρ) : m.Quiet (m.perform (.enter r)) :=
  ⟨rfl, fun _ _ => rfl, fun _ h => h, fun _ _ holders h => ⟨holders, h⟩, fun _ h => h⟩

theorem quiet_leave (r : ρ) : m.Quiet (m.perform (.leave r)) where
  live := rfl
  uid _ _ := rfl
  fresh n hn := by
    change (m.heap.status n).drop r = .fresh
    rw [hn]
    rfl
  unlinked n b holders hn := by
    refine ⟨holders.erase r, ?_⟩
    change (m.heap.status n).drop r = _
    rw [hn]
    rfl
  inHand n hn := by
    change InHand ((m.heap.status n).drop r) at hn
    cases hstatus : m.heap.status n with
    | fresh | unlinked => trivial
    | free | linked | waiting =>
      rw [hstatus] at hn
      exact hn

theorem quiet_release {n : ν} (allowed : m.heap.Allowed (.release n)) :
    m.Quiet (m.perform (.release n)) := by
  obtain ⟨b, holders, hn⟩ := allowed
  -- the entry that is freed was in nobody's hands
  have hne : ∀ x, InHand (m.heap.status x) → x ≠ n := by
    rintro x hx rfl
    rw [hn] at hx
    exact hx
  refine ⟨rfl, fun _ _ => rfl, fun x hx => ?_, fun x b' holders' hx => ⟨holders', ?_⟩,
    fun x hx => ?_⟩
  · have hxn := hne x (by rw [hx]; trivial)
    exact (Function.update_of_ne hxn ..).trans hx
  · have hxn := hne x (by rw [hx]; trivial)
    exact (Function.update_of_ne hxn ..).trans hx
  · change InHand (Function.update m.heap.status n .free x) at hx
    by_cases hxn : x = n
    · rw [hxn, Function.update_self] at hx
      exact hx.elim
    · rwa [Function.update_of_ne hxn] at hx

/-- Memory that is not an entry is written to. -/
theorem quiet_scribble {n : ν} (free : m.heap.status n = .free) (uid : UInt32) (p : Option ν) :
    m.Quiet ((m.perform (.scribble n p)).store n uid) := by
  refine ⟨rfl, fun x hx => ?_, fun _ h => h, fun _ _ holders h => ⟨holders, h⟩, fun _ h => h⟩
  have hne : x ≠ n := by
    rintro rfl
    exact hx free
  exact Function.update_of_ne hne ..

theorem change_scribble {n : ν} (free : m.heap.status n = .free) (uid : UInt32) (p : Option ν) :
    m.Change ((m.perform (.scribble n p)).store n uid) (some (.scribble n p)) where
  heap := rfl
  allowed := by
    rintro _ ⟨⟩
    exact .inl free
  uid x hx _ := (quiet_scribble free uid p).uid x hx

end UidMemory

end Others

end ReKernelX
