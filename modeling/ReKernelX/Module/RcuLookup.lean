import ReKernelX.Foundation.Transition
import ReKernelX.Module.RcuTable

/-!
# Looking up a rule while rules change

`rkx_free_async_lookup_rcu` takes no lock. While it checks the counter, loads the
head of a bucket and follows pointers, adds and deletes go on, one at a time,
under the mutex. This module has both sides step by step, on a table whose entries
have addresses, so that a lookup can stand on an entry that has been unlinked.

The lookup reads two keys, the exact one and the wildcard, at different moments.
Each key is answered for a moment during the lookup: what is not met was absent
at some moment, and what is met was in force at some moment. If not both keys
change in the meantime, that is the answer of the table at a single moment. If
both do, it need not be.
-/

set_option autoImplicit false

namespace ReKernelX

open Bytes Transition

section Code

variable (jhash : List UInt8 → UInt32)

/-! ### The reader -/

/-- Where `rkx_free_async_lookup_rcu` stands. `wild` is `wild_strategy`, with zero
for "not met". -/
inductive Reader
  | idle
  /-- Before `rkx_free_async_has_entries`. -/
  | count
  /-- Before the head of the bucket is loaded. -/
  | head
  /-- With a pointer to an entry that it has not compared, or null. -/
  | compare (p : Option ℕ) (wild : UInt8)
  /-- At the entry for the exact code, before its strategy is loaded. -/
  | loadExact (n : ℕ) (wild : UInt8)
  /-- At the wildcard entry, before its strategy is loaded. -/
  | loadWild (n : ℕ)
  /-- Done with an entry, before its pointer is loaded. -/
  | next (n : ℕ) (wild : UInt8)
  | done (result : Option UInt8)
  deriving DecidableEq

/-- Between its start and its end. -/
def Reader.Running : Reader → Prop
  | .idle | .done _ => False
  | _ => True

instance (r : Reader) : Decidable r.Running := by
  cases r <;> unfold Reader.Running <;> infer_instance

/-- What is returned for the values of `exact_strategy` and `wild_strategy`. -/
def lookupResult (exactStrategy wildStrategy : UInt8) : Option UInt8 :=
  if exactStrategy ≠ 0 then some exactStrategy
  else if wildStrategy ≠ 0 then some wildStrategy
  else none

-- The arguments of the lookup.
variable (rpcName : CString) (code : Int32)

/-- The next step of the lookup. -/
def RcuTable.read (t : RcuTable) : Reader → Option Reader
  | .idle => some .count
  | .count => some (if 0 < t.count then .head else .done none)
  | .head => some (.compare (t.chain (bucketOf jhash (rpcName, code))).live.head? 0)
  | .compare none wild => some (.done (lookupResult 0 wild))
  | .compare (some n) wild =>
    if (t.entry n).rpcName ≠ rpcName then some (.next n wild)
    else if (t.entry n).code = code then some (.loadExact n wild)
    else if (t.entry n).code = -1 then some (.loadWild n)
    else some (.next n wild)
  | .loadExact n wild => some (.done (lookupResult (t.entry n).strategy wild))
  | .loadWild n => some (.next n (t.entry n).strategy)
  | .next n wild =>
    some (.compare ((t.chain (bucketOf jhash (rpcName, code))).next n) wild)
  | .done _ => none

/-! ### Both together -/

/-- The table, the call that holds the mutex, and the lookup. -/
structure RcuWorld where
  table : RcuTable
  writer : Option Section
  reader : Reader

/-- Whose step it is. -/
inductive RcuLabel
  /-- The lookup. -/
  | read
  /-- A call takes the mutex. -/
  | enter (op : RuleOp)
  /-- The call that holds the mutex. -/
  | write

def RcuWorld.init : RcuWorld := ⟨.init, none, .idle⟩

/-- The next step of the call that holds the mutex. -/
def RcuWorld.write (w : RcuWorld) (s : Section) : RcuWorld :=
  match s.stage with
  | .entered =>
    let effect := w.table.effect jhash s.op
    { w with table := effect.1, writer := some { s with stage := effect.2 } }
  | .linked =>
    { w with
      table := { w.table with count := w.table.count + 1 }
      writer := some { s with stage := .finished } }
  | .unlinked =>
    { w with
      table := { w.table with count := w.table.count - 1 }
      writer := some { s with stage := .finished } }
  | .finished => { w with writer := none }

/-- A step, if there is one. -/
def RcuWorld.step (w : RcuWorld) : RcuLabel → Option RcuWorld
  | .read => (w.table.read jhash rpcName code w.reader).map fun r => { w with reader := r }
  | .enter op =>
    if w.writer.isNone ∧ op.Accepted then
      some { w with writer := some ⟨op, w.table.contents, .entered⟩ }
    else none
  | .write => w.writer.map fun s => w.write jhash s

/-- The rules in force. Those of a call inside its critical section count as done or
as not done. -/
def RcuWorld.inForce (w : RcuWorld) : List RuleMap :=
  match w.writer with
  | none => [w.table.contents]
  | some s => [s.before, s.op.apply s.before]

/-- The runs of one lookup among adds and deletes. -/
abbrev RcuRun : List (RcuLabel × RcuWorld) → RcuWorld → Prop :=
  Run (fun w a w' => w.step jhash rpcName code a = some w') RcuWorld.init

end Code

/-! ### Where a lookup can still get to

`S k v` stands for: at some moment of the lookup so far, the rules in force gave
`v` for `k`. -/

namespace RcuTable

variable {jhash : List UInt8 → UInt32} {S S' : RuleKey → Option UInt8 → Prop} {b : Fin 64}
  {t t' : RcuTable} {p : Option ℕ} {n x : ℕ} {k : RuleKey} {wild : UInt8}

/-- Everything a reader can still get to is a rule of its bucket that is linked, or
that was in force, with the strategy it has, at some moment. -/
def Tracked (jhash : List UInt8 → UInt32) (S : RuleKey → Option UInt8 → Prop) (b : Fin 64)
    (t : RcuTable) (p : Option ℕ) : Prop :=
  ∀ x, (t.chain b).ReachesFrom p x →
    x < t.fresh ∧ bucketOf jhash (t.entry x).key = b ∧
    rkxFreeAsyncStrategyValid (t.entry x).strategy = true ∧
    (x ∈ (t.chain b).live ∨ S (t.entry x).key (some (t.entry x).strategy))

/-- A reader that has not met a key will meet it, unless the key was absent at some
moment. -/
def Missed (S : RuleKey → Option UInt8 → Prop) (b : Fin 64) (t : RcuTable) (p : Option ℕ)
    (k : RuleKey) : Prop :=
  S k none ∨ ∃ x ∈ (t.chain b).live, (t.entry x).key = k ∧ (t.chain b).ReachesFrom p x

/-- Nothing the reader can get to is still to be allocated. -/
theorem Tracked.ne_fresh (tracked : Tracked jhash S b t p) {n : ℕ} (hn : n ∈ p) :
    ∀ x, (t.chain b).Reaches n x → x ≠ t.fresh := fun x hx =>
  (tracked x ⟨n, hn, hx⟩).1.ne

/-- A change does not let the reader get anywhere new. -/
theorem Tracked.reaches_before (tracked : Tracked jhash S b t p) (change : Change jhash t t')
    (inv : Inv jhash t) (h : (t'.chain b).ReachesFrom p x) : (t.chain b).ReachesFrom p x := by
  obtain ⟨n, hn, hreach⟩ := h
  refine ⟨n, hn, ?_⟩
  rcases change.chain b with hchain | ⟨hchain, -⟩ | ⟨y, -, hchain⟩
  · rwa [hchain] at hreach
  · rw [hchain] at hreach
    exact (Rcu.Chain.reaches_link (tracked.ne_fresh hn)).mp hreach
  · rw [hchain] at hreach
    exact hreach.of_unlink (inv.nodup b)

theorem Tracked.change (tracked : Tracked jhash S b t p) (change : Change jhash t t')
    (inv : Inv jhash t) (mono : ∀ k v, S k v → S' k v)
    (current : ∀ k, S k (t.contents.lookup k)) : Tracked jhash S' b t' p := by
  intro x hx
  obtain ⟨hlt, hbucket, hvalid, hor⟩ := tracked x (tracked.reaches_before change inv hx)
  refine ⟨Nat.lt_of_lt_of_le hlt change.fresh_le, ?_⟩
  rcases change.entry inv hlt with hsame | ⟨hlinked, hkey, hvalid'⟩
  · rw [hsame]
    refine ⟨hbucket, hvalid, ?_⟩
    rcases hor with hlive | hseen
    · -- if it is linked no more, it was until now
      have hnow : S (t.entry x).key (some (t.entry x).strategy) :=
        inv.lookup_of_mem hlive ▸ current (t.entry x).key
      rcases change.chain b with hchain | ⟨hchain, -⟩ | ⟨y, -, hchain⟩
      · rw [hchain]
        exact .inl hlive
      · rw [hchain]
        exact .inl (List.mem_cons_of_mem _ hlive)
      · rw [hchain]
        by_cases hxy : x = y
        · exact .inr (mono _ _ hnow)
        · exact .inl ((List.mem_erase_of_ne hxy).mpr hlive)
    · exact .inr (mono _ _ hseen)
  · -- its strategy was stored to, so it is linked
    rw [hkey]
    rw [hbucket] at hlinked
    exact ⟨hbucket, hvalid', .inl hlinked⟩

/-- After an entry is unlinked, its key is absent. -/
theorem Change.lookup_of_unlinked (change : Change jhash t t') (inv : Inv jhash t)
    (inv' : Inv jhash t') (linked : x ∈ (t.chain b).live)
    (hchain : t'.chain b = (t.chain b).unlink x) : t'.contents.lookup (t.entry x).key = none := by
  by_contra hpresent
  obtain ⟨strategy, hlookup⟩ := Option.ne_none_iff_exists'.mp hpresent
  obtain ⟨m, hm, hmkey⟩ := inv'.exists_of_lookup hlookup
  rw [inv.bucket linked, hchain] at hm
  have hmlive : m ∈ (t.chain b).live := List.mem_of_mem_erase hm
  -- two linked entries with one key are the same, and that one was unlinked
  have hsame : (t.entry m).key = (t.entry x).key := by
    rw [← hmkey]
    exact (change.key inv (inv.allocated b m hmlive)).symm
  rw [inv.eq_of_key hmlive linked hsame] at hm
  exact (inv.nodup b).not_mem_erase hm

theorem Missed.change (missed : Missed S b t p k) (tracked : Tracked jhash S b t p)
    (change : Change jhash t t') (inv : Inv jhash t) (inv' : Inv jhash t')
    (mono : ∀ k v, S k v → S' k v) (current' : ∀ k, S' k (t'.contents.lookup k)) :
    Missed S' b t' p k := by
  rcases missed with habsent | ⟨x, hlive, hkey, n, hn, hreach⟩
  · exact .inl (mono _ _ habsent)
  have hlt : x < t.fresh := inv.allocated b x hlive
  have hkey' : (t'.entry x).key = k := (change.key inv hlt).trans hkey
  -- the entry that is ahead stays ahead unless it is the one unlinked
  rcases change.chain b with hchain | ⟨hchain, -⟩ | ⟨y, -, hchain⟩
  · right
    refine ⟨x, ?_, hkey', n, hn, ?_⟩
    · rwa [hchain]
    · rwa [hchain]
  · right
    refine ⟨x, ?_, hkey', n, hn, ?_⟩
    · rw [hchain]
      exact List.mem_cons_of_mem _ hlive
    · rw [hchain]
      exact (Rcu.Chain.reaches_link (tracked.ne_fresh hn)).mpr hreach
  · by_cases hxy : x = y
    · -- the entry itself was unlinked: now the key is absent
      left
      subst hxy
      rw [← hkey, ← change.lookup_of_unlinked inv inv' hlive hchain]
      exact current' (t.entry x).key
    · right
      refine ⟨x, ?_, hkey', n, hn, ?_⟩
      · rw [hchain]
        exact (List.mem_erase_of_ne hxy).mpr hlive
      · rw [hchain]
        exact hreach.unlink (inv.nodup b) hxy

/-! ### The steps of the walk -/

/-- From the head everything linked is ahead. -/
theorem Inv.tracked_head (inv : Inv jhash t) : Tracked jhash S b t (t.chain b).live.head? := by
  rintro x ⟨n, hn, hreach⟩
  have hlive : x ∈ (t.chain b).live := hreach.mem_live (List.mem_of_mem_head? hn)
  exact ⟨inv.allocated b x hlive, inv.bucket hlive, inv.valid b _ (mem_map hlive), .inl hlive⟩

theorem Inv.missed_head (inv : Inv jhash t) (current : ∀ k, S k (t.contents.lookup k))
    (hb : bucketOf jhash k = b) : Missed S b t (t.chain b).live.head? k := by
  cases hlookup : t.contents.lookup k with
  | none =>
    left
    rw [← hlookup]
    exact current k
  | some strategy =>
    obtain ⟨x, hx, hkey⟩ := inv.exists_of_lookup hlookup
    rw [hb] at hx
    exact .inr ⟨x, hx, hkey, Rcu.Chain.reachesFrom_head (inv.nodup b) hx⟩

theorem Tracked.next (tracked : Tracked jhash S b t (some n)) :
    Tracked jhash S b t ((t.chain b).next n) := by
  rintro x ⟨m, hm, hreach⟩
  exact tracked x ⟨n, rfl, Rcu.Chain.Reaches.of_next hm hreach⟩

/-- Stepping over an entry with another key. -/
theorem Missed.next (missed : Missed S b t (some n) k) (hn : (t.entry n).key ≠ k) :
    Missed S b t ((t.chain b).next n) k := by
  rcases missed with habsent | ⟨x, hlive, hkey, m, hm, hreach⟩
  · exact .inl habsent
  · obtain rfl : n = m := Option.some.inj hm
    have hne : n ≠ x := by
      rintro rfl
      exact hn hkey
    obtain ⟨m, hnext, hrest⟩ := hreach.next hne
    exact .inr ⟨x, hlive, hkey, m, hnext, hrest⟩

/-- At the end of the chain, what was not met was absent. -/
theorem Missed.absent (missed : Missed S b t none k) : S k none := by
  rcases missed with habsent | ⟨x, -, -, n, hn, -⟩
  · exact habsent
  · cases hn

/-- A strategy that is loaded was in force. -/
theorem Tracked.loaded (tracked : Tracked jhash S b t (some n)) (inv : Inv jhash t)
    (current : ∀ k, S k (t.contents.lookup k)) :
    S (t.entry n).key (some (t.entry n).strategy) ∧ (t.entry n).strategy ≠ 0 := by
  obtain ⟨-, -, hvalid, hor⟩ := tracked n ⟨n, rfl, .refl⟩
  refine ⟨?_, RkxFreeAsync.rkxFreeAsyncStrategyValid_ne_zero hvalid⟩
  rcases hor with hlive | hseen
  · rw [← inv.lookup_of_mem hlive]
    exact current _
  · exact hseen

end RcuTable

/-! ### The lookup -/

section Lookup

variable {jhash : List UInt8 → UInt32} {rpcName : CString} {code : Int32}
  {S S' : RuleKey → Option UInt8 → Prop} {t t' : RcuTable} {r r' : Reader}

/-- A walk with a pointer `p` ahead of it and the strategy of the wildcard rule
behind it, if it met one. -/
structure Walk (jhash : List UInt8 → UInt32) (rpcName : CString) (code : Int32)
    (S : RuleKey → Option UInt8 → Prop) (t : RcuTable) (p : Option ℕ) (wild : UInt8) : Prop where
  tracked : t.Tracked jhash S (bucketOf jhash (rpcName, code)) p
  missedExact : t.Missed S (bucketOf jhash (rpcName, code)) p (rpcName, code)
  missedWild : wild = 0 → t.Missed S (bucketOf jhash (rpcName, code)) p (rpcName, -1)
  metWild : wild ≠ 0 → S (rpcName, -1) (some wild)

/-- What is known at each point of the lookup. -/
def ReaderInv (jhash : List UInt8 → UInt32) (rpcName : CString) (code : Int32)
    (S : RuleKey → Option UInt8 → Prop) (t : RcuTable) : Reader → Prop
  | .idle | .count | .head => True
  | .compare p wild => Walk jhash rpcName code S t p wild
  | .loadExact n wild =>
    Walk jhash rpcName code S t (some n) wild ∧ (t.entry n).key = (rpcName, code)
  | .loadWild n =>
    (∃ wild, Walk jhash rpcName code S t (some n) wild) ∧ (t.entry n).key = (rpcName, -1) ∧
      (t.entry n).key ≠ (rpcName, code)
  | .next n wild =>
    Walk jhash rpcName code S t (some n) wild ∧ (t.entry n).key ≠ (rpcName, code) ∧
      (wild = 0 → (t.entry n).key ≠ (rpcName, -1))
  | .done result =>
    ∃ exactAnswer wildAnswer, S (rpcName, code) exactAnswer ∧ S (rpcName, -1) wildAnswer ∧
      result = exactAnswer.or wildAnswer

theorem Walk.change {p : Option ℕ} {wild : UInt8} (walk : Walk jhash rpcName code S t p wild)
    (change : t.Change jhash t') (inv : t.Inv jhash) (inv' : t'.Inv jhash)
    (mono : ∀ k v, S k v → S' k v) (current : ∀ k, S k (t.contents.lookup k))
    (current' : ∀ k, S' k (t'.contents.lookup k)) : Walk jhash rpcName code S' t' p wild where
  tracked := walk.tracked.change change inv mono current
  missedExact := walk.missedExact.change walk.tracked change inv inv' mono current'
  missedWild hwild := (walk.missedWild hwild).change walk.tracked change inv inv' mono current'
  metWild hwild := mono _ _ (walk.metWild hwild)

/-- The entry a walk stands on keeps its key. -/
theorem Walk.key_change {n : ℕ} {wild : UInt8} (walk : Walk jhash rpcName code S t (some n) wild)
    (change : t.Change jhash t') (inv : t.Inv jhash) : (t'.entry n).key = (t.entry n).key :=
  change.key inv (walk.tracked n ⟨n, rfl, .refl⟩).1

/-- What is known survives the steps of the writers. -/
theorem ReaderInv.change (h : ReaderInv jhash rpcName code S t r) (change : t.Change jhash t')
    (inv : t.Inv jhash) (inv' : t'.Inv jhash) (mono : ∀ k v, S k v → S' k v)
    (facts : r.Running →
      (∀ k, S k (t.contents.lookup k)) ∧ ∀ k, S' k (t'.contents.lookup k)) :
    ReaderInv jhash rpcName code S' t' r := by
  cases r with
  | idle | count | head => trivial
  | compare p wild =>
    obtain ⟨current, current'⟩ := facts trivial
    exact Walk.change h change inv inv' mono current current'
  | loadExact n wild =>
    obtain ⟨current, current'⟩ := facts trivial
    obtain ⟨walk, hkey⟩ := h
    exact ⟨walk.change change inv inv' mono current current',
      (walk.key_change change inv).trans hkey⟩
  | loadWild n =>
    obtain ⟨current, current'⟩ := facts trivial
    obtain ⟨⟨wild, walk⟩, hkey⟩ := h
    rw [← walk.key_change change inv] at hkey
    exact ⟨⟨wild, walk.change change inv inv' mono current current'⟩, hkey⟩
  | next n wild =>
    obtain ⟨current, current'⟩ := facts trivial
    obtain ⟨walk, hkey⟩ := h
    rw [← walk.key_change change inv] at hkey
    exact ⟨walk.change change inv inv' mono current current', hkey⟩
  | done result =>
    obtain ⟨exactAnswer, wildAnswer, hexact, hwild, hresult⟩ := h
    exact ⟨exactAnswer, wildAnswer, mono _ _ hexact, mono _ _ hwild, hresult⟩

theorem key_eq_iff {e : RkxFreeAsyncEntry} {c : Int32} :
    e.key = (rpcName, c) ↔ e.rpcName = rpcName ∧ e.code = c := Prod.mk_inj

/-- What the comparison of an entry decides. -/
theorem read_compare {n : ℕ} {wild : UInt8} (walk : Walk jhash rpcName code S t (some n) wild)
    (hread : t.read jhash rpcName code (.compare (some n) wild) = some r') :
    ReaderInv jhash rpcName code S t r' := by
  rw [RcuTable.read] at hread
  split_ifs at hread with hname hcode hwild
  · obtain rfl := Option.some.inj hread
    have hother : ∀ c, (t.entry n).key ≠ (rpcName, c) := fun c hkey =>
      hname (key_eq_iff.mp hkey).1
    exact ⟨walk, hother code, fun _ => hother (-1)⟩
  · obtain rfl := Option.some.inj hread
    exact ⟨walk, key_eq_iff.mpr ⟨not_not.mp hname, hcode⟩⟩
  · obtain rfl := Option.some.inj hread
    exact ⟨⟨wild, walk⟩, key_eq_iff.mpr ⟨not_not.mp hname, hwild⟩,
      fun hkey => hcode (key_eq_iff.mp hkey).2⟩
  · obtain rfl := Option.some.inj hread
    exact ⟨walk, fun hkey => hcode (key_eq_iff.mp hkey).2,
      fun _ hkey => hwild (key_eq_iff.mp hkey).2⟩

/-- At the end of the chain the answer is the wildcard's, if it was met. -/
theorem Walk.result {wild : UInt8} (walk : Walk jhash rpcName code S t none wild) :
    ReaderInv jhash rpcName code S t (.done (lookupResult 0 wild)) := by
  have hexact := walk.missedExact.absent
  by_cases hwild : wild = 0
  · refine ⟨none, none, hexact, (walk.missedWild hwild).absent, ?_⟩
    rw [hwild]
    rfl
  · refine ⟨none, some wild, hexact, walk.metWild hwild, ?_⟩
    simp [lookupResult, hwild]

/-- What is known after each step of the lookup. -/
theorem ReaderInv.read (h : ReaderInv jhash rpcName code S t r) (inv : t.Inv jhash)
    (current : r.Running → ∀ k, S k (t.contents.lookup k))
    (empty : r = .count → ¬ 0 < t.count → ∀ k, S k none)
    (hread : t.read jhash rpcName code r = some r') :
    ReaderInv jhash rpcName code S t r' := by
  cases r with
  | idle =>
    obtain rfl := Option.some.inj hread
    trivial
  | count =>
    rw [RcuTable.read] at hread
    obtain rfl := Option.some.inj hread
    split_ifs with hcount
    · trivial
    · exact ⟨none, none, empty rfl hcount _, empty rfl hcount _, rfl⟩
  | head =>
    obtain rfl := Option.some.inj hread
    exact ⟨inv.tracked_head, inv.missed_head (current trivial) rfl,
      fun _ => inv.missed_head (current trivial) rfl, fun hwild => absurd rfl hwild⟩
  | compare p wild =>
    cases p with
    | none =>
      obtain rfl := Option.some.inj hread
      exact Walk.result h
    | some n => exact read_compare h hread
  | loadExact n wild =>
    obtain rfl := Option.some.inj hread
    obtain ⟨walk, hkey⟩ := h
    obtain ⟨hloaded, hne⟩ := walk.tracked.loaded inv (current trivial)
    rw [hkey] at hloaded
    -- an exact rule decides, so any answer for the wildcard does
    refine ⟨_, _, hloaded, current trivial (rpcName, -1), ?_⟩
    simp [lookupResult, hne]
  | loadWild n =>
    obtain rfl := Option.some.inj hread
    obtain ⟨⟨wild, walk⟩, hkey, hother⟩ := h
    obtain ⟨hloaded, hne⟩ := walk.tracked.loaded inv (current trivial)
    rw [hkey] at hloaded
    -- the wildcard was met; from here on only the exact key is looked for
    exact ⟨⟨walk.tracked, walk.missedExact, fun hzero => absurd hzero hne, fun _ => hloaded⟩,
      hother, fun hzero => absurd hzero hne⟩
  | next n wild =>
    obtain rfl := Option.some.inj hread
    obtain ⟨walk, hexact, hwild⟩ := h
    exact ⟨walk.tracked.next, walk.missedExact.next hexact,
      fun hzero => (walk.missedWild hzero).next (hwild hzero), walk.metWild⟩
  | done result => cases hread

end Lookup

/-! ### Writers and the counter -/

section Writers

open RcuTable

variable {jhash : List UInt8 → UInt32}

/-- A call in its critical section: where it stands, and what the counter shows. -/
structure Section.Consistent (t : RcuTable) (s : Section) : Prop where
  accepted : s.op.Accepted
  contents : t.contents = if s.stage = .entered then s.before else s.op.apply s.before
  counted : t.count + pending s.stage = Int32.ofNat t.contents.keys.card
  counts : ∃ m ∈ [s.before, s.op.apply s.before], t.count = Int32.ofNat m.keys.card

namespace RcuWorld

/-- The invariant of the table and the writers. -/
structure Inv (jhash : List UInt8 → UInt32) (w : RcuWorld) : Prop where
  table : w.table.Inv jhash
  writer : ∀ s, w.writer = some s → s.Consistent w.table
  counted : w.writer = none → w.table.count = Int32.ofNat w.table.contents.keys.card

variable {w : RcuWorld} {s : Section}

/-- What is linked is in force. -/
theorem Inv.contents_inForce (inv : w.Inv jhash) : w.table.contents ∈ w.inForce := by
  unfold inForce
  cases hwriter : w.writer with
  | none => exact List.mem_singleton_self _
  | some s =>
    have hcontents := (inv.writer s hwriter).contents
    split_ifs at hcontents
    · rw [hcontents]
      exact List.mem_cons_self
    · rw [hcontents]
      exact List.mem_cons_of_mem _ (List.mem_singleton_self _)

/-- The counter counts rules that are in force. -/
theorem Inv.exists_counted (inv : w.Inv jhash) :
    ∃ m ∈ w.inForce, w.table.count = Int32.ofNat m.keys.card := by
  unfold inForce
  cases hwriter : w.writer with
  | none => exact ⟨_, List.mem_singleton_self _, inv.counted hwriter⟩
  | some s => exact (inv.writer s hwriter).counts

theorem inv_init : RcuWorld.init.Inv jhash where
  table := RcuTable.inv_init
  writer _ h := by cases h
  counted _ := rfl

/-- A call brings the counter up to date. -/
theorem Inv.count (inv : w.Inv jhash) (hwriter : w.writer = some s)
    (hstage : s.stage ≠ .entered) {count : Int32}
    (hcount : count = w.table.count + pending s.stage) :
    w.table.Change jhash { w.table with count := count } ∧
      RcuWorld.Inv jhash ⟨{ w.table with count := count },
        some { s with stage := .finished }, w.reader⟩ := by
  have hs := inv.writer s hwriter
  have hcontents := hs.contents
  rw [if_neg hstage] at hcontents
  have hcounted : count = Int32.ofNat w.table.contents.keys.card := hcount.trans hs.counted
  have htable : RcuTable.Inv jhash { w.table with count := count } :=
    ⟨inv.table.keyed, inv.table.valid, inv.table.nodup, inv.table.allocated⟩
  refine ⟨.count count, htable, ?_, fun hnone => absurd hnone (Option.some_ne_none _)⟩
  intro s' hs'
  obtain rfl := Option.some.inj hs'
  refine ⟨hs.accepted, hcontents, ?_, s.op.apply s.before, ?_, ?_⟩
  · exact (Int32.add_zero count).trans hcounted
  · exact List.mem_cons_of_mem _ (List.mem_singleton_self _)
  · rw [← hcontents]
    exact hcounted

/-- What one step of a call does. -/
theorem Inv.write (inv : w.Inv jhash) (hwriter : w.writer = some s) :
    w.table.Change jhash (w.write jhash s).table ∧ (w.write jhash s).Inv jhash := by
  have hs := inv.writer s hwriter
  have hcontents := hs.contents
  have hcounted := hs.counted
  unfold RcuWorld.write
  cases hstage : s.stage with
  | entered =>
    rw [hstage, if_pos rfl] at hcontents
    rw [hstage, pending, Int32.add_zero] at hcounted
    -- the one store by which the call takes effect; the counter is still the old one
    have heffect := inv.table.effect hs.accepted
    have hafter := heffect.contents inv.table
    rw [hcontents] at hafter
    refine ⟨heffect.change, heffect.inv inv.table, ?_,
      fun hnone => absurd hnone (Option.some_ne_none _)⟩
    rintro s' hs'
    obtain rfl := Option.some.inj hs'
    refine ⟨hs.accepted, ?_, ?_, s.before, List.mem_cons_self, ?_⟩
    · rw [if_neg heffect.stage]
      exact hafter
    · rw [heffect.count, hcounted]
      exact (heffect.card inv.table).symm
    · rw [heffect.count, hcounted, hcontents]
  | linked =>
    apply inv.count hwriter
    · rw [hstage]
      intro hentered
      cases hentered
    · rw [hstage]
      rfl
  | unlinked =>
    apply inv.count hwriter
    · rw [hstage]
      intro hentered
      cases hentered
    · rw [hstage]
      exact Int32.sub_eq_add_neg ..
  | finished =>
    rw [hstage, pending, Int32.add_zero] at hcounted
    exact ⟨.count w.table.count, inv.table, fun _ hs => absurd hs.symm (Option.some_ne_none _),
      fun _ => hcounted⟩

variable {rpcName : CString} {code : Int32} {w' : RcuWorld} {label : RcuLabel}

/-- What a step of anybody does to the table. -/
theorem Inv.step (inv : w.Inv jhash) (hstep : w.step jhash rpcName code label = some w') :
    w.table.Change jhash w'.table ∧ w'.Inv jhash := by
  cases label with
  | read =>
    obtain ⟨r, -, rfl⟩ := Option.map_eq_some_iff.mp hstep
    exact ⟨.count w.table.count, inv.table, inv.writer, inv.counted⟩
  | enter op =>
    rw [RcuWorld.step] at hstep
    split_ifs at hstep with henter
    obtain rfl := Option.some.inj hstep
    obtain ⟨hnone, haccepted⟩ := henter
    have hcounted := inv.counted (Option.isNone_iff_eq_none.mp hnone)
    refine ⟨.count w.table.count, inv.table, ?_,
      fun hnone => absurd hnone (Option.some_ne_none _)⟩
    intro s hs
    obtain rfl := Option.some.inj hs
    refine ⟨haccepted, rfl, ?_, w.table.contents, List.mem_cons_self, hcounted⟩
    exact (Int32.add_zero _).trans hcounted
  | write =>
    obtain ⟨s, hwriter, rfl⟩ := Option.map_eq_some_iff.mp hstep
    exact inv.write hwriter

/-- Writers do not touch the reader. -/
theorem reader_of_step (hstep : w.step jhash rpcName code label = some w')
    (writes : label ≠ .read) : w'.reader = w.reader := by
  cases label with
  | read => exact absurd rfl writes
  | enter op =>
    rw [RcuWorld.step] at hstep
    split_ifs at hstep
    obtain rfl := Option.some.inj hstep
    rfl
  | write =>
    obtain ⟨s, -, rfl⟩ := Option.map_eq_some_iff.mp hstep
    unfold RcuWorld.write
    cases s.stage <;> rfl

end RcuWorld

end Writers

/-! ### The answer of a lookup -/

section Answer

variable {jhash : List UInt8 → UInt32} {rpcName : CString} {code : Int32}

/-- At some moment of the lookup, the rules in force give this for the key. -/
def InForceDuring (trace : List (RcuLabel × RcuWorld)) (k : RuleKey) (v : Option UInt8) : Prop :=
  ∃ w ∈ visited RcuWorld.init trace, w.reader.Running ∧ ∃ m ∈ w.inForce, m.lookup k = v

variable {trace : List (RcuLabel × RcuWorld)} {w w' : RcuWorld} {label : RcuLabel}

theorem InForceDuring.snoc {k : RuleKey} {v : Option UInt8} (h : InForceDuring trace k v) :
    InForceDuring (trace ++ [(label, w')]) k v := by
  obtain ⟨w, hw, h⟩ := h
  refine ⟨w, ?_, h⟩
  rw [visited_append_singleton]
  exact List.mem_append_left _ hw

theorem inForceDuring_last (hw : w ∈ visited RcuWorld.init trace) (inv : w.Inv jhash)
    (running : w.reader.Running) (k : RuleKey) :
    InForceDuring trace k (w.table.contents.lookup k) :=
  ⟨w, hw, running, _, inv.contents_inForce, rfl⟩

/-- A counter that is not positive has counted no rule, as long as it has not
overflowed. -/
theorem inForceDuring_none (hw : w ∈ visited RcuWorld.init trace) (inv : w.Inv jhash)
    (running : w.reader.Running) (fits : ∀ m ∈ w.inForce, m.keys.card < 2 ^ 31)
    (hcount : ¬ 0 < w.table.count) (k : RuleKey) : InForceDuring trace k none := by
  obtain ⟨m, hm, hcounted⟩ := inv.exists_counted
  refine ⟨w, hw, running, m, hm, ?_⟩
  have hempty : m.keys.card = 0 := by
    rw [hcounted, Int32.lt_iff_toInt_lt, Int32.toInt_ofNat_of_lt (fits m hm)] at hcount
    change ¬ (0 : ℤ) < (m.keys.card : ℤ) at hcount
    omega
  rw [Finmap.lookup_eq_none, ← Finmap.mem_keys, Finset.card_eq_zero.mp hempty]
  exact Finset.notMem_empty k

theorem mem_visited_last (run : RcuRun jhash rpcName code trace w) :
    w ∈ visited RcuWorld.init trace := by
  cases run with
  | nil => exact List.mem_cons_self
  | snoc _ _ =>
    rw [visited_append_singleton]
    exact List.mem_append_right _ (List.mem_singleton_self _)

/-- What is known of the lookup in every run. -/
theorem readerInv_of_run (run : RcuRun jhash rpcName code trace w)
    (fits : ∀ s ∈ visited RcuWorld.init trace, s.reader = .count →
      ∀ m ∈ s.inForce, m.keys.card < 2 ^ 31) :
    w.Inv jhash ∧ ReaderInv jhash rpcName code (InForceDuring trace) w.table w.reader := by
  induction run with
  | nil => exact ⟨RcuWorld.inv_init, trivial⟩
  | @snoc trace w w' label run hstep ih =>
    have hvisited : ∀ s ∈ visited RcuWorld.init trace,
        s ∈ visited RcuWorld.init (trace ++ [(label, w')]) := by
      intro s hs
      rw [visited_append_singleton]
      exact List.mem_append_left _ hs
    obtain ⟨inv, hreader⟩ := ih fun s hs => fits s (hvisited s hs)
    obtain ⟨hchange, inv'⟩ := inv.step hstep
    refine ⟨inv', ?_⟩
    have hcurrent : w.reader.Running →
        ∀ k, InForceDuring trace k (w.table.contents.lookup k) := fun running =>
      inForceDuring_last (mem_visited_last run) inv running
    have hmono : ∀ k v, InForceDuring trace k v →
        InForceDuring (trace ++ [(label, w')]) k v := fun _ _ h => h.snoc
    have hlast : w' ∈ visited RcuWorld.init (trace ++ [(label, w')]) :=
      mem_visited_last (run.snoc hstep)
    by_cases hlabel : label = .read
    · subst hlabel
      obtain ⟨r, hread, rfl⟩ := Option.map_eq_some_iff.mp hstep
      have hcurrent' : w.reader.Running → ∀ k, InForceDuring _ k (w.table.contents.lookup k) :=
        fun running k => hmono _ _ (hcurrent running k)
      -- the table is the same, but there is one more moment to refer to
      have hbefore := hreader.change (.count w.table.count) inv.table inv.table hmono
        fun running => ⟨hcurrent running, hcurrent' running⟩
      apply hbefore.read inv.table hcurrent' _ hread
      intro hcount hpositive k
      have running : w.reader.Running := by
        rw [hcount]
        trivial
      have hw := mem_visited_last run
      have hfits := fits w (hvisited w hw) hcount
      exact hmono _ _ (inForceDuring_none hw inv running hfits hpositive k)
    · have hsame := RcuWorld.reader_of_step hstep hlabel
      rw [hsame]
      apply hreader.change hchange inv.table inv'.table hmono
      intro running
      refine ⟨hcurrent running, inForceDuring_last hlast inv' ?_⟩
      rwa [hsame]

/-- **Each key is answered for a moment of the lookup.** The answer is the exact
rule's at one moment, or else the wildcard rule's at another. If one of the two
keys has one value throughout the lookup, it is the answer of the rules in force
at a single moment. -/
theorem lookup_answers_each_key (jhash : List UInt8 → UInt32) (rpcName : CString) (code : Int32)
    (trace : List (RcuLabel × RcuWorld)) (w : RcuWorld) (result : Option UInt8)
    (run : RcuRun jhash rpcName code trace w)
    (fits : ∀ s ∈ visited RcuWorld.init trace, s.reader = .count →
      ∀ m ∈ s.inForce, m.keys.card < 2 ^ 31)
    (done : w.reader = .done result) :
    (∃ exactAnswer wildAnswer, InForceDuring trace (rpcName, code) exactAnswer ∧
      InForceDuring trace (rpcName, -1) wildAnswer ∧ result = exactAnswer.or wildAnswer) ∧
    ((∃ k ∈ [(rpcName, code), (rpcName, -1)],
        ∀ v v', InForceDuring trace k v → InForceDuring trace k v' → v = v') →
      ∃ s ∈ visited RcuWorld.init trace, s.reader.Running ∧
        ∃ m ∈ s.inForce, result = m.resolve rpcName code) := by
  obtain ⟨-, hreader⟩ := readerInv_of_run run fits
  rw [done] at hreader
  refine ⟨hreader, ?_⟩
  obtain ⟨exactAnswer, wildAnswer, hexact, hwild, rfl⟩ := hreader
  rintro ⟨k, hk, hconstant⟩
  rcases List.mem_cons.mp hk with rfl | hk
  · -- the exact key keeps its value: take the moment of the wildcard
    obtain ⟨s, hs, running, m, hm, rfl⟩ := hwild
    refine ⟨s, hs, running, m, hm, ?_⟩
    rw [RuleMap.resolve, hconstant _ _ hexact ⟨s, hs, running, m, hm, rfl⟩]
  · obtain rfl := List.mem_singleton.mp hk
    obtain ⟨s, hs, running, m, hm, rfl⟩ := hexact
    refine ⟨s, hs, running, m, hm, ?_⟩
    rw [RuleMap.resolve, hconstant _ _ hwild ⟨s, hs, running, m, hm, rfl⟩]

end Answer

/-! ### A race -/

/-- A lookup of code 5 stands on the wildcard rule, which is `SKIP`. A rule for the
code is added behind it, then the wildcard rule is changed to `BY_DATA`. -/
def raceLabels : List RcuLabel :=
  [.enter (.add RkxFreeAsync.nameA (-1) rkxFreeAsyncSkip true), .write, .write, .write,
    .read, .read, .read,
    .enter (.add RkxFreeAsync.nameA 5 rkxFreeAsyncByCode true), .write, .write, .write,
    .enter (.add RkxFreeAsync.nameA (-1) rkxFreeAsyncByData true), .write, .write,
    .read, .read, .read, .read]

/-- The run with these labels. -/
def race : List (RcuLabel × RcuWorld) × RcuWorld :=
  follow (fun w a => w.step (fun _ => 0) RkxFreeAsync.nameA 5 a) RcuWorld.init raceLabels

theorem race_run : RcuRun (fun _ => 0) RkxFreeAsync.nameA 5 race.1 race.2 := run_follow _ _ _

theorem race_done : race.2.reader = .done (some rkxFreeAsyncByData) := by decide +kernel

/-- The lookup answers `BY_DATA`, which was never the answer of the rules in force:
it was `SKIP`, then `BY_CODE`. -/
theorem lookup_answers_for_no_moment :
    RcuRun (fun _ => 0) RkxFreeAsync.nameA 5 race.1 race.2 ∧
    race.2.reader = .done (some rkxFreeAsyncByData) ∧
    ∀ s ∈ visited RcuWorld.init race.1, s.reader.Running →
      ∀ m ∈ s.inForce, m.resolve RkxFreeAsync.nameA 5 ≠ some rkxFreeAsyncByData :=
  ⟨race_run, race_done, by decide +kernel⟩

theorem lookup_answers_each_key_race :
    ∃ exactAnswer wildAnswer, InForceDuring race.1 (RkxFreeAsync.nameA, 5) exactAnswer ∧
      InForceDuring race.1 (RkxFreeAsync.nameA, -1) wildAnswer ∧
      some rkxFreeAsyncByData = exactAnswer.or wildAnswer :=
  (lookup_answers_each_key (fun _ => 0) RkxFreeAsync.nameA 5 race.1 race.2 _ race_run
    (by decide +kernel) race_done).1

end ReKernelX
