import Mathlib.Data.Finmap
import ReKernelX.Foundation.Bytes
import ReKernelX.Foundation.Chains
import ReKernelX.Foundation.Transition
import ReKernelX.Module.Abi

/-!
# The free-async rule table

`rkx_free_async.c` keeps the rules in a chained hash table of 64 buckets keyed
by interface name, with a separate atomic counter of the linked rules. A lookup
walks one bucket, stops at the rule for the exact code and remembers the last
wildcard rule it passed.

The first half is the code. The second half says what the table is for: a
finite map from interface name and code to strategy, on which a lookup prefers
the exact code and falls back to the wildcard. Every operation of the code acts
on the contents of the table as the corresponding operation acts on the map,
whatever the hash function and whichever allocations fail.

The counter is a 32-bit `atomic_t`. It always equals the number of rules
modulo `2 ^ 32`, so the shortcut that consults it is right exactly as long as
that number stays below `2 ^ 31`.
-/

set_option autoImplicit false

namespace ReKernelX

open Bytes

/-! ### The code -/

/-- `struct rkx_free_async_entry` without its list and RCU hooks. -/
structure RkxFreeAsyncEntry where
  rpcName : CString
  code : Int32
  strategy : UInt8
  deriving DecidableEq

/-- What a rule is for: an interface name and a transaction code. -/
abbrev RuleKey := CString × Int32

namespace RkxFreeAsyncEntry

/-- The key of a linked rule. -/
def key (e : RkxFreeAsyncEntry) : RuleKey := (e.rpcName, e.code)

/-- The test both updating walks make at each entry. -/
def isFor (rpcName : CString) (code : Int32) (e : RkxFreeAsyncEntry) : Bool :=
  e.code == code && e.rpcName == rpcName

/-- `WRITE_ONCE(entry->strategy, strategy)` -/
def setStrategy (strategy : UInt8) (e : RkxFreeAsyncEntry) : RkxFreeAsyncEntry :=
  { e with strategy := strategy }

@[simp] theorem key_setStrategy (strategy : UInt8) (e : RkxFreeAsyncEntry) :
    (e.setStrategy strategy).key = e.key := rfl

theorem isFor_eq (rpcName : CString) (code : Int32) :
    isFor rpcName code = fun e => decide (e.key = (rpcName, code)) := by
  funext e
  simp only [isFor, key, Prod.mk.injEq, Bool.decide_and, beq_eq_decide, Bool.and_comm]

end RkxFreeAsyncEntry

/-- The static state of `rkx_free_async.c`. -/
structure RkxFreeAsync where
  /-- `rkx_free_async_map` -/
  map : Chains.Table 64 RkxFreeAsyncEntry
  /-- `rkx_free_async_count` -/
  count : Int32

/-- `hash_min` on a 32-bit key and `RKX_FREE_ASYNC_HASH_BITS`. -/
def hashMin (key : UInt32) : Fin 64 := Fin.ofNat 64 ((key * 0x61C88647) >>> 26).toNat

/-- `rkx_free_async_strategy_valid` -/
def rkxFreeAsyncStrategyValid (strategy : UInt8) : Bool :=
  strategy == rkxFreeAsyncSkip || strategy == rkxFreeAsyncByCode ||
    strategy == rkxFreeAsyncByData

/-- `rkx_init_free_async` -/
def rkxInitFreeAsync : RkxFreeAsync := ⟨Chains.Table.empty, 0⟩

/-- `rkx_free_async_has_entries` -/
def rkxFreeAsyncHasEntries (s : RkxFreeAsync) : Bool := decide (0 < s.count)

/-- The walk of `rkx_free_async_lookup_rcu`: the values of `exact_strategy` and
`wild_strategy` when it ends. -/
def lookupWalk (rpcName : CString) (code : Int32) :
    List RkxFreeAsyncEntry → UInt8 → UInt8 → UInt8 × UInt8
  | [], exactStrategy, wildStrategy => (exactStrategy, wildStrategy)
  | entry :: rest, exactStrategy, wildStrategy =>
    if entry.rpcName ≠ rpcName then lookupWalk rpcName code rest exactStrategy wildStrategy
    else if entry.code = code then (entry.strategy, wildStrategy)
    else if entry.code = -1 then lookupWalk rpcName code rest exactStrategy entry.strategy
    else lookupWalk rpcName code rest exactStrategy wildStrategy

section Code

-- `jhash` with initial value zero; nothing below depends on which function it is.
variable (jhash : List UInt8 → UInt32)

/-- `rkx_free_async_hash` -/
def rkxFreeAsyncHash (rpcName : CString) : UInt32 := jhash rpcName.bytes

/-- The bucket `hash_add_rcu` and the walks use for a key. -/
def bucketOf (k : RuleKey) : Fin 64 := hashMin (rkxFreeAsyncHash jhash k.1)

/-- `rkx_free_async_lookup_rcu`: the returned flag and what `*strategy_out`
holds afterwards. A null pointer is `none`. -/
def rkxFreeAsyncLookupRcu (s : RkxFreeAsync) (rpcName : Option CString) (code : Int32)
    (strategyOut : Option UInt8) : Bool × Option UInt8 :=
  match rpcName, strategyOut with
  | some rpcName, some out =>
    if rkxFreeAsyncHasEntries s = false then (false, some out)
    else
      -- zero is no strategy, so it marks what the walk has not met
      let walked := lookupWalk rpcName code (s.map (bucketOf jhash (rpcName, code))) 0 0
      if walked.1 ≠ 0 then (true, some walked.1)
      else if walked.2 ≠ 0 then (true, some walked.2)
      else (false, some out)
  | _, _ => (false, strategyOut)

/-- `rkx_add_free_async`: the return value and the state afterwards, given
whether its `kmalloc` would succeed. -/
def rkxAddFreeAsync (s : RkxFreeAsync) (rpcName : Option CString) (code : Int32)
    (strategy : UInt8) (kmallocOk : Bool) : ℤ × RkxFreeAsync :=
  match rpcName with
  | none => (-einval, s)
  | some rpcName =>
    if rpcName.bytes = [] ∨ code < -1 ∨ rkxFreeAsyncStrategyValid strategy = false then
      (-einval, s)
    else
      let len := rpcName.strnlen rkxInterfacetokenBuffSize
      if len = 0 ∨ rkxInterfacetokenBuffSize ≤ len then (-einval, s)
      else
        let b := bucketOf jhash (rpcName, code)
        match Chains.updateFirst (RkxFreeAsyncEntry.isFor rpcName code)
            (RkxFreeAsyncEntry.setStrategy strategy) (s.map b) with
        | some chain => (0, { s with map := Function.update s.map b chain })
        | none =>
          -- only a rule that is not there yet allocates
          if kmallocOk then
            let entry : RkxFreeAsyncEntry :=
              ⟨rpcName.strscpy rkxInterfacetokenBuffSize, code, strategy⟩
            (0, ⟨s.map.addHead b entry, s.count + 1⟩)
          else (-enomem, s)

/-- `rkx_del_free_async` -/
def rkxDelFreeAsync (s : RkxFreeAsync) (rpcName : Option CString) (code : Int32) :
    ℤ × RkxFreeAsync :=
  match rpcName with
  | none => (-einval, s)
  | some rpcName =>
    if rpcName.bytes = [] ∨ code < -1 then (-einval, s)
    else
      let b := bucketOf jhash (rpcName, code)
      match Chains.unlinkFirst (RkxFreeAsyncEntry.isFor rpcName code) (s.map b) with
      | some chain => (0, ⟨Function.update s.map b chain, s.count - 1⟩)
      -- deleting what is not there is no error
      | none => (0, s)

/-- `rkx_destroy_free_async` -/
def rkxDestroyFreeAsync (s : RkxFreeAsync) : RkxFreeAsync := ⟨s.map.unlinkAll, 0⟩

/-- A call that changes the table, with its arguments and the outcome of its
allocation. -/
inductive FreeAsyncCall
  | add (rpcName : Option CString) (code : Int32) (strategy : UInt8) (kmallocOk : Bool)
  | del (rpcName : Option CString) (code : Int32)
  | destroy

/-- The state a call leaves behind. -/
def FreeAsyncCall.run (s : RkxFreeAsync) : FreeAsyncCall → RkxFreeAsync
  | .add rpcName code strategy kmallocOk =>
    (rkxAddFreeAsync jhash s rpcName code strategy kmallocOk).2
  | .del rpcName code => (rkxDelFreeAsync jhash s rpcName code).2
  | .destroy => rkxDestroyFreeAsync s

/-- The state after `rkx_init_free_async` and a sequence of calls. -/
def freeAsyncAfter (calls : List FreeAsyncCall) : RkxFreeAsync :=
  calls.foldl (FreeAsyncCall.run jhash) rkxInitFreeAsync

end Code

/-! ### What the table is for -/

/-- The abstract table: a finite map from interface name and code to strategy. -/
abbrev RuleMap := Finmap fun _ : RuleKey => UInt8

namespace RuleMap

/-- The names, codes and strategies a rule may have. -/
def Admissible (rpcName : CString) (code : Int32) (strategy : UInt8) : Prop :=
  0 < rpcName.strlen ∧ rpcName.strlen < rkxInterfacetokenBuffSize ∧ ¬ code < -1 ∧
    rkxFreeAsyncStrategyValid strategy = true

instance (rpcName : CString) (code : Int32) (strategy : UInt8) :
    Decidable (Admissible rpcName code strategy) := by
  unfold Admissible
  infer_instance

/-- The strategy in force: the rule for the exact code, else the wildcard rule. -/
def resolve (m : RuleMap) (rpcName : CString) (code : Int32) : Option UInt8 :=
  (m.lookup (rpcName, code)).or (m.lookup (rpcName, -1))

/-- Adding a rule. Only a rule whose key is not held needs memory. -/
def add (m : RuleMap) (rpcName : Option CString) (code : Int32) (strategy : UInt8)
    (kmallocOk : Bool) : ℤ × RuleMap :=
  match rpcName with
  | none => (-einval, m)
  | some rpcName =>
    if Admissible rpcName code strategy then
      if (rpcName, code) ∈ m ∨ kmallocOk = true then
        (0, Finmap.insert (rpcName, code) strategy m)
      else (-enomem, m)
    else (-einval, m)

/-- Deleting a rule; deleting an absent one succeeds as well. -/
def del (m : RuleMap) (rpcName : Option CString) (code : Int32) : ℤ × RuleMap :=
  match rpcName with
  | none => (-einval, m)
  | some rpcName =>
    if rpcName.strlen = 0 ∨ code < -1 then (-einval, m)
    else (0, Finmap.erase (rpcName, code) m)

end RuleMap

namespace RkxFreeAsync

/-- The rules a table holds. -/
def contents (s : RkxFreeAsync) : RuleMap :=
  Chains.toFinmap RkxFreeAsyncEntry.key RkxFreeAsyncEntry.strategy s.map

/-! ### Lookups -/

section Walk

variable {rpcName : CString} {code : Int32}

/-- At the rule for the exact key the walk stops. -/
theorem lookupWalk_cons_of_eq {e : RkxFreeAsyncEntry} {rest : List RkxFreeAsyncEntry}
    {exactStrategy wild : UInt8} (h : e.key = (rpcName, code)) :
    lookupWalk rpcName code (e :: rest) exactStrategy wild = (e.strategy, wild) := by
  obtain ⟨hname, hcode⟩ := Prod.mk.inj h
  simp [lookupWalk, hname, hcode]

/-- Any other rule is passed, and remembered if it is the wildcard rule. -/
theorem lookupWalk_cons_of_ne {e : RkxFreeAsyncEntry} {rest : List RkxFreeAsyncEntry}
    {exactStrategy wild : UInt8} (h : e.key ≠ (rpcName, code)) :
    lookupWalk rpcName code (e :: rest) exactStrategy wild =
      lookupWalk rpcName code rest exactStrategy
        (if e.key = (rpcName, -1) then e.strategy else wild) := by
  by_cases hname : e.rpcName = rpcName
  · have hcode : ¬ e.code = code := fun hc => h (by rw [RkxFreeAsyncEntry.key, hname, hc])
    rw [lookupWalk, if_neg (not_not_intro hname), if_neg hcode]
    by_cases hwild : e.code = -1
    · have hkey : e.key = (rpcName, -1) := by rw [RkxFreeAsyncEntry.key, hname, hwild]
      rw [if_pos hwild, if_pos hkey]
    · have hkey : e.key ≠ (rpcName, -1) := fun hk => hwild (Prod.mk.inj hk).2
      rw [if_neg hwild, if_neg hkey]
  · have hkey : e.key ≠ (rpcName, -1) := fun hk => hname (Prod.mk.inj hk).1
    rw [lookupWalk, if_pos hname, if_neg hkey]

/-- The walk reports the strategy of the first rule for the exact key. -/
theorem lookupWalk_exact (chain : List RkxFreeAsyncEntry) (wild : UInt8) :
    (lookupWalk rpcName code chain 0 wild).1 =
      ((chain.find? fun e => decide (e.key = (rpcName, code))).map
        RkxFreeAsyncEntry.strategy).getD 0 := by
  induction chain generalizing wild with
  | nil => rfl
  | cons e rest ih =>
    by_cases h : e.key = (rpcName, code)
    · rw [lookupWalk_cons_of_eq h, List.find?_cons_of_pos (by simpa using h)]
      rfl
    · rw [lookupWalk_cons_of_ne h, List.find?_cons_of_neg (by simpa using h), ih]

/-- A walk that meets no exact rule passes the whole bucket, so it remembers
the only wildcard rule there is. -/
theorem lookupWalk_wild (chain : List RkxFreeAsyncEntry) (wild : UInt8)
    (nodup : (chain.map RkxFreeAsyncEntry.key).Nodup)
    (absent : chain.find? (fun e => decide (e.key = (rpcName, code))) = none) :
    (lookupWalk rpcName code chain 0 wild).2 =
      ((chain.find? fun e => decide (e.key = (rpcName, -1))).map
        RkxFreeAsyncEntry.strategy).getD wild := by
  induction chain generalizing wild with
  | nil => rfl
  | cons e rest ih =>
    rw [List.map_cons, List.nodup_cons] at nodup
    have hne : e.key ≠ (rpcName, code) := by
      simpa using List.find?_eq_none.mp absent e List.mem_cons_self
    rw [List.find?_cons_of_neg (by simpa using hne)] at absent
    rw [lookupWalk_cons_of_ne hne, ih _ nodup.2 absent]
    by_cases hkey : e.key = (rpcName, -1)
    · -- the remembered strategy survives: no other rule has this key
      have hrest : rest.find? (fun e => decide (e.key = (rpcName, -1))) = none :=
        Chains.find?_eq_none_of_notMem (by rw [← hkey]; exact nodup.1)
      rw [List.find?_cons_of_pos (by simpa using hkey), hrest, if_pos hkey]
      rfl
    · rw [List.find?_cons_of_neg (by simpa using hkey), if_neg hkey]

end Walk

/-! ### The invariant -/

variable {jhash : List UInt8 → UInt32} {s : RkxFreeAsync}

/-- Rules sit in the bucket of their name, no key is held twice, every stored
strategy was validated, and the counter counts the rules modulo `2 ^ 32`. -/
structure Inv (jhash : List UInt8 → UInt32) (s : RkxFreeAsync) : Prop where
  keyed : Chains.WellKeyed RkxFreeAsyncEntry.key (bucketOf jhash) s.map
  valid : ∀ b, ∀ e ∈ s.map b, rkxFreeAsyncStrategyValid e.strategy = true
  counted : s.count = Int32.ofNat s.map.size

theorem inv_init : Inv jhash rkxInitFreeAsync where
  keyed := Chains.wellKeyed_empty
  valid b e he := by simp [rkxInitFreeAsync, Chains.Table.empty] at he
  counted := by simp [rkxInitFreeAsync]

/-- The rule a table holds under a key. -/
def rule (jhash : List UInt8 → UInt32) (s : RkxFreeAsync) (k : RuleKey) :
    Option RkxFreeAsyncEntry :=
  Chains.held RkxFreeAsyncEntry.key (bucketOf jhash) s.map k

theorem Inv.lookup_contents (inv : Inv jhash s) (k : RuleKey) :
    s.contents.lookup k = (rule jhash s k).map RkxFreeAsyncEntry.strategy :=
  inv.keyed.lookup_toFinmap k

theorem Inv.mem_contents (inv : Inv jhash s) (k : RuleKey) :
    k ∈ s.contents ↔ (rule jhash s k).isSome :=
  inv.keyed.mem_toFinmap k

theorem Inv.card_contents (inv : Inv jhash s) : s.contents.keys.card = s.map.size :=
  inv.keyed.card_keys_toFinmap

theorem rkxFreeAsyncStrategyValid_ne_zero {strategy : UInt8}
    (h : rkxFreeAsyncStrategyValid strategy = true) : strategy ≠ 0 := by
  rintro rfl
  revert h
  decide

/-- A held rule never has the strategy zero, which the lookup uses for
"not found". -/
theorem Inv.strategy_ne_zero (inv : Inv jhash s) {k : RuleKey} {e : RkxFreeAsyncEntry}
    (h : rule jhash s k = some e) : e.strategy ≠ 0 :=
  rkxFreeAsyncStrategyValid_ne_zero (inv.valid _ e (Chains.mem_of_held h))

/-- Below `2 ^ 31` rules the counter is positive exactly when there is a rule. -/
theorem Inv.hasEntries_iff (inv : Inv jhash s) (fits : s.contents.keys.card < 2 ^ 31) :
    rkxFreeAsyncHasEntries s = true ↔ s.contents ≠ ∅ := by
  rw [inv.card_contents] at fits
  have hempty : s.contents = ∅ ↔ s.map.size = 0 := inv.keyed.toFinmap_eq_empty_iff
  rw [rkxFreeAsyncHasEntries, decide_eq_true_iff, inv.counted, Int32.lt_iff_toInt_lt,
    Int32.toInt_ofNat_of_lt fits, Ne, hempty]
  change (0 : ℤ) < (s.map.size : ℤ) ↔ _
  omega

/-- The walk a lookup makes, in terms of the contents. -/
theorem Inv.walk_eq (inv : Inv jhash s) (rpcName : CString) (code : Int32) :
    let walked := lookupWalk rpcName code (s.map (bucketOf jhash (rpcName, code))) 0 0
    (if walked.1 ≠ 0 then some walked.1
      else if walked.2 ≠ 0 then some walked.2 else none) =
      s.contents.resolve rpcName code := by
  intro walked
  have hexact : walked.1 = ((rule jhash s (rpcName, code)).map
      RkxFreeAsyncEntry.strategy).getD 0 := lookupWalk_exact _ 0
  rw [RuleMap.resolve, inv.lookup_contents, inv.lookup_contents]
  cases hrule : rule jhash s (rpcName, code) with
  | some e =>
    -- the walk stopped early, but what it remembered until then is not used
    rw [hrule] at hexact
    have hne := inv.strategy_ne_zero hrule
    simp only [Option.map_some, Option.getD_some] at hexact
    simp [hexact, hne]
  | none =>
    have hwild : walked.2 = ((rule jhash s (rpcName, -1)).map
        RkxFreeAsyncEntry.strategy).getD 0 :=
      lookupWalk_wild _ 0 (inv.keyed.nodup _) hrule
    rw [hrule] at hexact
    simp only [Option.map_none, Option.getD_none] at hexact
    cases hrule' : rule jhash s (rpcName, -1) with
    | some e =>
      rw [hrule'] at hwild
      have hne := inv.strategy_ne_zero hrule'
      simp only [Option.map_some, Option.getD_some] at hwild
      simp [hexact, hwild, hne]
    | none =>
      rw [hrule'] at hwild
      simp only [Option.map_none, Option.getD_none] at hwild
      simp [hexact, hwild]

theorem lookup_of_no_entries (h : rkxFreeAsyncHasEntries s = false) (rpcName : CString)
    (code : Int32) (out : UInt8) :
    rkxFreeAsyncLookupRcu jhash s (some rpcName) code (some out) = (false, some out) :=
  if_pos h

/-- A lookup that passes the counter's shortcut answers as the map does. -/
theorem Inv.lookup_of_entries (inv : Inv jhash s) (entries : rkxFreeAsyncHasEntries s = true)
    (rpcName : CString) (code : Int32) (out : UInt8) :
    rkxFreeAsyncLookupRcu jhash s (some rpcName) code (some out) =
      match s.contents.resolve rpcName code with
      | some strategy => (true, some strategy)
      | none => (false, some out) := by
  simp only [rkxFreeAsyncLookupRcu, entries, Bool.true_eq_false, ↓reduceIte]
  rw [← inv.walk_eq rpcName code]
  split_ifs <;> rfl

/-- Below `2 ^ 31` rules a lookup answers as the map does. -/
theorem Inv.lookup_eq (inv : Inv jhash s) (fits : s.contents.keys.card < 2 ^ 31)
    (rpcName : CString) (code : Int32) (out : UInt8) :
    rkxFreeAsyncLookupRcu jhash s (some rpcName) code (some out) =
      match s.contents.resolve rpcName code with
      | some strategy => (true, some strategy)
      | none => (false, some out) := by
  by_cases hentries : rkxFreeAsyncHasEntries s = true
  · exact inv.lookup_of_entries hentries rpcName code out
  · have hempty : s.contents = ∅ := by
      by_contra hne
      exact hentries ((inv.hasEntries_iff fits).mpr hne)
    rw [lookup_of_no_entries (Bool.not_eq_true _ ▸ hentries), hempty]
    rfl

/-- Every strategy in force was validated. -/
theorem Inv.valid_of_resolve (inv : Inv jhash s) {rpcName : CString} {code : Int32}
    {strategy : UInt8} (h : s.contents.resolve rpcName code = some strategy) :
    rkxFreeAsyncStrategyValid strategy = true := by
  have hvalid : ∀ k, s.contents.lookup k = some strategy →
      rkxFreeAsyncStrategyValid strategy = true := by
    intro k hk
    rw [inv.lookup_contents, Option.map_eq_some_iff] at hk
    obtain ⟨e, he, rfl⟩ := hk
    exact inv.valid _ e (Chains.mem_of_held he)
  rcases Option.or_eq_some_iff.mp h with hexact | ⟨-, hwild⟩
  · exact hvalid _ hexact
  · exact hvalid _ hwild

/-! ### Adding a rule -/

section Add

variable {rpcName : CString} {code : Int32} {strategy : UInt8} {kmallocOk : Bool}

theorem add_of_not_admissible (h : ¬ RuleMap.Admissible rpcName code strategy) :
    rkxAddFreeAsync jhash s (some rpcName) code strategy kmallocOk = (-einval, s) := by
  simp only [rkxAddFreeAsync]
  by_cases hargs : rpcName.bytes = [] ∨ code < -1 ∨ rkxFreeAsyncStrategyValid strategy = false
  · rw [if_pos hargs]
  · rw [if_neg hargs, if_pos]
    by_contra hlen
    -- all checks passed, so the rule was admissible after all
    simp only [CString.strnlen, not_or] at hargs hlen
    exact h ⟨by omega, by omega, hargs.2.1, by simpa using hargs.2.2⟩

theorem add_of_admissible (h : RuleMap.Admissible rpcName code strategy) :
    rkxAddFreeAsync jhash s (some rpcName) code strategy kmallocOk =
      match Chains.updateFirst (fun e => decide (e.key = (rpcName, code)))
          (RkxFreeAsyncEntry.setStrategy strategy)
          (s.map (bucketOf jhash (rpcName, code))) with
      | some chain =>
        (0, { s with map := Function.update s.map (bucketOf jhash (rpcName, code)) chain })
      | none =>
        if kmallocOk = true then
          (0, ⟨s.map.addHead (bucketOf jhash (rpcName, code)) ⟨rpcName, code, strategy⟩,
            s.count + 1⟩)
        else (-enomem, s) := by
  obtain ⟨hpos, hshort, hcode, hvalid⟩ := h
  have hargs : ¬ (rpcName.bytes = [] ∨ code < -1 ∨
      rkxFreeAsyncStrategyValid strategy = false) := by
    rintro (hnil | hneg | hinvalid)
    · exact absurd hpos (by simp [CString.strlen, hnil])
    · exact hcode hneg
    · exact absurd hvalid (by simp [hinvalid])
  have hlen : ¬ (rpcName.strnlen rkxInterfacetokenBuffSize = 0 ∨
      rkxInterfacetokenBuffSize ≤ rpcName.strnlen rkxInterfacetokenBuffSize) := by
    simp only [CString.strnlen]
    omega
  simp only [rkxAddFreeAsync, if_neg hargs, if_neg hlen, RkxFreeAsyncEntry.isFor_eq,
    CString.strscpy_of_lt hshort]

section Store

variable {k : RuleKey} {chain : List RkxFreeAsyncEntry}

/-- Overwriting the strategy of a linked rule keeps the invariant. -/
theorem Inv.store (inv : Inv jhash s) (hvalid : rkxFreeAsyncStrategyValid strategy = true)
    (stored : Chains.updateFirst (fun e => decide (e.key = k))
      (RkxFreeAsyncEntry.setStrategy strategy) (s.map (bucketOf jhash k)) = some chain) :
    Inv jhash { s with map := Function.update s.map (bucketOf jhash k) chain } := by
  have keyed := inv.keyed.updateFirst (RkxFreeAsyncEntry.key_setStrategy strategy) stored
  refine ⟨keyed, fun b e he => ?_, ?_⟩
  · -- an entry is what the table holds under its key: the new strategy or an old entry
    have hheld := keyed.held_of_mem he
    rw [Chains.held_updateFirst (RkxFreeAsyncEntry.key_setStrategy strategy) stored] at hheld
    split_ifs at hheld with hk
    · obtain ⟨e', -, rfl⟩ := Option.map_eq_some_iff.mp hheld
      exact hvalid
    · exact inv.valid _ e (Chains.mem_of_held hheld)
  · have hsize := Chains.size_updateFirst (RkxFreeAsyncEntry.key_setStrategy strategy) stored
    rw [hsize]
    exact inv.counted

theorem Inv.contents_store (inv : Inv jhash s)
    (hvalid : rkxFreeAsyncStrategyValid strategy = true)
    (stored : Chains.updateFirst (fun e => decide (e.key = k))
      (RkxFreeAsyncEntry.setStrategy strategy) (s.map (bucketOf jhash k)) = some chain) :
    contents { s with map := Function.update s.map (bucketOf jhash k) chain } =
      Finmap.insert k strategy s.contents := by
  refine Finmap.ext_lookup fun k' => ?_
  rw [(inv.store hvalid stored).lookup_contents, rule,
    Chains.held_updateFirst (RkxFreeAsyncEntry.key_setStrategy strategy) stored]
  by_cases hk : k' = k
  · rw [if_pos hk, hk, Finmap.lookup_insert]
    cases hheld : Chains.held RkxFreeAsyncEntry.key (bucketOf jhash) s.map k with
    | none =>
      rw [Chains.updateFirst_eq_none_iff.mpr hheld] at stored
      cases stored
    | some e => rfl
  · rw [if_neg hk, Finmap.lookup_insert_of_ne _ hk, inv.lookup_contents, rule]

/-- Linking a rule under a fresh key keeps the invariant. -/
theorem Inv.link (inv : Inv jhash s) {e : RkxFreeAsyncEntry}
    (hvalid : rkxFreeAsyncStrategyValid e.strategy = true)
    (absent : rule jhash s e.key = none) :
    Inv jhash ⟨s.map.addHead (bucketOf jhash e.key) e, s.count + 1⟩ := by
  have keyed := inv.keyed.addHead absent
  refine ⟨keyed, fun b e' he' => ?_, ?_⟩
  · have hheld := keyed.held_of_mem he'
    rw [Chains.held_addHead] at hheld
    split_ifs at hheld with hk
    · obtain rfl := Option.some.inj hheld
      exact hvalid
    · exact inv.valid _ e' (Chains.mem_of_held hheld)
  · rw [Chains.size_addHead, Int32.ofNat_add, ← inv.counted]
    rfl

theorem Inv.contents_link (inv : Inv jhash s) {e : RkxFreeAsyncEntry}
    (hvalid : rkxFreeAsyncStrategyValid e.strategy = true)
    (absent : rule jhash s e.key = none) :
    contents ⟨s.map.addHead (bucketOf jhash e.key) e, s.count + 1⟩ =
      Finmap.insert e.key e.strategy s.contents := by
  refine Finmap.ext_lookup fun k => ?_
  rw [(inv.link hvalid absent).lookup_contents, rule, Chains.held_addHead]
  by_cases hk : k = e.key
  · rw [if_pos hk, hk, Finmap.lookup_insert]
    rfl
  · rw [if_neg hk, Finmap.lookup_insert_of_ne _ hk, inv.lookup_contents, rule]

end Store

theorem Inv.add (inv : Inv jhash s) (rpcName : Option CString) (code : Int32)
    (strategy : UInt8) (kmallocOk : Bool) :
    Inv jhash (rkxAddFreeAsync jhash s rpcName code strategy kmallocOk).2 := by
  cases rpcName with
  | none => exact inv
  | some rpcName =>
    by_cases h : RuleMap.Admissible rpcName code strategy
    · rw [add_of_admissible h]
      cases hwalk : Chains.updateFirst (fun e => decide (e.key = (rpcName, code)))
        (RkxFreeAsyncEntry.setStrategy strategy) (s.map (bucketOf jhash (rpcName, code))) with
      | some chain => exact inv.store h.2.2.2 hwalk
      | none =>
        cases kmallocOk with
        | false => exact inv
        | true =>
          exact inv.link (e := ⟨rpcName, code, strategy⟩) h.2.2.2
            (Chains.updateFirst_eq_none_iff.mp hwalk)
    · rw [add_of_not_admissible h]
      exact inv

/-- Adding to the table is adding to its contents. -/
theorem Inv.contents_add (inv : Inv jhash s) (rpcName : Option CString) (code : Int32)
    (strategy : UInt8) (kmallocOk : Bool) :
    Prod.map id contents (rkxAddFreeAsync jhash s rpcName code strategy kmallocOk) =
      s.contents.add rpcName code strategy kmallocOk := by
  cases rpcName with
  | none => rfl
  | some rpcName =>
    by_cases h : RuleMap.Admissible rpcName code strategy
    · rw [RuleMap.add, if_pos h, add_of_admissible h]
      cases hwalk : Chains.updateFirst (fun e => decide (e.key = (rpcName, code)))
        (RkxFreeAsyncEntry.setStrategy strategy) (s.map (bucketOf jhash (rpcName, code))) with
      | some chain =>
        have present : (rpcName, code) ∈ s.contents := by
          rw [inv.mem_contents, Option.isSome_iff_ne_none]
          intro absent
          rw [Chains.updateFirst_eq_none_iff.mpr absent] at hwalk
          cases hwalk
        rw [if_pos (Or.inl present)]
        exact Prod.ext rfl (inv.contents_store h.2.2.2 hwalk)
      | none =>
        have absent : rule jhash s (rpcName, code) = none :=
          Chains.updateFirst_eq_none_iff.mp hwalk
        have notMem : (rpcName, code) ∉ s.contents := by
          rw [inv.mem_contents, absent]
          exact Bool.false_ne_true
        cases kmallocOk with
        | false =>
          have hneither : ¬ ((rpcName, code) ∈ s.contents ∨ false = true) := by
            simp [notMem]
          exact (if_neg hneither).symm
        | true =>
          rw [if_pos (Or.inr rfl)]
          exact Prod.ext rfl (inv.contents_link (e := ⟨rpcName, code, strategy⟩) h.2.2.2 absent)
    · rw [add_of_not_admissible h, RuleMap.add, if_neg h]
      rfl

/-- An admissible rule whose allocation would succeed is in the map afterwards. -/
theorem Inv.contents_add_of_admissible (inv : Inv jhash s)
    (h : RuleMap.Admissible rpcName code strategy) :
    (rkxAddFreeAsync jhash s (some rpcName) code strategy true).2.contents =
      Finmap.insert (rpcName, code) strategy s.contents := by
  have hadd := inv.contents_add (some rpcName) code strategy true
  rw [RuleMap.add, if_pos h, if_pos (Or.inr rfl)] at hadd
  exact congrArg Prod.snd hadd

/-- A call that fails leaves the table as it is. -/
theorem add_unchanged (failed : (rkxAddFreeAsync jhash s (some rpcName) code strategy
    kmallocOk).1 ≠ 0) :
    (rkxAddFreeAsync jhash s (some rpcName) code strategy kmallocOk).2 = s := by
  by_cases h : RuleMap.Admissible rpcName code strategy
  · rw [add_of_admissible h] at failed ⊢
    split at failed
    · exact absurd rfl failed
    · split_ifs at failed ⊢
      · exact absurd rfl failed
      · rfl
  · rw [add_of_not_admissible h]

/-- A call that succeeds leaves its rule in the table. -/
theorem Inv.lookup_of_add (inv : Inv jhash s)
    (succeeded : (rkxAddFreeAsync jhash s (some rpcName) code strategy kmallocOk).1 = 0) :
    (rkxAddFreeAsync jhash s (some rpcName) code strategy kmallocOk).2.contents.lookup
      (rpcName, code) = some strategy := by
  have hadd := inv.contents_add (some rpcName) code strategy kmallocOk
  have hreturn := congrArg Prod.fst hadd
  have hcontents := congrArg Prod.snd hadd
  simp only [Prod.map_fst, Prod.map_snd, id_eq] at hreturn hcontents
  rw [succeeded, RuleMap.add] at hreturn
  rw [hcontents, RuleMap.add]
  split_ifs at hreturn ⊢
  · exact Finmap.lookup_insert _
  · cases hreturn
  · cases hreturn

end Add

/-! ### Deleting rules -/

theorem del_of_refused {rpcName : CString} {code : Int32}
    (h : rpcName.strlen = 0 ∨ code < -1) :
    rkxDelFreeAsync jhash s (some rpcName) code = (-einval, s) := by
  rw [CString.strlen, List.length_eq_zero_iff] at h
  simp only [rkxDelFreeAsync, if_pos h]

theorem del_of_accepted {rpcName : CString} {code : Int32}
    (h : ¬ (rpcName.strlen = 0 ∨ code < -1)) :
    rkxDelFreeAsync jhash s (some rpcName) code =
      match Chains.unlinkFirst (fun e => decide (RkxFreeAsyncEntry.key e = (rpcName, code)))
          (s.map (bucketOf jhash (rpcName, code))) with
      | some chain =>
        (0, ⟨Function.update s.map (bucketOf jhash (rpcName, code)) chain, s.count - 1⟩)
      | none => (0, s) := by
  rw [CString.strlen, List.length_eq_zero_iff] at h
  simp only [rkxDelFreeAsync, if_neg h, RkxFreeAsyncEntry.isFor_eq]

section Unlink

variable {k : RuleKey} {chain : List RkxFreeAsyncEntry}

/-- Unlinking a rule keeps the invariant. -/
theorem Inv.unlink (inv : Inv jhash s)
    (unlinked : Chains.unlinkFirst (fun e => decide (RkxFreeAsyncEntry.key e = k))
      (s.map (bucketOf jhash k)) = some chain) :
    Inv jhash ⟨Function.update s.map (bucketOf jhash k) chain, s.count - 1⟩ := by
  have keyed := inv.keyed.unlinkFirst unlinked
  refine ⟨keyed, fun b e he => ?_, ?_⟩
  · have hheld := keyed.held_of_mem he
    rw [inv.keyed.held_unlinkFirst unlinked] at hheld
    split_ifs at hheld with hk
    exact inv.valid _ e (Chains.mem_of_held hheld)
  · have hsize := Chains.size_unlinkFirst unlinked
    change s.count - 1 = _
    rw [inv.counted, ← hsize, Int32.ofNat_add]
    exact Int32.add_sub_cancel _ _

theorem Inv.contents_unlink (inv : Inv jhash s)
    (unlinked : Chains.unlinkFirst (fun e => decide (RkxFreeAsyncEntry.key e = k))
      (s.map (bucketOf jhash k)) = some chain) :
    contents ⟨Function.update s.map (bucketOf jhash k) chain, s.count - 1⟩ =
      Finmap.erase k s.contents := by
  refine Finmap.ext_lookup fun k' => ?_
  rw [(inv.unlink unlinked).lookup_contents, rule, inv.keyed.held_unlinkFirst unlinked]
  by_cases hk : k' = k
  · rw [if_pos hk, hk, Finmap.lookup_erase]
    rfl
  · rw [if_neg hk, Finmap.lookup_erase_ne hk, inv.lookup_contents, rule]

end Unlink

theorem Inv.del (inv : Inv jhash s) (rpcName : Option CString) (code : Int32) :
    Inv jhash (rkxDelFreeAsync jhash s rpcName code).2 := by
  cases rpcName with
  | none => exact inv
  | some rpcName =>
    by_cases h : rpcName.strlen = 0 ∨ code < -1
    · rw [del_of_refused h]
      exact inv
    · rw [del_of_accepted h]
      cases hwalk : Chains.unlinkFirst (fun e => decide (RkxFreeAsyncEntry.key e = (rpcName, code)))
        (s.map (bucketOf jhash (rpcName, code))) with
      | some chain => exact inv.unlink hwalk
      | none => exact inv

/-- Deleting from the table is deleting from its contents. -/
theorem Inv.contents_del (inv : Inv jhash s) (rpcName : Option CString) (code : Int32) :
    Prod.map id contents (rkxDelFreeAsync jhash s rpcName code) =
      s.contents.del rpcName code := by
  cases rpcName with
  | none => rfl
  | some rpcName =>
    by_cases h : rpcName.strlen = 0 ∨ code < -1
    · rw [del_of_refused h, RuleMap.del, if_pos h]
      rfl
    · rw [del_of_accepted h, RuleMap.del, if_neg h]
      cases hwalk : Chains.unlinkFirst (fun e => decide (RkxFreeAsyncEntry.key e = (rpcName, code)))
        (s.map (bucketOf jhash (rpcName, code))) with
      | some chain => exact Prod.ext rfl (inv.contents_unlink hwalk)
      | none =>
        -- erasing an absent key leaves the map alone
        have absent : rule jhash s (rpcName, code) = none :=
          Chains.unlinkFirst_eq_none_iff.mp hwalk
        refine Prod.ext rfl (Finmap.ext_lookup fun k => ?_)
        change s.contents.lookup k = _
        by_cases hk : k = (rpcName, code)
        · rw [hk, Finmap.lookup_erase, inv.lookup_contents, absent]
          rfl
        · rw [Finmap.lookup_erase_ne hk]

section Del

variable {rpcName : CString} {code : Int32}

theorem del_unchanged (failed : (rkxDelFreeAsync jhash s (some rpcName) code).1 ≠ 0) :
    (rkxDelFreeAsync jhash s (some rpcName) code).2 = s := by
  by_cases h : rpcName.strlen = 0 ∨ code < -1
  · rw [del_of_refused h]
  · rw [del_of_accepted h] at failed
    split at failed
    · exact absurd rfl failed
    · exact absurd rfl failed

/-- A deletion that succeeds leaves no rule under its key. -/
theorem Inv.notMem_of_del (inv : Inv jhash s)
    (succeeded : (rkxDelFreeAsync jhash s (some rpcName) code).1 = 0) :
    (rpcName, code) ∉ (rkxDelFreeAsync jhash s (some rpcName) code).2.contents := by
  have hdel := inv.contents_del (some rpcName) code
  have hreturn := congrArg Prod.fst hdel
  have hcontents := congrArg Prod.snd hdel
  simp only [Prod.map_fst, Prod.map_snd, id_eq] at hreturn hcontents
  rw [succeeded, RuleMap.del] at hreturn
  rw [hcontents, RuleMap.del]
  split_ifs at hreturn ⊢
  · cases hreturn
  · exact Finmap.notMem_erase_self

end Del

theorem rkxDestroyFreeAsync_eq_init (s : RkxFreeAsync) :
    rkxDestroyFreeAsync s = rkxInitFreeAsync := by
  rw [rkxDestroyFreeAsync, Chains.Table.unlinkAll_eq_empty]
  rfl

@[simp] theorem contents_init : contents rkxInitFreeAsync = ∅ :=
  (@inv_init fun _ => 0).keyed.toFinmap_eq_empty_iff.mpr Chains.Table.size_empty

/-! ### Every run -/

theorem Inv.call (inv : Inv jhash s) (call : FreeAsyncCall) : Inv jhash (call.run jhash s) := by
  cases call with
  | add rpcName code strategy kmallocOk => exact inv.add rpcName code strategy kmallocOk
  | del rpcName code => exact inv.del rpcName code
  | destroy =>
    rw [FreeAsyncCall.run, rkxDestroyFreeAsync_eq_init]
    exact inv_init

/-- The invariant holds after every sequence of calls. -/
theorem inv_after (calls : List FreeAsyncCall) : Inv jhash (freeAsyncAfter jhash calls) :=
  Transition.invariant_foldl (fun _ call inv => inv.call call) inv_init calls

/-- **The rule table is a finite map.** After any sequence of calls, with any
arguments, allocation failures and hash function, adding, deleting and
destroying act on the contents of the table as on a finite map. While it holds
fewer than `2 ^ 31` rules, the counter tells whether it is empty and a lookup
returns the rule for the exact code, else the wildcard rule, else nothing. -/
theorem freeAsync_refines_ruleMap (jhash : List UInt8 → UInt32) (calls : List FreeAsyncCall) :
    (freeAsyncAfter jhash []).contents = ∅ ∧
    ((freeAsyncAfter jhash calls).contents.keys.card < 2 ^ 31 →
      (rkxFreeAsyncHasEntries (freeAsyncAfter jhash calls) = true ↔
        (freeAsyncAfter jhash calls).contents ≠ ∅) ∧
      ∀ rpcName code out,
        rkxFreeAsyncLookupRcu jhash (freeAsyncAfter jhash calls) (some rpcName) code (some out) =
          match (freeAsyncAfter jhash calls).contents.resolve rpcName code with
          | some strategy => (true, some strategy)
          | none => (false, some out)) ∧
    (∀ rpcName code strategy kmallocOk,
      Prod.map id contents
          (rkxAddFreeAsync jhash (freeAsyncAfter jhash calls) rpcName code strategy kmallocOk) =
        (freeAsyncAfter jhash calls).contents.add rpcName code strategy kmallocOk) ∧
    (∀ rpcName code,
      Prod.map id contents (rkxDelFreeAsync jhash (freeAsyncAfter jhash calls) rpcName code) =
        (freeAsyncAfter jhash calls).contents.del rpcName code) ∧
    (rkxDestroyFreeAsync (freeAsyncAfter jhash calls)).contents = ∅ := by
  have inv : Inv jhash (freeAsyncAfter jhash calls) := inv_after calls
  refine ⟨contents_init, fun fits => ⟨inv.hasEntries_iff fits, inv.lookup_eq fits⟩,
    inv.contents_add, inv.contents_del, ?_⟩
  rw [rkxDestroyFreeAsync_eq_init, contents_init]

/-! ### Where the counter gives out

One name has room for `2 ^ 31` non-negative codes. Once they are all linked the
counter has wrapped to its most negative value. -/

/-- The one-letter name `a`. -/
def nameA : CString := ⟨[97], by decide⟩

/-- One rule for each of the codes below `n`. -/
def fillCalls (n : ℕ) : List FreeAsyncCall :=
  (List.range n).map fun i => .add (some nameA) (Int32.ofNat i) rkxFreeAsyncByCode true

theorem admissible_nameA {i : ℕ} (h : i < 2 ^ 31) :
    RuleMap.Admissible nameA (Int32.ofNat i) rkxFreeAsyncByCode := by
  refine ⟨by decide, by decide, ?_, by decide⟩
  rw [Int32.lt_iff_toInt_lt, Int32.toInt_ofNat_of_lt h]
  change ¬ (i : ℤ) < -1
  omega

theorem mem_contents_fillCalls {n : ℕ} (h : n ≤ 2 ^ 31) (k : RuleKey) :
    k ∈ (freeAsyncAfter jhash (fillCalls n)).contents ↔
      ∃ i < n, k = (nameA, Int32.ofNat i) := by
  induction n with
  | zero =>
    change k ∈ contents rkxInitFreeAsync ↔ _
    rw [contents_init]
    simpa using Finmap.notMem_empty
  | succ n ih =>
    have hstep : freeAsyncAfter jhash (fillCalls (n + 1)) =
        (rkxAddFreeAsync jhash (freeAsyncAfter jhash (fillCalls n)) (some nameA)
          (Int32.ofNat n) rkxFreeAsyncByCode true).2 := by
      simp only [fillCalls, List.range_succ, List.map_append, freeAsyncAfter,
        List.foldl_append]
      rfl
    rw [hstep, (inv_after (fillCalls n)).contents_add_of_admissible
      (admissible_nameA (by omega)), Finmap.mem_insert, ih (by omega)]
    constructor
    · rintro (rfl | ⟨i, hi, rfl⟩)
      · exact ⟨n, by omega, rfl⟩
      · exact ⟨i, by omega, rfl⟩
    · rintro ⟨i, hi, rfl⟩
      rcases Nat.lt_succ_iff_lt_or_eq.mp hi with hlt | rfl
      · exact Or.inr ⟨i, hlt, rfl⟩
      · exact Or.inl rfl

theorem card_contents_fillCalls {n : ℕ} (h : n ≤ 2 ^ 31) :
    (freeAsyncAfter jhash (fillCalls n)).contents.keys.card = n := by
  have hkeys : (freeAsyncAfter jhash (fillCalls n)).contents.keys =
      (Finset.range n).image fun i => (nameA, Int32.ofNat i) := by
    ext k
    rw [Finmap.mem_keys, mem_contents_fillCalls h, Finset.mem_image]
    constructor
    · rintro ⟨i, hi, rfl⟩
      exact ⟨i, Finset.mem_range.mpr hi, rfl⟩
    · rintro ⟨i, hi, rfl⟩
      exact ⟨i, Finset.mem_range.mp hi, rfl⟩
  rw [hkeys, Finset.card_image_of_injOn, Finset.card_range]
  -- below `2 ^ 31` distinct numbers are distinct codes
  intro i hi j hj hij
  have hi' := Finset.mem_range.mp hi
  have hj' := Finset.mem_range.mp hj
  have htoInt := congrArg Int32.toInt (Prod.mk.inj hij).2
  rw [Int32.toInt_ofNat_of_lt (by omega), Int32.toInt_ofNat_of_lt (by omega)] at htoInt
  exact_mod_cast htoInt

/-- The refinement at a table of one rule: it is known to be non-empty. -/
theorem freeAsync_refines_ruleMap_one :
    (freeAsyncAfter (fun _ => 0) (fillCalls 1)).contents.keys.card < 2 ^ 31 ∧
      rkxFreeAsyncHasEntries (freeAsyncAfter (fun _ => 0) (fillCalls 1)) = true := by
  have hcard : (freeAsyncAfter (fun _ => 0) (fillCalls 1)).contents.keys.card = 1 :=
    card_contents_fillCalls (by omega)
  have hfits : (freeAsyncAfter (fun _ => 0) (fillCalls 1)).contents.keys.card < 2 ^ 31 := by
    rw [hcard]
    omega
  refine ⟨hfits, ((freeAsync_refines_ruleMap _ (fillCalls 1)).2.1 hfits).1.mpr ?_⟩
  intro hempty
  rw [hempty] at hcard
  cases hcard

/-- With `2 ^ 31` rules linked the table says it has none, and a lookup of a
rule that is there finds nothing. -/
theorem lookup_fails_at_two_pow_31 :
    (freeAsyncAfter (fun _ => 0) (fillCalls (2 ^ 31))).contents ≠ ∅ ∧
    (nameA, (0 : Int32)) ∈ (freeAsyncAfter (fun _ => 0) (fillCalls (2 ^ 31))).contents ∧
    rkxFreeAsyncHasEntries (freeAsyncAfter (fun _ => 0) (fillCalls (2 ^ 31))) = false ∧
    rkxFreeAsyncLookupRcu (fun _ => 0) (freeAsyncAfter (fun _ => 0) (fillCalls (2 ^ 31)))
      (some nameA) 0 (some 1) = (false, some 1) := by
  have inv : Inv (fun _ => 0) (freeAsyncAfter (fun _ => 0) (fillCalls (2 ^ 31))) :=
    inv_after (fillCalls (2 ^ 31))
  have hmem : (nameA, (0 : Int32)) ∈
      (freeAsyncAfter (fun _ => 0) (fillCalls (2 ^ 31))).contents :=
    (mem_contents_fillCalls le_rfl _).mpr ⟨0, by omega, rfl⟩
  have hcount : (freeAsyncAfter (fun _ => 0) (fillCalls (2 ^ 31))).count =
      Int32.ofNat (2 ^ 31) := by
    rw [inv.counted, ← inv.card_contents, card_contents_fillCalls le_rfl]
  have hentries :
      rkxFreeAsyncHasEntries (freeAsyncAfter (fun _ => 0) (fillCalls (2 ^ 31))) = false := by
    rw [rkxFreeAsyncHasEntries, hcount]
    decide
  refine ⟨fun hempty => ?_, hmem, hentries, lookup_of_no_entries hentries _ _ _⟩
  rw [hempty] at hmem
  exact Finmap.notMem_empty hmem

end RkxFreeAsync

end ReKernelX
