import ReKernelX.Foundation.RcuList
import ReKernelX.Module.FreeAsync

/-!
# The rule table in memory

The rule table of `FreeAsync` once more, with addresses: a bucket is a chain of
addresses, the entries are in memory, and an entry that has been unlinked stays
there with its pointer for those who still stand on it. Adds and deletes hold the
mutex; each takes effect by a single store, and updates the counter by another.

As far as the linked entries are concerned, that one store does what the whole
call does in `FreeAsync`. For those who follow pointers, there are only three kinds
of stores: to the strategy of a linked entry, linking a new one, and unlinking one.
-/

set_option autoImplicit false

namespace ReKernelX

open Bytes

/-! ### The table -/

/-- The static state of `rkx_free_async.c`, with the entries in memory. An address is
not used again while a lookup may hold it, here: never. -/
structure RcuTable where
  chain : Fin 64 → Rcu.Chain ℕ
  entry : ℕ → RkxFreeAsyncEntry
  fresh : ℕ
  count : Int32

namespace RcuTable

/-- The entries linked in each bucket. -/
def map (t : RcuTable) : Chains.Table 64 RkxFreeAsyncEntry :=
  fun b => (t.chain b).live.map t.entry

/-- The rules a table holds. -/
def contents (t : RcuTable) : RuleMap :=
  Chains.toFinmap RkxFreeAsyncEntry.key RkxFreeAsyncEntry.strategy t.map

/-- `WRITE_ONCE(entry->strategy, strategy)` -/
def store (t : RcuTable) (n : ℕ) (strategy : UInt8) : RcuTable :=
  { t with entry := Function.update t.entry n ((t.entry n).setStrategy strategy) }

/-- A new entry and `hash_add_rcu`. -/
def link (t : RcuTable) (b : Fin 64) (e : RkxFreeAsyncEntry) : RcuTable :=
  { t with
    chain := Function.update t.chain b ((t.chain b).link t.fresh)
    entry := Function.update t.entry t.fresh e
    fresh := t.fresh + 1 }

/-- `hash_del_rcu` -/
def unlink (t : RcuTable) (b : Fin 64) (n : ℕ) : RcuTable :=
  { t with chain := Function.update t.chain b ((t.chain b).unlink n) }

/-- After `rkx_init_free_async`. -/
def init : RcuTable where
  chain _ := ⟨[], fun _ => none⟩
  entry _ := ⟨CString.ofArray [], 0, 0⟩
  fresh := 0
  count := 0

end RcuTable

/-! ### Writers -/

/-- A call that takes the mutex. -/
inductive RuleOp
  | add (rpcName : CString) (code : Int32) (strategy : UInt8) (kmallocOk : Bool)
  | del (rpcName : CString) (code : Int32)

/-- The checks made before the mutex is taken. -/
def RuleOp.Accepted : RuleOp → Prop
  | .add rpcName code strategy _ => RuleMap.Admissible rpcName code strategy
  | .del rpcName code => ¬ (rpcName.bytes = [] ∨ code < -1)

instance (op : RuleOp) : Decidable op.Accepted := by
  cases op <;> unfold RuleOp.Accepted <;> infer_instance

/-- What a call makes of the rules. -/
def RuleOp.apply (m : RuleMap) : RuleOp → RuleMap
  | .add rpcName code strategy kmallocOk =>
    (RuleMap.add m (some rpcName) code strategy kmallocOk).2
  | .del rpcName code => (RuleMap.del m (some rpcName) code).2

/-- Where a call stands in its critical section. -/
inductive WriterStage
  /-- It holds the mutex. -/
  | entered
  /-- It has linked an entry and has to count it. -/
  | linked
  /-- It has unlinked an entry and has to count that. -/
  | unlinked
  /-- It has to release the mutex. -/
  | finished
  deriving DecidableEq

/-- The call that holds the mutex, and the rules there were when it took it. -/
structure Section where
  op : RuleOp
  before : RuleMap
  stage : WriterStage

section Code

variable (jhash : List UInt8 → UInt32)

/-- The walk of a writer: only writers change the chain, so it is one step. -/
def RcuTable.find (t : RcuTable) (rpcName : CString) (code : Int32) : Option ℕ :=
  (t.chain (bucketOf jhash (rpcName, code))).live.find? fun n =>
    RkxFreeAsyncEntry.isFor rpcName code (t.entry n)

/-- The store by which a call takes effect, if it has any. -/
def RcuTable.effect (t : RcuTable) : RuleOp → RcuTable × WriterStage
  | .add rpcName code strategy kmallocOk =>
    match t.find jhash rpcName code with
    | some n => (t.store n strategy, .finished)
    | none =>
      if kmallocOk then
        (t.link (bucketOf jhash (rpcName, code))
          ⟨rpcName.strscpy rkxInterfacetokenBuffSize, code, strategy⟩, .linked)
      else (t, .finished)
  | .del rpcName code =>
    match t.find jhash rpcName code with
    | some n => (t.unlink (bucketOf jhash (rpcName, code)) n, .unlinked)
    | none => (t, .finished)

end Code

/-! ### The invariant -/

namespace RcuTable

variable {jhash : List UInt8 → UInt32} {t : RcuTable}

/-- Rules sit in the bucket of their name, no key is held twice, every stored
strategy was validated, and no address is linked twice or still to be allocated. -/
structure Inv (jhash : List UInt8 → UInt32) (t : RcuTable) : Prop where
  keyed : Chains.WellKeyed RkxFreeAsyncEntry.key (bucketOf jhash) t.map
  valid : ∀ b, ∀ e ∈ t.map b, rkxFreeAsyncStrategyValid e.strategy = true
  nodup : ∀ b, (t.chain b).live.Nodup
  allocated : ∀ b, ∀ n ∈ (t.chain b).live, n < t.fresh

/-- The table without addresses, its counter up to date. -/
def plain (t : RcuTable) : RkxFreeAsync := ⟨t.map, Int32.ofNat t.map.size⟩

theorem contents_plain : t.plain.contents = t.contents := rfl

theorem Inv.inv_plain (inv : Inv jhash t) : RkxFreeAsync.Inv jhash t.plain :=
  ⟨inv.keyed, inv.valid, rfl⟩

theorem inv_init : Inv jhash init where
  keyed := Chains.wellKeyed_empty
  valid _ _ he := by cases he
  nodup _ := List.nodup_nil
  allocated _ _ hn := by cases hn

theorem mem_map {b : Fin 64} {n : ℕ} (linked : n ∈ (t.chain b).live) : t.entry n ∈ t.map b :=
  List.mem_map_of_mem linked

theorem Inv.bucket (inv : Inv jhash t) {b : Fin 64} {n : ℕ} (linked : n ∈ (t.chain b).live) :
    bucketOf jhash (t.entry n).key = b :=
  inv.keyed.placed b _ (mem_map linked)

/-- A linked entry is the rule in force for its key. -/
theorem Inv.lookup_of_mem (inv : Inv jhash t) {b : Fin 64} {n : ℕ}
    (linked : n ∈ (t.chain b).live) :
    t.contents.lookup (t.entry n).key = some (t.entry n).strategy := by
  have hheld : Chains.held RkxFreeAsyncEntry.key (bucketOf jhash) t.map (t.entry n).key =
      some (t.entry n) := inv.keyed.held_of_mem (mem_map linked)
  rw [contents, inv.keyed.lookup_toFinmap, hheld, Option.map_some]

/-- A rule in force is a linked entry in the bucket of its key. -/
theorem Inv.exists_of_lookup (inv : Inv jhash t) {k : RuleKey} {strategy : UInt8}
    (h : t.contents.lookup k = some strategy) :
    ∃ n ∈ (t.chain (bucketOf jhash k)).live, (t.entry n).key = k := by
  rw [contents, inv.keyed.lookup_toFinmap, Option.map_eq_some_iff] at h
  obtain ⟨e, he, -⟩ := h
  obtain ⟨n, hn, rfl⟩ := List.mem_map.mp (Chains.mem_of_held he)
  exact ⟨n, hn, Chains.key_of_held he⟩

/-! ### The three stores -/

section Stores

variable {b : Fin 64} {n : ℕ} {k : RuleKey}

/-- An address is linked in one bucket only. -/
theorem Inv.notMem_of_ne (inv : Inv jhash t) (linked : n ∈ (t.chain b).live) {b' : Fin 64}
    (hne : b' ≠ b) : n ∉ (t.chain b').live := by
  intro hother
  exact hne ((inv.bucket hother).symm.trans (inv.bucket linked))

theorem Inv.map_store (inv : Inv jhash t) (linked : n ∈ (t.chain b).live) (strategy : UInt8) :
    (t.store n strategy).map = Function.update t.map b ((t.chain b).live.map
      (Function.update t.entry n ((t.entry n).setStrategy strategy))) := by
  funext b'
  by_cases hb : b' = b
  · subst hb
    rw [Function.update_self]
    rfl
  · rw [Function.update_of_ne hb]
    apply List.map_congr_left
    intro m hm
    have hne : m ≠ n := ne_of_mem_of_not_mem hm (inv.notMem_of_ne linked hb)
    exact Function.update_of_ne hne ..

theorem Inv.map_link (inv : Inv jhash t) (e : RkxFreeAsyncEntry) :
    (t.link b e).map = t.map.addHead b e := by
  -- no linked address is the new one
  have hold : ∀ b', (t.chain b').live.map (Function.update t.entry t.fresh e) = t.map b' := by
    intro b'
    apply List.map_congr_left
    intro m hm
    exact Function.update_of_ne (inv.allocated b' m hm).ne ..
  funext b'
  by_cases hb : b' = b
  · subst hb
    rw [Chains.Table.addHead, Function.update_self, ← hold]
    change (Function.update t.chain b' _ b').live.map _ = _
    rw [Function.update_self]
    change Function.update t.entry t.fresh e t.fresh :: _ = _
    rw [Function.update_self]
    rfl
  · rw [Chains.Table.addHead, Function.update_of_ne hb, ← hold]
    change (Function.update t.chain b _ b').live.map _ = _
    rw [Function.update_of_ne hb]
    rfl

theorem map_unlink : (t.unlink b n).map =
    Function.update t.map b (((t.chain b).live.erase n).map t.entry) := by
  funext b'
  change (Function.update t.chain b _ b').live.map t.entry = _
  by_cases hb : b' = b
  · subst hb
    rw [Function.update_self, Function.update_self]
    rfl
  · rw [Function.update_of_ne hb, Function.update_of_ne hb]
    rfl

end Stores

/-! ### What a call does -/

/-- A change to a table, as it looks to those who follow pointers. -/
inductive Change (jhash : List UInt8 → UInt32) : RcuTable → RcuTable → Prop
  | count {t : RcuTable} (count : Int32) : Change jhash t { t with count := count }
  | store {t : RcuTable} {b : Fin 64} {n : ℕ} {strategy : UInt8}
      (linked : n ∈ (t.chain b).live) (valid : rkxFreeAsyncStrategyValid strategy = true) :
      Change jhash t (t.store n strategy)
  | link {t : RcuTable} {e : RkxFreeAsyncEntry} (absent : t.contents.lookup e.key = none)
      (valid : rkxFreeAsyncStrategyValid e.strategy = true) :
      Change jhash t (t.link (bucketOf jhash e.key) e)
  | unlink {t : RcuTable} {b : Fin 64} {n : ℕ} (linked : n ∈ (t.chain b).live) :
      Change jhash t (t.unlink b n)

/-- What a change can do to one chain. -/
theorem Change.chain {t' : RcuTable} (change : Change jhash t t') (b : Fin 64) :
    t'.chain b = t.chain b ∨
      t'.chain b = (t.chain b).link t.fresh ∧ t.fresh < t'.fresh ∨
      ∃ n ∈ (t.chain b).live, t'.chain b = (t.chain b).unlink n := by
  cases change with
  | count count => exact .inl rfl
  | store linked valid => exact .inl rfl
  | @link e absent valid =>
    change Function.update t.chain _ _ b = _ ∨ Function.update t.chain _ _ b = _ ∧ _ ∨ _
    by_cases hb : b = bucketOf jhash e.key
    · rw [hb, Function.update_self]
      exact .inr (.inl ⟨rfl, Nat.lt_succ_self _⟩)
    · rw [Function.update_of_ne hb]
      exact .inl rfl
  | @unlink b' n linked =>
    change Function.update t.chain _ _ b = _ ∨ _ ∨ ∃ _ ∈ _, Function.update t.chain _ _ b = _
    by_cases hb : b = b'
    · rw [hb, Function.update_self]
      exact .inr (.inr ⟨n, linked, rfl⟩)
    · rw [Function.update_of_ne hb]
      exact .inl rfl

theorem Change.fresh_le {t' : RcuTable} (change : Change jhash t t') : t.fresh ≤ t'.fresh := by
  cases change with
  | link absent valid => exact Nat.le_succ _
  | _ => exact Nat.le_refl _

/-- An entry in memory is changed by a store to its strategy only, and while it is
linked. -/
theorem Change.entry {t' : RcuTable} (change : Change jhash t t') (inv : Inv jhash t) {x : ℕ}
    (hx : x < t.fresh) :
    t'.entry x = t.entry x ∨
      x ∈ (t'.chain (bucketOf jhash (t.entry x).key)).live ∧
        (t'.entry x).key = (t.entry x).key ∧
        rkxFreeAsyncStrategyValid (t'.entry x).strategy = true := by
  cases change with
  | count count => exact .inl rfl
  | @store b n strategy linked valid =>
    change Function.update t.entry _ _ x = _ ∨ x ∈ (t.chain _).live ∧
      (Function.update t.entry _ _ x).key = _ ∧
        rkxFreeAsyncStrategyValid (Function.update t.entry _ _ x).strategy = true
    by_cases hxn : x = n
    · subst hxn
      rw [Function.update_self, inv.bucket linked]
      exact .inr ⟨linked, rfl, valid⟩
    · rw [Function.update_of_ne hxn]
      exact .inl rfl
  | link absent valid => exact .inl (Function.update_of_ne hx.ne ..)
  | unlink linked => exact .inl rfl

theorem Change.key {t' : RcuTable} (change : Change jhash t t') (inv : Inv jhash t) {x : ℕ}
    (hx : x < t.fresh) : (t'.entry x).key = (t.entry x).key := by
  rcases change.entry inv hx with hsame | ⟨-, hkey, -⟩
  · rw [hsame]
  · exact hkey

/-- Addresses stay distinct. -/
theorem Change.nodup {t' : RcuTable} (change : Change jhash t t') (inv : Inv jhash t)
    (b : Fin 64) : (t'.chain b).live.Nodup := by
  rcases change.chain b with h | ⟨h, -⟩ | ⟨n, -, h⟩
  · rw [h]
    exact inv.nodup b
  · rw [h]
    refine List.nodup_cons.mpr ⟨fun hmem => ?_, inv.nodup b⟩
    exact absurd (inv.allocated b _ hmem) (Nat.lt_irrefl _)
  · rw [h]
    exact (inv.nodup b).erase n

theorem Change.allocated {t' : RcuTable} (change : Change jhash t t') (inv : Inv jhash t)
    (b : Fin 64) : ∀ n ∈ (t'.chain b).live, n < t'.fresh := by
  intro m hm
  have hold : m ∈ (t.chain b).live → m < t'.fresh := fun hmem =>
    Nat.lt_of_lt_of_le (inv.allocated b m hmem) change.fresh_le
  rcases change.chain b with h | ⟨h, hfresh⟩ | ⟨n, -, h⟩
  · rw [h] at hm
    exact hold hm
  · rw [h] at hm
    rcases List.mem_cons.mp hm with rfl | hm
    · exact hfresh
    · exact hold hm
  · rw [h] at hm
    exact hold (List.mem_of_mem_erase hm)

/-- Of the linked entries of a bucket, one at most has a given key. -/
theorem Inv.eq_of_key (inv : Inv jhash t) {b : Fin 64} {m n : ℕ} (hm : m ∈ (t.chain b).live)
    (hn : n ∈ (t.chain b).live) (h : (t.entry m).key = (t.entry n).key) : m = n := by
  have hnodup := inv.keyed.nodup b
  rw [map, List.map_map] at hnodup
  exact List.inj_on_of_nodup_map hnodup hm hn h

/-- What a call does to the table without addresses. -/
def runPlain (jhash : List UInt8 → UInt32) (s : RkxFreeAsync) : RuleOp → RkxFreeAsync
  | .add rpcName code strategy kmallocOk =>
    (rkxAddFreeAsync jhash s (some rpcName) code strategy kmallocOk).2
  | .del rpcName code => (rkxDelFreeAsync jhash s (some rpcName) code).2

theorem inv_runPlain {s : RkxFreeAsync} (inv : RkxFreeAsync.Inv jhash s) (op : RuleOp) :
    RkxFreeAsync.Inv jhash (runPlain jhash s op) := by
  cases op with
  | add rpcName code strategy kmallocOk => exact inv.add (some rpcName) code strategy kmallocOk
  | del rpcName code => exact inv.del (some rpcName) code

theorem contents_runPlain {s : RkxFreeAsync} (inv : RkxFreeAsync.Inv jhash s) (op : RuleOp) :
    (runPlain jhash s op).contents = op.apply s.contents := by
  cases op with
  | add rpcName code strategy kmallocOk =>
    exact congrArg Prod.snd (inv.contents_add (some rpcName) code strategy kmallocOk)
  | del rpcName code => exact congrArg Prod.snd (inv.contents_del (some rpcName) code)

/-- What the counter is still to be changed by. -/
def pending : WriterStage → Int32
  | .entered | .finished => 0
  | .linked => 1
  | .unlinked => -1

/-- The store of a call: one of the three kinds, or none, with the effect that the
call has on the table without addresses, up to the counter. -/
structure Effect (jhash : List UInt8 → UInt32) (t : RcuTable) (op : RuleOp) (t' : RcuTable)
    (stage : WriterStage) : Prop where
  change : Change jhash t t'
  map : t'.map = (runPlain jhash t.plain op).map
  counted : (runPlain jhash t.plain op).count = t.plain.count + pending stage
  count : t'.count = t.count
  stage : stage ≠ .entered

theorem find_eq (rpcName : CString) (code : Int32) : t.find jhash rpcName code =
    (t.chain (bucketOf jhash (rpcName, code))).live.find? fun n =>
      decide ((t.entry n).key = (rpcName, code)) := by
  rw [find, RkxFreeAsyncEntry.isFor_eq]

theorem mem_of_find {rpcName : CString} {code : Int32} {n : ℕ}
    (found : t.find jhash rpcName code = some n) :
    n ∈ (t.chain (bucketOf jhash (rpcName, code))).live := by
  rw [find] at found
  exact List.mem_of_find?_eq_some found

theorem Inv.lookup_of_find_none (inv : Inv jhash t) {rpcName : CString} {code : Int32}
    (absent : t.find jhash rpcName code = none) : t.contents.lookup (rpcName, code) = none := by
  rw [Option.eq_none_iff_forall_ne_some]
  intro strategy hlookup
  obtain ⟨n, hn, hkey⟩ := inv.exists_of_lookup hlookup
  rw [find_eq, List.find?_eq_none] at absent
  exact absent n hn (decide_eq_true hkey)

theorem Effect.of_plain {t' : RcuTable} {op : RuleOp} {stage : WriterStage}
    (change : Change jhash t t')
    (plain : runPlain jhash t.plain op = ⟨t'.map, t.plain.count + pending stage⟩)
    (count : t'.count = t.count) (later : stage ≠ .entered) : Effect jhash t op t' stage where
  change := change
  map := by rw [plain]
  counted := by rw [plain]
  count := count
  stage := later

theorem Inv.effect_add (inv : Inv jhash t) {rpcName : CString} {code : Int32} {strategy : UInt8}
    (kmallocOk : Bool) (admissible : RuleMap.Admissible rpcName code strategy) :
    Effect jhash t (.add rpcName code strategy kmallocOk)
      (t.effect jhash (.add rpcName code strategy kmallocOk)).1
      (t.effect jhash (.add rpcName code strategy kmallocOk)).2 := by
  have hwalk : Chains.updateFirst (fun e => decide (e.key = (rpcName, code)))
      (RkxFreeAsyncEntry.setStrategy strategy) (t.plain.map (bucketOf jhash (rpcName, code))) =
      (t.find jhash rpcName code).map fun n => (t.chain (bucketOf jhash (rpcName, code))).live.map
        (Function.update t.entry n ((t.entry n).setStrategy strategy)) := by
    rw [find_eq]
    exact Chains.updateFirst_map (inv.nodup _)
  have hplain := @RkxFreeAsync.add_of_admissible jhash t.plain rpcName code strategy kmallocOk
    admissible
  rw [hwalk] at hplain
  rw [effect]
  cases hfind : t.find jhash rpcName code with
  | some n =>
    have hlinked := mem_of_find hfind
    rw [hfind] at hplain
    refine .of_plain (.store hlinked admissible.2.2.2) ?_ rfl nofun
    rw [runPlain, hplain, inv.map_store hlinked, pending, Int32.add_zero]
    rfl
  | none =>
    rw [hfind] at hplain
    cases kmallocOk with
    | false =>
      refine .of_plain (.count t.count) ?_ rfl nofun
      rw [runPlain, hplain]
      exact congrArg (RkxFreeAsync.mk _) (Int32.add_zero _).symm
    | true =>
      -- the name fits, so the entry has the whole of it
      have hentry : (⟨rpcName.strscpy rkxInterfacetokenBuffSize, code, strategy⟩ :
          RkxFreeAsyncEntry) = ⟨rpcName, code, strategy⟩ := by
        rw [CString.strscpy_of_lt admissible.2.1]
      have habsent := inv.lookup_of_find_none hfind
      simp only [hentry, if_true]
      refine .of_plain (.link (e := ⟨rpcName, code, strategy⟩) habsent admissible.2.2.2) ?_
        rfl nofun
      rw [runPlain, hplain, inv.map_link]
      rfl

theorem effect_del {rpcName : CString} {code : Int32}
    (accepted : ¬ (rpcName.strlen = 0 ∨ code < -1)) :
    Effect jhash t (.del rpcName code) (t.effect jhash (.del rpcName code)).1
      (t.effect jhash (.del rpcName code)).2 := by
  have hwalk : Chains.unlinkFirst (fun e => decide (RkxFreeAsyncEntry.key e = (rpcName, code)))
      (t.plain.map (bucketOf jhash (rpcName, code))) =
      (t.find jhash rpcName code).map fun n =>
        ((t.chain (bucketOf jhash (rpcName, code))).live.erase n).map t.entry := by
    rw [find_eq]
    exact Chains.unlinkFirst_map
  have hplain := @RkxFreeAsync.del_of_accepted jhash t.plain rpcName code accepted
  rw [hwalk] at hplain
  rw [effect]
  cases hfind : t.find jhash rpcName code with
  | some n =>
    rw [hfind] at hplain
    refine .of_plain (.unlink (mem_of_find hfind)) ?_ rfl nofun
    rw [runPlain, hplain, map_unlink, pending, ← Int32.sub_eq_add_neg]
    rfl
  | none =>
    rw [hfind] at hplain
    refine .of_plain (.count t.count) ?_ rfl nofun
    rw [runPlain, hplain, pending, Int32.add_zero]
    rfl

theorem Inv.effect (inv : Inv jhash t) {op : RuleOp} (accepted : op.Accepted) :
    Effect jhash t op (t.effect jhash op).1 (t.effect jhash op).2 := by
  cases op with
  | add rpcName code strategy kmallocOk => exact inv.effect_add kmallocOk accepted
  | del rpcName code =>
    apply effect_del
    rwa [CString.strlen, List.length_eq_zero_iff]

section Effect

variable {t' : RcuTable} {op : RuleOp} {stage : WriterStage}

theorem Effect.inv (effect : Effect jhash t op t' stage) (inv : Inv jhash t) : Inv jhash t' := by
  have hplain : RkxFreeAsync.Inv jhash (runPlain jhash t.plain op) := inv_runPlain inv.inv_plain op
  refine ⟨?_, ?_, effect.change.nodup inv, effect.change.allocated inv⟩
  · rw [effect.map]
    exact hplain.keyed
  · rw [effect.map]
    exact hplain.valid

theorem Effect.contents (effect : Effect jhash t op t' stage) (inv : Inv jhash t) :
    t'.contents = op.apply t.contents := by
  have hplain : t'.contents = (runPlain jhash t.plain op).contents := by
    rw [RcuTable.contents, effect.map]
    rfl
  rw [hplain, contents_runPlain inv.inv_plain, contents_plain]

/-- The counter will be right when what is pending has been done. -/
theorem Effect.card (effect : Effect jhash t op t' stage) (inv : Inv jhash t) :
    Int32.ofNat t'.contents.keys.card =
      Int32.ofNat t.contents.keys.card + pending stage := by
  have hplain : RkxFreeAsync.Inv jhash (runPlain jhash t.plain op) := inv_runPlain inv.inv_plain op
  have hafter : t'.contents.keys.card = (runPlain jhash t.plain op).map.size := by
    rw [effect.contents inv, ← @contents_plain t, ← contents_runPlain inv.inv_plain,
      hplain.card_contents]
  have hbefore : t.contents.keys.card = t.map.size := inv.inv_plain.card_contents
  rw [hafter, hbefore, ← hplain.counted, effect.counted]
  rfl

end Effect

end RcuTable

end ReKernelX
