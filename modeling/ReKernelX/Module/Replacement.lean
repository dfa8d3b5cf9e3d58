import ReKernelX.Foundation.Newest
import ReKernelX.Module.DataEqual

/-!
# Which queued transaction a new one replaces

The comparison of two transactions, given a faithful buffer copy, is equality
of the fields that make them the same message: target task, code, flags,
sender, node identity, no objects, and under `BY_DATA` the data. This is a
partial equivalence, so a queue fed one send at a time keeps exactly the newest
transaction of each class.

The strategy comes from the incoming transaction alone. A queued transaction is
protected by its own rule only as far as its token resolves as the incoming
one's does.
-/

set_option autoImplicit false

namespace ReKernelX

open Bytes

variable {env : KpEnv}

/-! ### The comparison -/

/-- Two one-way transactions without objects that carry the same message as far
as everything but the data goes. -/
structure SameMessage (t1 t2 : BinderTransaction) : Prop where
  oneWay : t1.flags &&& tfOneWay = tfOneWay
  hasTarget : t1.toProc ≠ none
  toProc : t1.toProc = t2.toProc
  code : t1.code = t2.code
  flags : t1.flags = t2.flags
  pid : t1.buffer.pid = t2.buffer.pid
  ptr : t1.buffer.targetNode.ptr = t2.buffer.targetNode.ptr
  cookie : t1.buffer.targetNode.cookie = t2.buffer.targetNode.cookie
  noObjects : t1.buffer.offsetsSize = 0 ∧ t2.buffer.offsetsSize = 0

theorem SameMessage.symm {t1 t2 : BinderTransaction} (h : SameMessage t1 t2) :
    SameMessage t2 t1 where
  oneWay := h.flags ▸ h.oneWay
  hasTarget := h.toProc ▸ h.hasTarget
  toProc := h.toProc.symm
  code := h.code.symm
  flags := h.flags.symm
  pid := h.pid.symm
  ptr := h.ptr.symm
  cookie := h.cookie.symm
  noObjects := h.noObjects.symm

theorem SameMessage.trans {t1 t2 t3 : BinderTransaction} (h : SameMessage t1 t2)
    (h' : SameMessage t2 t3) : SameMessage t1 t3 where
  oneWay := h.oneWay
  hasTarget := h.hasTarget
  toProc := h.toProc.trans h'.toProc
  code := h.code.trans h'.code
  flags := h.flags.trans h'.flags
  pid := h.pid.trans h'.pid
  ptr := h.ptr.trans h'.ptr
  cookie := h.cookie.trans h'.cookie
  noObjects := ⟨h.noObjects.1, h'.noObjects.2⟩

/-- The three tests the code makes before it looks at the strategy. -/
theorem sameMessage_iff (t1 t2 : BinderTransaction) :
    SameMessage t1 t2 ↔
      ¬ (t1.flags &&& t2.flags &&& tfOneWay ≠ tfOneWay ∨ t1.toProc = none ∨ t2.toProc = none) ∧
      (t1.toProc = t2.toProc ∧ t1.code = t2.code ∧ t1.flags = t2.flags ∧
        t1.buffer.pid = t2.buffer.pid ∧
        t1.buffer.targetNode.ptr = t2.buffer.targetNode.ptr ∧
        t1.buffer.targetNode.cookie = t2.buffer.targetNode.cookie) ∧
      ¬ (t1.buffer.offsetsSize ≠ 0 ∨ t2.buffer.offsetsSize ≠ 0) := by
  constructor
  · intro h
    refine ⟨?_, ⟨h.toProc, h.code, h.flags, h.pid, h.ptr, h.cookie⟩, ?_⟩
    · rintro (hflags | hnone | hnone)
      · rw [← h.flags, UInt32.and_self] at hflags
        exact hflags h.oneWay
      · exact h.hasTarget hnone
      · exact h.hasTarget (h.toProc.trans hnone)
    · rintro (h1 | h2)
      · exact h1 h.noObjects.1
      · exact h2 h.noObjects.2
  · rintro ⟨hguard, ⟨htoProc, hcode, hflags, hpid, hptr, hcookie⟩, hobjects⟩
    simp only [not_or, not_not] at hguard hobjects
    refine ⟨?_, hguard.2.1, htoProc, hcode, hflags, hpid, hptr, hcookie, hobjects⟩
    have honeWay := hguard.1
    rwa [← hflags, UInt32.and_self] at honeWay

/-- The comparison of the code: the same message, and under `BY_DATA` the same
data. -/
theorem rkBinderCanUpdateTransaction_iff (faithful : env.Faithful) (t1 t2 : BinderTransaction)
    (strategy : UInt8) :
    rkBinderCanUpdateTransaction env t1 t2 strategy = true ↔
      SameMessage t1 t2 ∧ (strategy = rkxFreeAsyncByCode ∨
        strategy = rkxFreeAsyncByData ∧ t1.buffer.data = t2.buffer.data) := by
  have hdecides := rkxBinderBufferDataEqual_iff (faithful.copiesData t1.buffer)
    (faithful.copiesData t2.buffer)
  rw [rkBinderCanUpdateTransaction, sameMessage_iff]
  constructor
  · intro h
    split_ifs at h with hguard hsame hobjects hcode hdata
    · exact ⟨⟨hguard, hsame, hobjects⟩, Or.inl hcode⟩
    · exact ⟨⟨hguard, hsame, hobjects⟩, Or.inr ⟨hdata, hdecides.mp h⟩⟩
  · rintro ⟨⟨hguard, hsame, hobjects⟩, hstrategy⟩
    rw [if_neg hguard, if_pos hsame, if_neg hobjects]
    rcases hstrategy with hcode | ⟨hdata, hequal⟩
    · rw [if_pos hcode]
    · have hcode : strategy ≠ rkxFreeAsyncByCode := by
        rw [hdata]
        decide
      rw [if_neg hcode, if_pos hdata]
      exact hdecides.mpr hequal

/-- Under `BY_DATA` the comparison has looked at the data. -/
theorem data_of_byData {strategy : UInt8} {sameData : Prop}
    (h : strategy = rkxFreeAsyncByCode ∨ strategy = rkxFreeAsyncByData ∧ sameData)
    (byData : strategy = rkxFreeAsyncByData) : sameData := by
  rcases h with hcode | ⟨-, hsame⟩
  · rw [byData] at hcode
    cases hcode
  · exact hsame

/-! ### The search and the probe -/

/-- A transaction the search returns is queued and can be updated. -/
theorem mem_of_findOutdated {t q : BinderTransaction} {strategy : UInt8}
    {works : List BinderWork}
    (found : rkBinderFindOutdatedTransactionIlocked env t strategy works = some q) :
    BinderWork.transaction q ∈ works ∧ rkBinderCanUpdateTransaction env q t strategy = true := by
  induction works with
  | nil => cases found
  | cons w rest ih =>
    cases w with
    | other type =>
      obtain ⟨hmem, hupdate⟩ := ih found
      exact ⟨List.mem_cons_of_mem _ hmem, hupdate⟩
    | transaction tQueued =>
      rw [rkBinderFindOutdatedTransactionIlocked] at found
      split_ifs at found with hupdate
      · obtain rfl := Option.some.inj found
        exact ⟨List.mem_cons_self, hupdate⟩
      · obtain ⟨hmem, hq⟩ := ih found
        exact ⟨List.mem_cons_of_mem _ hmem, hq⟩

/-- The search fails when nothing queued can be updated. -/
theorem findOutdated_eq_none_iff {t : BinderTransaction} {strategy : UInt8}
    {works : List BinderWork} :
    rkBinderFindOutdatedTransactionIlocked env t strategy works = none ↔
      ∀ q, BinderWork.transaction q ∈ works →
        rkBinderCanUpdateTransaction env q t strategy = false := by
  induction works with
  | nil => simp [rkBinderFindOutdatedTransactionIlocked]
  | cons w rest ih =>
    cases w with
    | other type => simpa [rkBinderFindOutdatedTransactionIlocked] using ih
    | transaction tQueued =>
      rw [rkBinderFindOutdatedTransactionIlocked]
      split_ifs with hupdate
      · simp only [false_iff, not_forall]
        exact ⟨tQueued, List.mem_cons_self, by simp [hupdate]⟩
      · simp [ih, hupdate]

/-- Nothing is compared equal to a transaction that expects a reply. -/
theorem canUpdate_of_not_oneWay {q t : BinderTransaction} {strategy : UInt8}
    (reply : t.flags &&& tfOneWay = 0) :
    rkBinderCanUpdateTransaction env q t strategy = false := by
  rw [rkBinderCanUpdateTransaction, if_pos]
  left
  rw [UInt32.and_assoc, reply, UInt32.and_zero]
  decide

/-- On a list of transactions the search is the first match. -/
theorem findOutdated_map (t : BinderTransaction) (strategy : UInt8)
    (queue : List BinderTransaction) :
    rkBinderFindOutdatedTransactionIlocked env t strategy (queue.map .transaction) =
      queue.find? fun q => rkBinderCanUpdateTransaction env q t strategy := by
  induction queue with
  | nil => rfl
  | cons q rest ih =>
    rw [List.map_cons, rkBinderFindOutdatedTransactionIlocked, ih, List.find?_cons]
    cases rkBinderCanUpdateTransaction env q t strategy <;> rfl

variable {rules : RkxFreeAsync} {kzallocOk : Bool} {t : BinderTransaction} {proc : BinderProc}
  {node : BinderNode}

/-- What the probe can do: nothing, or unlink the transaction the search found
and queue the work that frees it. -/
theorem pre_cases (rules : RkxFreeAsync) (kzallocOk : Bool) (t : BinderTransaction)
    (proc : BinderProc) (node : BinderNode) :
    rkxBinderProcTransactionPre env rules kzallocOk t proc node = (proc, node, none) ∨
    ∃ q, kzallocOk = true ∧ freeAsyncStrategy env rules t ≠ rkxFreeAsyncSkip ∧
      node.hasAsyncTransaction = true ∧ proc.isDead = false ∧ proc.isFrozen = false ∧
      rkBinderFindOutdatedTransactionIlocked env t (freeAsyncStrategy env rules t)
        node.asyncTodo = some q ∧
      rkxBinderProcTransactionPre env rules kzallocOk t proc node =
        ({ proc with tmpRef := proc.tmpRef + 1, outstandingTxns := proc.outstandingTxns - 1 },
          { node with asyncTodo := node.asyncTodo.erase (.transaction q) },
          some ⟨q, q.buffer⟩) := by
  cases hfind : rkBinderFindOutdatedTransactionIlocked env t (freeAsyncStrategy env rules t)
      node.asyncTodo with
  | none =>
    -- every gate leads to the same result
    left
    simp only [rkxBinderProcTransactionPre, hfind, ite_self]
  | some q =>
    simp only [rkxBinderProcTransactionPre, hfind]
    split_ifs with honeWay hfrozen hskip hasync hproc hkzalloc
    any_goals exact Or.inl rfl
    simp only [Bool.or_eq_true, not_or, Bool.not_eq_true] at hproc
    exact Or.inr ⟨q, hkzalloc, hskip, by simpa using hasync, hproc.1, hproc.2, rfl, rfl⟩

/-- With every gate open the probe unlinks what the search finds. A transaction
that expects a reply is turned away earlier, and the search would find nothing
for it. -/
theorem pre_of_open (frozen : rkxIsFrozen (env.task proc.tsk) = true)
    (notSkip : freeAsyncStrategy env rules t ≠ rkxFreeAsyncSkip)
    (pending : node.hasAsyncTransaction = true) (alive : proc.isDead = false)
    (thawed : proc.isFrozen = false) :
    (rkxBinderProcTransactionPre env rules true t proc node).2.1.asyncTodo =
      match rkBinderFindOutdatedTransactionIlocked env t (freeAsyncStrategy env rules t)
        node.asyncTodo with
      | none => node.asyncTodo
      | some q => node.asyncTodo.erase (.transaction q) := by
  by_cases oneWay : t.flags &&& tfOneWay = 0
  · rw [findOutdated_eq_none_iff.mpr fun q _ => canUpdate_of_not_oneWay oneWay]
    simp only [rkxBinderProcTransactionPre, if_pos oneWay]
  · simp only [rkxBinderProcTransactionPre, if_neg oneWay, frozen, if_true, if_neg notSkip,
      pending, alive, thawed, Bool.or_self, Bool.true_eq_false, Bool.false_eq_true, if_false]
    cases rkBinderFindOutdatedTransactionIlocked env t (freeAsyncStrategy env rules t)
      node.asyncTodo <;> rfl

/-! ### The strategy in force -/

/-- The strategy of the map for the token and code of a transaction: the rule
for the exact code, else the wildcard rule, else the default. -/
def strategyInForce (env : KpEnv) (m : RuleMap) (t : BinderTransaction) : UInt8 :=
  let parsed := rkxParseInterfaceToken env t.buffer rkxInterfacetokenBuffSize
  if parsed.1 then (m.resolve parsed.2 t.code.toInt32).getD rkxFreeAsyncByCode
  else rkxFreeAsyncByCode

/-- Past the counter's shortcut the probe uses the strategy in force. -/
theorem freeAsyncStrategy_of_entries (inv : rules.Inv env.jhash)
    (entries : rkxFreeAsyncHasEntries rules = true) (t : BinderTransaction) :
    freeAsyncStrategy env rules t = strategyInForce env rules.contents t := by
  simp only [freeAsyncStrategy, strategyInForce, entries, Bool.true_and]
  split_ifs
  · rw [inv.lookup_of_entries entries]
    cases rules.contents.resolve
      (rkxParseInterfaceToken env t.buffer rkxInterfacetokenBuffSize).2 t.code.toInt32 <;> rfl
  · rfl

theorem freeAsyncStrategy_of_no_entries (none : rkxFreeAsyncHasEntries rules = false)
    (t : BinderTransaction) : freeAsyncStrategy env rules t = rkxFreeAsyncByCode := by
  simp [freeAsyncStrategy, none]

/-- Below `2 ^ 31` rules the probe always uses the strategy in force. -/
theorem freeAsyncStrategy_eq_strategyInForce (inv : rules.Inv env.jhash)
    (fits : rules.contents.keys.card < 2 ^ 31) (t : BinderTransaction) :
    freeAsyncStrategy env rules t = strategyInForce env rules.contents t := by
  by_cases hentries : rkxFreeAsyncHasEntries rules = true
  · exact freeAsyncStrategy_of_entries inv hentries t
  · have hempty : rules.contents = ∅ := by
      by_contra hne
      exact hentries ((inv.hasEntries_iff fits).mpr hne)
    rw [freeAsyncStrategy_of_no_entries (Bool.not_eq_true _ ▸ hentries), strategyInForce, hempty]
    simp [RuleMap.resolve]

/-- The probe only ever settles on one of the three strategies. -/
theorem freeAsyncStrategy_valid (inv : rules.Inv env.jhash) (t : BinderTransaction) :
    rkxFreeAsyncStrategyValid (freeAsyncStrategy env rules t) = true := by
  by_cases hentries : rkxFreeAsyncHasEntries rules = true
  · rw [freeAsyncStrategy_of_entries inv hentries, strategyInForce]
    split_ifs
    · cases hresolve : rules.contents.resolve
        (rkxParseInterfaceToken env t.buffer rkxInterfacetokenBuffSize).2 t.code.toInt32 with
      | none => rfl
      | some strategy => exact inv.valid_of_resolve hresolve
    · rfl
  · rw [freeAsyncStrategy_of_no_entries (Bool.not_eq_true _ ▸ hentries)]
    rfl

theorem strategy_cases {strategy : UInt8} (h : rkxFreeAsyncStrategyValid strategy = true) :
    strategy = rkxFreeAsyncSkip ∨ strategy = rkxFreeAsyncByCode ∨
      strategy = rkxFreeAsyncByData := by
  simpa [rkxFreeAsyncStrategyValid, or_assoc] using h

/-! ### One send after another -/

/-- Two transactions of one class under a choice of strategies: reclaimable, without
objects, equal in every compared field, and under `BY_DATA` equal in their data. -/
def SameClass (strategy : BinderTransaction → UInt8) (t u : BinderTransaction) : Prop :=
  strategy t ≠ rkxFreeAsyncSkip ∧
  (t.buffer.offsetsSize = 0 ∧ u.buffer.offsetsSize = 0) ∧
  t.toProc = u.toProc ∧ t.code = u.code ∧ t.flags = u.flags ∧
  t.buffer.pid = u.buffer.pid ∧
  t.buffer.targetNode.ptr = u.buffer.targetNode.ptr ∧
  t.buffer.targetNode.cookie = u.buffer.targetNode.cookie ∧
  (strategy t = rkxFreeAsyncByData → t.buffer.data = u.buffer.data)

instance {strategy : BinderTransaction → UInt8} : DecidableRel (SameClass strategy) :=
  fun t u => by
    unfold SameClass
    infer_instance

theorem SameClass.data {strategy : BinderTransaction → UInt8} {t u : BinderTransaction}
    (h : SameClass strategy t u) :
    strategy t = rkxFreeAsyncByData → t.buffer.data = u.buffer.data :=
  h.2.2.2.2.2.2.2.2

/-- One send to the node: the probe with its allocation succeeding, then the
driver's own append. -/
def sendOneWay (env : KpEnv) (rules : RkxFreeAsync) (s : BinderProc × BinderNode)
    (t : BinderTransaction) : BinderProc × BinderNode :=
  let probed := rkxBinderProcTransactionPre env rules true t s.1 s.2
  ({ probed.1 with outstandingTxns := probed.1.outstandingTxns + 1 },
    { probed.2.1 with asyncTodo := probed.2.1.asyncTodo ++ [.transaction t] })

/-- A process that is frozen for the module, alive and not frozen for the
driver, and a node that already has an asynchronous transaction. -/
structure Receiving (env : KpEnv) (s : BinderProc × BinderNode) : Prop where
  frozen : rkxIsFrozen (env.task s.1.tsk) = true
  alive : s.1.isDead = false
  thawed : s.1.isFrozen = false
  pending : s.2.hasAsyncTransaction = true

/-- The probe changes none of that. -/
theorem Receiving.probe {s : BinderProc × BinderNode} (receiving : Receiving env s)
    (kzallocOk : Bool) (t : BinderTransaction) :
    Receiving env ((rkxBinderProcTransactionPre env rules kzallocOk t s.1 s.2).1,
      (rkxBinderProcTransactionPre env rules kzallocOk t s.1 s.2).2.1) := by
  rcases @pre_cases env rules kzallocOk t s.1 s.2 with hpre | ⟨q, -, -, -, -, -, -, hpre⟩
  · rw [hpre]
    exact receiving
  · rw [hpre]
    exact ⟨receiving.frozen, receiving.alive, receiving.thawed, receiving.pending⟩

theorem Receiving.sendOneWay {s : BinderProc × BinderNode} (receiving : Receiving env s)
    (t : BinderTransaction) : Receiving env (sendOneWay env rules s t) :=
  have probed := @Receiving.probe env rules s receiving true t
  ⟨probed.frozen, probed.alive, probed.thawed, probed.pending⟩

section Sends

variable {strategy : BinderTransaction → UInt8} {sent : List BinderTransaction}

/-- What the sends have in common: they are one-way, they have a target, and
the strategy is a function of the code. -/
structure UniformSends (strategy : BinderTransaction → UInt8) (sent : List BinderTransaction) :
    Prop where
  oneWay : ∀ t ∈ sent, t.flags &&& tfOneWay ≠ 0
  hasTarget : ∀ t ∈ sent, t.toProc ≠ none
  strategy : ∀ t ∈ sent, ∀ u ∈ sent, t.code = u.code → strategy t = strategy u

theorem and_tfOneWay {flags : UInt32} (h : flags &&& tfOneWay ≠ 0) :
    flags &&& tfOneWay = tfOneWay := by
  have hbit : flags &&& 1 = 0 ∨ flags &&& 1 = 1 := by
    rw [← UInt32.toNat_inj, ← UInt32.toNat_inj, UInt32.toNat_and]
    have hmod := Nat.and_one_is_mod flags.toNat
    simp only [UInt32.toNat_one, UInt32.toNat_zero, hmod]
    omega
  exact hbit.resolve_left h

section Classes

variable (uniform : UniformSends strategy sent)

include uniform

theorem UniformSends.sameMessage {t u : BinderTransaction} (ht : t ∈ sent)
    (h : SameClass strategy t u) : SameMessage t u where
  oneWay := and_tfOneWay (uniform.oneWay t ht)
  hasTarget := uniform.hasTarget t ht
  toProc := h.2.2.1
  code := h.2.2.2.1
  flags := h.2.2.2.2.1
  pid := h.2.2.2.2.2.1
  ptr := h.2.2.2.2.2.2.1
  cookie := h.2.2.2.2.2.2.2.1
  noObjects := h.2.1

theorem UniformSends.sameClass_of_sameMessage {t u : BinderTransaction} (ht : t ∈ sent)
    (hu : u ∈ sent) (h : SameMessage t u) (notSkip : strategy u ≠ rkxFreeAsyncSkip)
    (data : strategy u = rkxFreeAsyncByData → t.buffer.data = u.buffer.data) :
    SameClass strategy t u := by
  rw [← uniform.strategy t ht u hu h.code] at notSkip data
  exact ⟨notSkip, h.noObjects, h.toProc, h.code, h.flags, h.pid, h.ptr, h.cookie, data⟩

theorem UniformSends.sameClass_symm {t u : BinderTransaction} (ht : t ∈ sent) (hu : u ∈ sent)
    (h : SameClass strategy t u) : SameClass strategy u t := by
  have hmessage := uniform.sameMessage ht h
  exact uniform.sameClass_of_sameMessage hu ht hmessage.symm h.1
    fun hdata => (h.data hdata).symm

theorem UniformSends.sameClass_trans {t u v : BinderTransaction} (ht : t ∈ sent)
    (hu : u ∈ sent) (hv : v ∈ sent) (htu : SameClass strategy t u)
    (huv : SameClass strategy u v) : SameClass strategy t v := by
  have htuMessage := uniform.sameMessage ht htu
  have huvMessage := uniform.sameMessage hu huv
  have hstrategy := uniform.strategy u hu v hv huvMessage.code
  refine uniform.sameClass_of_sameMessage ht hv (htuMessage.trans huvMessage)
    (hstrategy ▸ huv.1) fun hdata => ?_
  rw [← hstrategy] at hdata
  have htu' := uniform.strategy t ht u hu htuMessage.code
  exact (htu.data (htu'.trans hdata)).trans (huv.data hdata)

end Classes

variable (inv : rules.Inv env.jhash) (agrees : ∀ t, freeAsyncStrategy env rules t = strategy t)
  (uniform : UniformSends strategy sent)

include inv agrees uniform

/-- The comparison the probe makes is being of one class. -/
theorem UniformSends.canUpdate_iff (faithful : env.Faithful) {q t : BinderTransaction}
    (hq : q ∈ sent) (ht : t ∈ sent) (notSkip : strategy t ≠ rkxFreeAsyncSkip) :
    rkBinderCanUpdateTransaction env q t (strategy t) = true ↔ SameClass strategy q t := by
  rw [rkBinderCanUpdateTransaction_iff faithful]
  constructor
  · rintro ⟨hmessage, hstrategy⟩
    exact uniform.sameClass_of_sameMessage hq ht hmessage notSkip (data_of_byData hstrategy)
  · intro hclass
    have hmessage := uniform.sameMessage hq hclass
    refine ⟨hmessage, ?_⟩
    rcases strategy_cases (agrees t ▸ freeAsyncStrategy_valid inv t) with hskip | hcode | hdata
    · exact absurd hskip notSkip
    · exact Or.inl hcode
    · have hq' := uniform.strategy q hq t ht hmessage.code
      exact Or.inr ⟨hdata, hclass.data (hq'.trans hdata)⟩

/-- One send drops the first queued transaction of the new one's class and
appends the new one. -/
theorem UniformSends.asyncTodo_sendOneWay (faithful : env.Faithful)
    {s : BinderProc × BinderNode} (receiving : Receiving env s)
    {queue : List BinderTransaction} (queued : s.2.asyncTodo = queue.map .transaction)
    (hqueue : ∀ q ∈ queue, q ∈ sent) {t : BinderTransaction} (ht : t ∈ sent) :
    (sendOneWay env rules s t).2.asyncTodo =
      (Newest.push (SameClass strategy) queue t).map .transaction := by
  rw [Newest.push, List.map_append]
  by_cases hskip : strategy t = rkxFreeAsyncSkip
  · -- the probe returns at once, and nothing is of the class of `t`
    have hprobe : rkxBinderProcTransactionPre env rules true t s.1 s.2 = (s.1, s.2, none) := by
      simp only [rkxBinderProcTransactionPre, agrees, hskip, if_true, ite_self]
    have hnone : queue.eraseP (fun q => decide (SameClass strategy q t)) = queue := by
      refine List.eraseP_of_forall_not fun q hq => ?_
      rw [decide_eq_true_iff]
      intro hclass
      exact hclass.1 ((uniform.strategy q (hqueue q hq) t ht
        (uniform.sameMessage (hqueue q hq) hclass).code).trans hskip)
    simp only [sendOneWay, hprobe, hnone, queued]
    rfl
  · have hcompare : ∀ q ∈ queue,
        rkBinderCanUpdateTransaction env q t (strategy t) = decide (SameClass strategy q t) := by
      intro q hq
      rw [Bool.eq_iff_iff, uniform.canUpdate_iff inv agrees faithful (hqueue q hq) ht hskip,
        decide_eq_true_iff]
    have hfind : rkBinderFindOutdatedTransactionIlocked env t (freeAsyncStrategy env rules t)
        s.2.asyncTodo = queue.find? fun q => decide (SameClass strategy q t) := by
      rw [agrees, queued, findOutdated_map, ← List.head?_filter, List.filter_congr hcompare,
        List.head?_filter]
    have hskip' : freeAsyncStrategy env rules t ≠ rkxFreeAsyncSkip := by rwa [agrees]
    simp only [sendOneWay, pre_of_open receiving.frozen hskip'
      receiving.pending receiving.alive receiving.thawed, hfind]
    cases hfound : queue.find? (fun q => decide (SameClass strategy q t)) with
    | none =>
      rw [List.eraseP_of_forall_not (List.find?_eq_none.mp hfound), queued]
      rfl
    | some q =>
      -- the driver unlinks by address, which erases the match itself
      simp only [queued]
      rw [← List.map_erase (fun _ _ h => BinderWork.transaction.inj h),
        Newest.erase_eq_eraseP hfound]
      rfl

/-- The queue a sequence of sends leaves behind, from any queue of earlier
sends. -/
theorem UniformSends.asyncTodo_foldl (faithful : env.Faithful) (ts : List BinderTransaction)
    (hts : ∀ t ∈ ts, t ∈ sent) {s : BinderProc × BinderNode} (receiving : Receiving env s)
    (queue : List BinderTransaction) (queued : s.2.asyncTodo = queue.map .transaction)
    (hqueue : ∀ q ∈ queue, q ∈ sent) :
    (ts.foldl (sendOneWay env rules) s).2.asyncTodo =
      (ts.foldl (Newest.push (SameClass strategy)) queue).map .transaction := by
  -- on the sends, for whatever queue the earlier ones left
  induction ts generalizing s queue with
  | nil => exact queued
  | cons t rest ih =>
    have ht := hts t List.mem_cons_self
    refine ih (fun u hu => hts u (List.mem_cons_of_mem t hu)) (receiving.sendOneWay t) _
      (uniform.asyncTodo_sendOneWay inv agrees faithful receiving queued hqueue ht) ?_
    intro q hq
    rcases List.mem_append.mp hq with hold | hnew
    · exact hqueue q (List.mem_of_mem_eraseP hold)
    · rw [List.mem_singleton.mp hnew]
      exact ht

end Sends

/-- **The queue keeps exactly the newest transaction of each class.** From an
empty `async_todo`, with fewer than `2 ^ 31` rules, after any list of one-way sends
for which the strategy in force depends on the code alone, the queue is the list of
sends without those that a later send of their class replaces, in the order they were
sent. No two transactions of one class are queued, and a send that is not queued was
replaced by a later send of its class that is. -/
theorem asyncTodo_eq_newest_sends {env : KpEnv} (faithful : env.Faithful)
    (calls : List FreeAsyncCall)
    (fits : (freeAsyncAfter env.jhash calls).contents.keys.card < 2 ^ 31)
    (proc : BinderProc) (node : BinderNode)
    (frozen : rkxIsFrozen (env.task proc.tsk) = true) (alive : proc.isDead = false)
    (thawed : proc.isFrozen = false) (pending : node.hasAsyncTransaction = true)
    (empty : node.asyncTodo = []) (ts : List BinderTransaction)
    (oneWay : ∀ t ∈ ts, t.flags &&& tfOneWay ≠ 0) (hasTarget : ∀ t ∈ ts, t.toProc ≠ none)
    (strategy : ∀ t ∈ ts, ∀ u ∈ ts, t.code = u.code →
      strategyInForce env (freeAsyncAfter env.jhash calls).contents t =
        strategyInForce env (freeAsyncAfter env.jhash calls).contents u) :
    let rules := freeAsyncAfter env.jhash calls
    let sameClass := SameClass (strategyInForce env rules.contents)
    let queue := Newest.keepNewest sameClass ts
    (ts.foldl (sendOneWay env rules) (proc, node)).2.asyncTodo = queue.map .transaction ∧
    queue.Pairwise (fun t u => ¬ sameClass t u) ∧
    ∀ earlier t later, ts = earlier ++ t :: later →
      t ∈ queue ∨ ∃ u ∈ later, u ∈ queue ∧ sameClass t u := by
  intro rules sameClass queue
  have inv : rules.Inv env.jhash := RkxFreeAsync.inv_after calls
  have uniform : UniformSends (strategyInForce env rules.contents) ts :=
    ⟨oneWay, hasTarget, strategy⟩
  have htrans : ∀ t ∈ ts, ∀ u ∈ ts, ∀ v ∈ ts,
      sameClass t u → sameClass u v → sameClass t v :=
    fun t ht u hu v hv => uniform.sameClass_trans ht hu hv
  refine ⟨?_, Newest.pairwise_keepNewest ts, ?_⟩
  · -- the probe looks up what is in force, so it compares as the classes do
    have hforce := freeAsyncStrategy_eq_strategyInForce inv fits
    rw [uniform.asyncTodo_foldl inv hforce faithful ts (fun t ht => ht)
        ⟨frozen, alive, thawed, pending⟩ [] empty (by simp),
      Newest.foldl_push_eq_keepNewest (fun t ht u hu => uniform.sameClass_symm ht hu) htrans]
  · intro earlier t later hts
    have hmem : ∀ u ∈ t :: later, u ∈ ts := fun u hu => hts ▸ List.mem_append_right earlier hu
    have hkept := Newest.kept_or_replaced (r := sameClass) earlier later (a := t)
      fun u hu v hv =>
        htrans t (hmem t List.mem_cons_self) u (hmem u (List.mem_cons_of_mem t hu))
          v (hmem v (List.mem_cons_of_mem t hv))
    rwa [← hts] at hkept

/-- A one-way transaction of code 1 with the given data. -/
def oneWayOf (debugId : ℕ) (data : List UInt8) : BinderTransaction where
  debugId := debugId
  flags := tfOneWay
  code := 1
  toProc := some 0
  buffer := ⟨data, 0, 1000, ⟨0, 0, 0⟩⟩

/-- An idle process of task 0. -/
def idleProc : BinderProc := ⟨0, false, false, 0, 0, 0⟩

/-- A parcel with the interface name "a" after its header. -/
def parcelOfA : List UInt8 := List.replicate 16 0 ++ [97, 0, 0, 0]

/-- One rule: for the interface "a", a transaction is replaced by one with its data. -/
def byDataRuleOfA : List FreeAsyncCall :=
  [.add (some RkxFreeAsync.nameA) (-1) rkxFreeAsyncByData true]

theorem card_contents_byDataRuleOfA :
    (freeAsyncAfter frozenEnv.jhash byDataRuleOfA).contents.keys.card < 2 ^ 31 := by
  rw [RkxFreeAsync.Inv.card_contents (RkxFreeAsync.inv_after byDataRuleOfA)]
  decide

/-- Three sends to the interface "a", the first and the last with the same data. -/
def threeSends : List BinderTransaction :=
  [oneWayOf 1 parcelOfA, oneWayOf 2 (parcelOfA ++ [1]), oneWayOf 3 parcelOfA]

/-- Under the rule the last send replaces the first and leaves the second. -/
theorem asyncTodo_eq_newest_sends_byData :
    let rules := freeAsyncAfter frozenEnv.jhash byDataRuleOfA
    (∀ t ∈ threeSends, strategyInForce frozenEnv rules.contents t = rkxFreeAsyncByData) ∧
    (threeSends.foldl (sendOneWay frozenEnv rules) (idleProc, ⟨true, []⟩)).2.asyncTodo =
      [.transaction (oneWayOf 2 (parcelOfA ++ [1])), .transaction (oneWayOf 3 parcelOfA)] := by
  intro rules
  have hforce : ∀ t ∈ threeSends,
      strategyInForce frozenEnv rules.contents t = rkxFreeAsyncByData := by
    intro t ht
    rw [← freeAsyncStrategy_eq_strategyInForce (RkxFreeAsync.inv_after byDataRuleOfA)
      card_contents_byDataRuleOfA]
    revert t
    decide
  have hqueue : (threeSends.foldl (sendOneWay frozenEnv rules) (idleProc, ⟨true, []⟩)).2.asyncTodo =
      (Newest.keepNewest (SameClass (strategyInForce frozenEnv rules.contents)) threeSends).map
        .transaction :=
    (asyncTodo_eq_newest_sends frozenEnv_faithful byDataRuleOfA card_contents_byDataRuleOfA idleProc
      ⟨true, []⟩ rfl rfl rfl rfl rfl threeSends (by decide) (by decide)
      fun t ht u hu _ => (hforce t ht).trans (hforce u hu).symm).1
  have hsame : SameClass (strategyInForce frozenEnv rules.contents) (oneWayOf 1 parcelOfA)
      (oneWayOf 3 parcelOfA) :=
    ⟨by rw [hforce _ (by decide)]; decide, ⟨rfl, rfl⟩, rfl, rfl, rfl, rfl, rfl, rfl, fun _ => rfl⟩
  -- the second one's data differ from the third one's
  have hapart : ¬ SameClass (strategyInForce frozenEnv rules.contents)
      (oneWayOf 2 (parcelOfA ++ [1])) (oneWayOf 3 parcelOfA) :=
    fun h => absurd (h.data (hforce _ (by decide))) (by decide)
  refine ⟨hforce, hqueue.trans ?_⟩
  simp [threeSends, Newest.keepNewest, hsame, hapart]

/-! ### Where the counter gives out -/

/-- Without entries the probe does as with an empty table: it depends on the rules
through the strategy alone. -/
theorem foldl_sendOneWay_of_no_entries (none : rkxFreeAsyncHasEntries rules = false)
    (ts : List BinderTransaction) (s : BinderProc × BinderNode) :
    ts.foldl (sendOneWay env rules) s = ts.foldl (sendOneWay env rkxInitFreeAsync) s := by
  have hsend : sendOneWay env rules = sendOneWay env rkxInitFreeAsync := by
    funext s t
    have hinit : freeAsyncStrategy env rkxInitFreeAsync t = rkxFreeAsyncByCode :=
      freeAsyncStrategy_of_no_entries rfl t
    simp only [sendOneWay, rkxBinderProcTransactionPre, hinit,
      freeAsyncStrategy_of_no_entries none t]
  rw [hsend]

/-- The rules for the interface "a" and the codes below `n`, of which the one for the
code 1 is to skip. -/
def skipAmong (n : ℕ) : List FreeAsyncCall :=
  RkxFreeAsync.fillCalls n ++ [.add (some RkxFreeAsync.nameA) 1 rkxFreeAsyncSkip true]

section Overfull

variable {jhash : List UInt8 → UInt32} {n : ℕ}

theorem contents_skipAmong : (freeAsyncAfter jhash (skipAmong n)).contents =
    Finmap.insert (RkxFreeAsync.nameA, 1) rkxFreeAsyncSkip
      (freeAsyncAfter jhash (RkxFreeAsync.fillCalls n)).contents := by
  have hadmissible : RuleMap.Admissible RkxFreeAsync.nameA 1 rkxFreeAsyncSkip := by decide
  have inv : (freeAsyncAfter jhash (RkxFreeAsync.fillCalls n)).Inv jhash :=
    RkxFreeAsync.inv_after _
  have hadd := inv.contents_add_of_admissible hadmissible
  rw [← hadd, skipAmong, freeAsyncAfter, List.foldl_append]
  rfl

/-- The last call overwrites a rule, so there are as many as before. -/
theorem card_contents_skipAmong (two : 1 < n) (h : n ≤ 2 ^ 31) :
    (freeAsyncAfter jhash (skipAmong n)).contents.keys.card = n := by
  have hheld : (RkxFreeAsync.nameA, (1 : Int32)) ∈
      (freeAsyncAfter jhash (RkxFreeAsync.fillCalls n)).contents :=
    (RkxFreeAsync.mem_contents_fillCalls h _).mpr ⟨1, two, rfl⟩
  have hkeys : (freeAsyncAfter jhash (skipAmong n)).contents.keys =
      (freeAsyncAfter jhash (RkxFreeAsync.fillCalls n)).contents.keys := by
    ext k
    rw [contents_skipAmong, Finmap.mem_keys, Finmap.mem_keys, Finmap.mem_insert]
    exact or_iff_right_of_imp fun hk => hk ▸ hheld
  rw [hkeys, RkxFreeAsync.card_contents_fillCalls h]

theorem strategyInForce_skipAmong (debugId : ℕ) :
    strategyInForce frozenEnv (freeAsyncAfter jhash (skipAmong n)).contents
      (oneWayOf debugId parcelOfA) = rkxFreeAsyncSkip := by
  have hparsed : rkxParseInterfaceToken frozenEnv (oneWayOf debugId parcelOfA).buffer
      rkxInterfacetokenBuffSize = (true, RkxFreeAsync.nameA) := by
    change rkxParseInterfaceToken frozenEnv (oneWayOf 0 parcelOfA).buffer
      rkxInterfacetokenBuffSize = _
    decide
  have hresolve : (freeAsyncAfter jhash (skipAmong n)).contents.resolve RkxFreeAsync.nameA 1 =
      some rkxFreeAsyncSkip := by
    rw [RuleMap.resolve, contents_skipAmong, Finmap.lookup_insert, Option.some_or]
  simp only [strategyInForce, hparsed, if_true]
  exact congrArg (Option.getD · rkxFreeAsyncByCode) hresolve

end Overfull

theorem hasEntries_overfull :
    rkxFreeAsyncHasEntries (freeAsyncAfter frozenEnv.jhash (skipAmong (2 ^ 31))) = false := by
  have inv : (freeAsyncAfter frozenEnv.jhash (skipAmong (2 ^ 31))).Inv frozenEnv.jhash :=
    RkxFreeAsync.inv_after _
  rw [rkxFreeAsyncHasEntries, inv.counted, ← inv.card_contents,
    card_contents_skipAmong (by omega) le_rfl]
  decide

/-- With `2 ^ 31` rules the probe takes the table for empty, and the second of two sends
replaces the first although the rule in force for both is to skip. -/
theorem skipped_sends_replaced_at_two_pow_31 :
    let inForce := strategyInForce frozenEnv
      (freeAsyncAfter frozenEnv.jhash (skipAmong (2 ^ 31))).contents
    inForce (oneWayOf 1 parcelOfA) = rkxFreeAsyncSkip ∧
    inForce (oneWayOf 2 parcelOfA) = rkxFreeAsyncSkip ∧
    Newest.keepNewest (SameClass inForce) [oneWayOf 1 parcelOfA, oneWayOf 2 parcelOfA] =
      [oneWayOf 1 parcelOfA, oneWayOf 2 parcelOfA] ∧
    ([oneWayOf 1 parcelOfA, oneWayOf 2 parcelOfA].foldl
      (sendOneWay frozenEnv (freeAsyncAfter frozenEnv.jhash (skipAmong (2 ^ 31))))
      (idleProc, ⟨true, []⟩)).2.asyncTodo = [.transaction (oneWayOf 2 parcelOfA)] := by
  intro inForce
  have hskip : ∀ debugId, inForce (oneWayOf debugId parcelOfA) = rkxFreeAsyncSkip :=
    strategyInForce_skipAmong
  have hapart : ¬ SameClass inForce (oneWayOf 1 parcelOfA) (oneWayOf 2 parcelOfA) :=
    fun h => h.1 (hskip 1)
  refine ⟨hskip 1, hskip 2, ?_, ?_⟩
  · simp [Newest.keepNewest, hapart]
  · rw [foldl_sendOneWay_of_no_entries hasEntries_overfull]
    decide

/-! ### What protects a queued transaction -/

/-- **The incoming transaction's rule decides.** If the probe unlinks `q` for
the incoming `t`, the strategy in force for `t` is not `SKIP`, and if it is
`BY_DATA` the two carry the same data. A queued transaction whose parcel has
the same token as the incoming one is therefore protected by its own rule. -/
theorem unlinked_of_incoming_rule {env : KpEnv} (faithful : env.Faithful)
    (calls : List FreeAsyncCall)
    (fits : (freeAsyncAfter env.jhash calls).contents.keys.card < 2 ^ 31) (kzallocOk : Bool)
    (t : BinderTransaction) (proc : BinderProc) (node : BinderNode) (q : BinderTransaction)
    (buffer : BinderBuffer)
    (unlinked : (rkxBinderProcTransactionPre env (freeAsyncAfter env.jhash calls) kzallocOk t
      proc node).2.2 = some ⟨q, buffer⟩) :
    let inForce := strategyInForce env (freeAsyncAfter env.jhash calls).contents
    let token := fun u : BinderTransaction =>
      rkxParseInterfaceToken env u.buffer rkxInterfacetokenBuffSize
    (inForce t ≠ rkxFreeAsyncSkip ∧
      (inForce t = rkxFreeAsyncByData → q.buffer.data = t.buffer.data)) ∧
    (token q = token t → inForce q ≠ rkxFreeAsyncSkip ∧
      (inForce q = rkxFreeAsyncByData → q.buffer.data = t.buffer.data)) := by
  intro inForce token
  have inv : (freeAsyncAfter env.jhash calls).Inv env.jhash := RkxFreeAsync.inv_after calls
  have hstrategy : freeAsyncStrategy env (freeAsyncAfter env.jhash calls) t = inForce t :=
    freeAsyncStrategy_eq_strategyInForce inv fits t
  rcases @pre_cases env (freeAsyncAfter env.jhash calls) kzallocOk t proc node with
    hnone | ⟨q', -, hskip, -, -, -, hfound, hpre⟩
  · rw [hnone] at unlinked
    cases unlinked
  · rw [hpre] at unlinked
    cases unlinked
    rw [hstrategy] at hskip hfound
    have hupdate := (mem_of_findOutdated hfound).2
    rw [rkBinderCanUpdateTransaction_iff faithful] at hupdate
    obtain ⟨hsame, hby⟩ := hupdate
    have hincoming : inForce t ≠ rkxFreeAsyncSkip ∧
        (inForce t = rkxFreeAsyncByData → q.buffer.data = t.buffer.data) :=
      ⟨hskip, data_of_byData hby⟩
    refine ⟨hincoming, fun htoken => ?_⟩
    -- the comparison already made the codes agree, so equal tokens resolve alike
    have hforce : inForce q = inForce t := by
      simp only [inForce, strategyInForce]
      rw [show rkxParseInterfaceToken env q.buffer _ = _ from htoken, hsame.code]
    rwa [hforce]

/-- One rule: skip everything of the interface "a". -/
def skipRuleOfA : List FreeAsyncCall :=
  [.add (some RkxFreeAsync.nameA) (-1) rkxFreeAsyncSkip true]

theorem card_contents_skipRuleOfA :
    (freeAsyncAfter frozenEnv.jhash skipRuleOfA).contents.keys.card < 2 ^ 31 := by
  rw [RkxFreeAsync.Inv.card_contents (RkxFreeAsync.inv_after skipRuleOfA)]
  decide

/-- The probe for an incoming transaction of another interface unlinks one of
its own class, and the rule for "a" does not stand in its way. -/
theorem unlinked_of_incoming_rule_empty_parcel :
    strategyInForce frozenEnv (freeAsyncAfter frozenEnv.jhash skipRuleOfA).contents
      (oneWayOf 2 []) ≠ rkxFreeAsyncSkip :=
  (unlinked_of_incoming_rule frozenEnv_faithful skipRuleOfA card_contents_skipRuleOfA true
    (oneWayOf 2 []) idleProc ⟨true, [.transaction (oneWayOf 1 [])]⟩ (oneWayOf 1 [])
    (oneWayOf 1 []).buffer rfl).1.1

/-- An empty parcel has no token and takes the default strategy, so it replaces
a queued transaction of the interface "a" although the table says to skip that
interface. -/
theorem skipped_interface_unlinked :
    (rkxBinderProcTransactionPre frozenEnv (freeAsyncAfter frozenEnv.jhash skipRuleOfA) true
      (oneWayOf 2 []) idleProc ⟨true, [.transaction (oneWayOf 1 parcelOfA)]⟩).2.2 =
        some ⟨oneWayOf 1 parcelOfA, (oneWayOf 1 parcelOfA).buffer⟩ ∧
    strategyInForce frozenEnv (freeAsyncAfter frozenEnv.jhash skipRuleOfA).contents
      (oneWayOf 1 parcelOfA) = rkxFreeAsyncSkip := by
  refine ⟨rfl, ?_⟩
  rw [← freeAsyncStrategy_eq_strategyInForce (RkxFreeAsync.inv_after skipRuleOfA)
    card_contents_skipRuleOfA]
  decide

end ReKernelX
