import ReKernelX.Module.Reclaim

/-!
# What becomes of an outdated transaction

`Reclaim` accounts for the memory of transactions that the module unlinks. This
module accounts for their messages. The probe runs at the entry of
`binder_proc_transaction`, before the transaction it runs for is enqueued, and
unlinks a queued one only in its favour. Superseding transactions can themselves
be superseded, but the chain has an end: a later send of the same message whose
transaction the module has not unlinked.

What is left on a node is handed over in the order in which it was sent.
-/

set_option autoImplicit false

namespace ReKernelX

open Transition

/-- A step of the system, with the probe at the entry of `binder_proc_transaction`: its
transaction has not been enqueued yet. -/
def EntryStep (s : ReclaimState) (a : ReclaimLabel) (s' : ReclaimState) : Prop :=
  ReclaimStep s a s' ∧
    ∀ env rules kzallocOk t, a = .handler env rules kzallocOk t → Effect.enqueued t ∉ s.log

/-- A probe for `t` ran, and by its end `q` was unlinked. -/
def ProbedSince (trace : List (ReclaimLabel × ReclaimState)) (q t : BinderTransaction) : Prop :=
  ∃ env rules kzallocOk s, (ReclaimLabel.handler env rules kzallocOk t, s) ∈ trace ∧
    Effect.unlinked q ∈ s.log

namespace ReclaimState

variable {s s' : ReclaimState} {trace : List (ReclaimLabel × ReclaimState)} {a : ReclaimLabel}
  {tsk : ℕ}

theorem Inv.of_entryRun (run : Run EntryStep (init tsk) trace s) : s.Inv :=
  run.invariant (inv_init tsk) fun _ _ _ inv step => inv.step step.1

/-! ### Superseding transactions -/

/-- What the probe adds to the log: a queued transaction that its own can replace. -/
theorem exists_log_handler (env : KpEnv) (rules : RkxFreeAsync) (kzallocOk : Bool)
    (t : BinderTransaction) (s : ReclaimState) :
    ∃ added, (s.handler env rules kzallocOk t).log = s.log ++ added ∧
      ∀ q, Effect.unlinked q ∈ added →
        BinderWork.transaction q ∈ (s.nodes t.buffer.targetNode.addr).asyncTodo ∧
          rkBinderCanUpdateTransaction env q t (freeAsyncStrategy env rules t) = true := by
  refine ⟨_, rfl, fun q hq => ?_⟩
  rcases @pre_cases env rules kzallocOk t s.proc (s.nodes t.buffer.targetNode.addr) with
    hpre | ⟨found, -, -, -, -, -, hfound, hpre⟩
  · rw [hpre] at hq
    cases hq
  · rw [hpre] at hq
    obtain rfl : q = found := by simpa using hq
    exact mem_of_findOutdated hfound

/-- The log only grows, and only a probe unlinks: a queued transaction that its own can
replace. -/
theorem exists_log_step (step : ReclaimStep s a s') :
    ∃ added, s'.log = s.log ++ added ∧ ∀ q, Effect.unlinked q ∈ added →
      ∃ env rules kzallocOk t, a = .handler env rules kzallocOk t ∧
        BinderWork.transaction q ∈ (s.nodes t.buffer.targetNode.addr).asyncTodo ∧
        rkBinderCanUpdateTransaction env q t (freeAsyncStrategy env rules t) = true := by
  obtain ⟨-, rfl⟩ := step
  cases a with
  | handler env rules kzallocOk t =>
    obtain ⟨added, hlog, hadded⟩ := exists_log_handler env rules kzallocOk t s
    exact ⟨added, hlog, fun q hq => ⟨env, rules, kzallocOk, t, rfl, hadded q hq⟩⟩
  | freeTxn w => exact ⟨freeTxnEffects w, rfl, fun q hq => by simp [freeTxnEffects] at hq⟩
  | enqueue t =>
    refine ⟨[.enqueued t], ?_, fun q hq => by simp at hq⟩
    change (s.enqueue t).log = _
    rw [enqueue]
    split_ifs <;> rfl
  | asyncDone n =>
    refine ⟨[], ?_, fun q hq => by cases hq⟩
    change (s.asyncDone n).log = _
    rw [asyncDone, List.append_nil]
    split <;> rfl
  | free t => exact ⟨[.driverFreed t], rfl, fun q hq => by simp at hq⟩
  | releaseNode | getRef | putRef | threadStart | threadExit | setFrozen | die
  | unregisterKprobe | destroyWorkqueue =>
    exact ⟨[], (List.append_nil _).symm, fun q hq => by cases hq⟩

/-- A transaction that is about to be enqueued was never unlinked and is nobody's. -/
theorem Ledger.not_unlinked (ledger : s.Ledger) {t : BinderTransaction}
    (fresh : Effect.enqueued t ∉ s.log) : Effect.unlinked t ∉ s.log ∧
      ∀ n, BinderWork.transaction t ∉ (s.nodes n).asyncTodo := by
  have hheld := ledger.held t
  rw [List.count_eq_zero.mpr fresh] at hheld
  refine ⟨List.count_eq_zero.mp (by omega), fun n hn => ?_⟩
  have hqueued : 0 < s.queuedAt t := by
    rw [queuedAt, ledger.placed n t hn]
    exact List.count_pos_iff.mpr hn
  omega

/-- Every unlinked transaction has one that supersedes it and is not unlinked. `R` is what
a transaction has in common with those it replaces. -/
theorem exists_superseding {R : BinderTransaction → BinderTransaction → Prop}
    (trans : ∀ q t u, R q t → R t u → R q u) (run : Run EntryStep (init tsk) trace s)
    (replaces : ∀ env rules kzallocOk t s',
      (ReclaimLabel.handler env rules kzallocOk t, s') ∈ trace → ∀ q,
        rkBinderCanUpdateTransaction env q t (freeAsyncStrategy env rules t) = true → R q t)
    (q : BinderTransaction) (hq : Effect.unlinked q ∈ s.log) :
    ∃ t, ProbedSince trace q t ∧ R q t ∧ Effect.unlinked t ∉ s.log := by
  induction run generalizing q with
  | nil => cases hq
  | @snoc trace s s' a run step ih =>
    have inv : s.Inv := Inv.of_entryRun run
    have hsub : ∀ e ∈ trace, e ∈ trace ++ [(a, s')] := fun e he => List.mem_append_left _ he
    obtain ⟨added, hlog, hadded⟩ := exists_log_step step.1
    have ih := ih fun env rules kzallocOk t s' h => replaces env rules kzallocOk t s' (hsub _ h)
    -- what this step unlinks is superseded by the transaction whose probe it is
    have hsupersedes : ∀ u, Effect.unlinked u ∈ added →
        ∃ t, (∀ q, Effect.unlinked q ∈ s'.log → ProbedSince (trace ++ [(a, s')]) q t) ∧ R u t ∧
          Effect.unlinked t ∉ s'.log := by
      intro u hu
      obtain ⟨env, rules, kzallocOk, t, rfl, -, hupdate⟩ := hadded u hu
      have hlast : (ReclaimLabel.handler env rules kzallocOk t, s') ∈
          trace ++ [(ReclaimLabel.handler env rules kzallocOk t, s')] :=
        List.mem_append_right _ (List.mem_singleton_self _)
      obtain ⟨hbefore, hqueued⟩ := inv.ledger.not_unlinked (step.2 env rules kzallocOk t rfl)
      refine ⟨t, fun q hq => ⟨env, rules, kzallocOk, s', hlast, hq⟩,
        replaces env rules kzallocOk t s' hlast u hupdate, fun ht => ?_⟩
      rw [hlog, List.mem_append] at ht
      rcases ht with ht | ht
      · exact hbefore ht
      · obtain ⟨_, _, _, _, -, hmem, -⟩ := hadded t ht
        exact hqueued _ hmem
    have hq' := hq
    rw [hlog, List.mem_append] at hq
    rcases hq with hbefore | hnow
    · obtain ⟨t, ⟨env, rules, kzallocOk, s₁, hprobe, hq₁⟩, hR, ht⟩ := ih q hbefore
      by_cases hunlinked : Effect.unlinked t ∈ added
      · -- the superseding transaction is superseded in turn
        obtain ⟨u, hprobed, hRu, hu⟩ := hsupersedes t hunlinked
        exact ⟨u, hprobed q hq', trans q t u hR hRu, hu⟩
      · refine ⟨t, ⟨env, rules, kzallocOk, s₁, hsub _ hprobe, hq₁⟩, hR, ?_⟩
        rw [hlog, List.mem_append, not_or]
        exact ⟨ht, hunlinked⟩
    · obtain ⟨u, hprobed, hR, hu⟩ := hsupersedes q hnow
      exact ⟨u, hprobed q hq', hR, hu⟩

/-- A transaction that is not unlinked is still to be enqueued, waits on its node, is in
the hands of the driver, or was freed by it. -/
theorem Ledger.whereabouts (ledger : s.Ledger) {t : BinderTransaction}
    (ht : Effect.unlinked t ∉ s.log) :
    Effect.enqueued t ∉ s.log ∨
      BinderWork.transaction t ∈ (s.nodes t.buffer.targetNode.addr).asyncTodo ∨
      t ∈ s.taken ∨ Effect.driverFreed t ∈ s.log := by
  by_contra hnowhere
  rw [not_or, not_or, not_or, not_not] at hnowhere
  obtain ⟨henqueued, hqueued, htaken, hfreed⟩ := hnowhere
  have hheld := ledger.held t
  rw [queuedAt, List.count_eq_zero.mpr hqueued, List.count_eq_zero.mpr htaken,
    List.count_eq_zero.mpr hfreed, List.count_eq_zero.mpr ht] at hheld
  have hpos := List.count_pos_iff.mpr henqueued
  omega

end ReclaimState

/-- Whatever the strategy, a transaction is replaced by the same message only. -/
theorem sameMessage_of_canUpdate {env : KpEnv} {q t : BinderTransaction} {strategy : UInt8}
    (h : rkBinderCanUpdateTransaction env q t strategy = true) : SameMessage q t := by
  rw [rkBinderCanUpdateTransaction] at h
  rw [sameMessage_iff]
  split_ifs at h with hguard hsame hobjects hcode hdata
  · exact ⟨hguard, hsame, hobjects⟩
  · exact ⟨hguard, hsame, hobjects⟩

/-- **No message is lost.** A transaction that the module unlinked is superseded by one
with the same message, whose own probe ran then or later, and which the module has not
unlinked: it is about to be enqueued, waits on its node, or was taken by the driver. If
no probe so far used `BY_CODE`, it carries the same data as well. -/
theorem unlinked_messages_are_superseded {tsk : ℕ} {trace : List (ReclaimLabel × ReclaimState)}
    {s : ReclaimState} (run : Run EntryStep (ReclaimState.init tsk) trace s)
    (q : BinderTransaction) (hq : Effect.unlinked q ∈ s.log) :
    ∃ t, ProbedSince trace q t ∧ SameMessage q t ∧
      ((∀ env rules kzallocOk u s',
          (ReclaimLabel.handler env rules kzallocOk u, s') ∈ trace →
            env.Faithful ∧ freeAsyncStrategy env rules u ≠ rkxFreeAsyncByCode) →
        q.buffer.data = t.buffer.data) ∧
      Effect.unlinked t ∉ s.log ∧
      (Effect.enqueued t ∉ s.log ∨
        BinderWork.transaction t ∈ (s.nodes t.buffer.targetNode.addr).asyncTodo ∨
        t ∈ s.taken ∨ Effect.driverFreed t ∈ s.log) := by
  obtain ⟨t, hprobed, ⟨hsame, hdata⟩, ht⟩ := ReclaimState.exists_superseding
    (R := fun q t => SameMessage q t ∧
      ((∀ env rules kzallocOk u s',
          (ReclaimLabel.handler env rules kzallocOk u, s') ∈ trace →
            env.Faithful ∧ freeAsyncStrategy env rules u ≠ rkxFreeAsyncByCode) →
        q.buffer.data = t.buffer.data))
    (fun q t u hqt htu => ⟨hqt.1.trans htu.1, fun h => (hqt.2 h).trans (htu.2 h)⟩) run
    (fun env rules kzallocOk t s' hmem q hupdate => by
      refine ⟨sameMessage_of_canUpdate hupdate, fun hall => ?_⟩
      obtain ⟨faithful, hcode⟩ := hall env rules kzallocOk t s' hmem
      rcases ((rkBinderCanUpdateTransaction_iff faithful q t _).mp hupdate).2 with h | ⟨-, h⟩
      · exact absurd h hcode
      · exact h) q hq
  exact ⟨t, hprobed, hsame, hdata, ht, (ReclaimState.Inv.of_entryRun run).ledger.whereabouts ht⟩

/-! ### What is released -/

/-- `ALIGN(size, sizeof(void *))`, where the offsets of the objects of a buffer begin. -/
def offStartOffset (b : BinderBuffer) : ℕ := (b.dataSize + 7) / 8 * 8

/-- `rk_binder_release_entire_buffer`: the `off_end_offset` up to which
`binder_transaction_buffer_release` releases objects. -/
def rkBinderReleaseEntireBuffer (b : BinderBuffer) : ℕ := offStartOffset b + b.offsetsSize

namespace ReclaimState

variable {s : ReclaimState} {trace : List (ReclaimLabel × ReclaimState)} {tsk : ℕ}

/-- What is unlinked is one-way and has no objects. -/
theorem plain_of_unlinked (run : Run ReclaimStep (init tsk) trace s) {q : BinderTransaction}
    (hq : Effect.unlinked q ∈ s.log) :
    q.flags &&& tfOneWay = tfOneWay ∧ q.buffer.offsetsSize = 0 := by
  induction run with
  | nil => cases hq
  | snoc _ step ih =>
    obtain ⟨added, hlog, hadded⟩ := exists_log_step step
    rw [hlog, List.mem_append] at hq
    rcases hq with hbefore | hnow
    · exact ih hbefore
    · obtain ⟨env, rules, kzallocOk, t, -, -, hupdate⟩ := hadded q hnow
      have hsame := sameMessage_of_canUpdate hupdate
      exact ⟨hsame.oneWay, hsame.noObjects.1⟩

/-- A pending work item is for a transaction that was unlinked. -/
theorem Ledger.unlinked_of_pending (ledger : s.Ledger) {w : RkxFreeTxnWork} (hw : w ∈ s.pending) :
    Effect.unlinked w.t ∈ s.log := by
  have hown : w = ⟨w.t, w.t.buffer⟩ := by rw [← ledger.own w hw]
  have hreclaimed := ledger.reclaimed w.t (.structFreed w.t) (by simp [freeTxnEffects])
  have hpos := List.count_pos_iff.mpr hw
  rw [hown] at hpos
  exact List.count_pos_iff.mp (by omega)

end ReclaimState

/-- **The module releases no objects.** Every buffer that it has released or is going to
release belonged to a one-way transaction and holds no objects, so the range of offsets
that it passes to `binder_transaction_buffer_release` is empty. -/
theorem released_buffers_hold_no_objects {tsk : ℕ} {trace : List (ReclaimLabel × ReclaimState)}
    {s : ReclaimState} (run : Run ReclaimStep (ReclaimState.init tsk) trace s)
    (t : BinderTransaction) (b : BinderBuffer)
    (h : Effect.bufferReleased t b ∈ s.log ∨ (⟨t, b⟩ : RkxFreeTxnWork) ∈ s.pending) :
    t.flags &&& tfOneWay = tfOneWay ∧ b = t.buffer ∧
      rkBinderReleaseEntireBuffer b = offStartOffset b := by
  have ledger := (ReclaimState.Inv.of_run run).ledger
  have hunlinked : Effect.unlinked t ∈ s.log ∧ b = t.buffer := by
    rcases h with hreleased | hpending
    · exact ledger.unlinked_of_buffer (.inl hreleased)
    · exact ⟨ledger.unlinked_of_pending hpending, ledger.own _ hpending⟩
  obtain ⟨hq, rfl⟩ := hunlinked
  obtain ⟨honeWay, hobjects⟩ := ReclaimState.plain_of_unlinked run hq
  refine ⟨honeWay, rfl, ?_⟩
  rw [rkBinderReleaseEntireBuffer, hobjects, Nat.add_zero]

/-! ### The order on a node -/

/-- A one-way transaction to a node. -/
def BinderTransaction.oneWayTo (n : ℕ) (t : BinderTransaction) : Bool :=
  decide (t.flags &&& tfOneWay ≠ 0) && decide (t.buffer.targetNode.addr = n)

namespace ReclaimState

variable {s s' : ReclaimState} {n : ℕ} {t : BinderTransaction}

/-- The one-way transactions to a node that the driver has taken, then those that wait. -/
def inOrder (s : ReclaimState) (n : ℕ) : List BinderTransaction :=
  s.taken.filter (BinderTransaction.oneWayTo n) ++ transactionsOf (s.nodes n).asyncTodo

/-- The one-way transactions to a node, as they were enqueued. -/
def enqueuedTo (log : List Effect) (n : ℕ) : List BinderTransaction :=
  (log.filterMap enqueuedOf).filter (BinderTransaction.oneWayTo n)

theorem mem_transactionsOf {works : List BinderWork} :
    t ∈ transactionsOf works ↔ BinderWork.transaction t ∈ works := by
  rw [← List.count_pos_iff, count_transactionsOf, List.count_pos_iff]

theorem transactionsOf_append (works works' : List BinderWork) :
    transactionsOf (works ++ works') = transactionsOf works ++ transactionsOf works' :=
  List.filterMap_append ..

/-- A node waits in order, what waits there is one-way and its own, and nothing waits
unless an asynchronous transaction is being handled. -/
structure Ordered (s : ReclaimState) (n : ℕ) : Prop where
  order : (s.inOrder n).Sublist (enqueuedTo s.log n)
  own : ∀ t, BinderWork.transaction t ∈ (s.nodes n).asyncTodo → t.oneWayTo n = true
  idle : (s.nodes n).hasAsyncTransaction = false → (s.nodes n).asyncTodo = []

theorem ordered_init (tsk n : ℕ) : (init tsk).Ordered n where
  order := List.Sublist.refl _
  own t ht := by cases ht
  idle _ := rfl

/-- Steps that take something of a node out of the lists, or nothing. -/
theorem Ordered.mono (ordered : s.Ordered n)
    (taken : (s'.taken.filter (BinderTransaction.oneWayTo n)).Sublist
      (s.taken.filter (BinderTransaction.oneWayTo n)))
    (queue : (s'.nodes n).asyncTodo.Sublist (s.nodes n).asyncTodo)
    (flag : (s'.nodes n).hasAsyncTransaction = (s.nodes n).hasAsyncTransaction)
    (log : enqueuedTo s'.log n = enqueuedTo s.log n) : s'.Ordered n where
  order := by
    rw [log]
    exact (taken.append (queue.filterMap _)).trans ordered.order
  own t ht := ordered.own t (queue.subset ht)
  idle h := by
    rw [flag] at h
    have hempty := ordered.idle h
    rw [hempty] at queue
    exact List.sublist_nil.mp queue

/-- The driver takes the front of the list of a node. -/
theorem Ordered.take {m : ℕ} (ordered : ∀ n, s.Ordered n) (node : BinderNode)
    (front : List BinderWork) (split : (s.nodes m).asyncTodo = front ++ node.asyncTodo)
    (idle : node.hasAsyncTransaction = false → node.asyncTodo = [])
    (next : s' = { s with
      nodes := Function.update s.nodes m node, taken := s.taken ++ transactionsOf front }) (n : ℕ) :
    s'.Ordered n := by
  have hfront : ∀ t ∈ transactionsOf front, t.oneWayTo m = true := by
    intro t ht
    refine (ordered m).own t ?_
    rw [split]
    exact List.mem_append_left _ (mem_transactionsOf.mp ht)
  by_cases hn : n = m
  · subst hn
    have hnode : s'.nodes n = node := by
      rw [next]
      exact Function.update_self ..
    refine ⟨?_, fun t ht => (ordered n).own t ?_, ?_⟩
    · have hsame : s'.inOrder n = s.inOrder n := by
        rw [inOrder, inOrder, hnode, split, transactionsOf_append, next, List.filter_append,
          List.filter_eq_self.mpr hfront, List.append_assoc]
      rw [hsame, next]
      exact (ordered n).order
    · rw [hnode] at ht
      rw [split]
      exact List.mem_append_right _ ht
    · rwa [hnode]
  · -- of another node nothing is taken
    have hnode : s'.nodes n = s.nodes n := by
      rw [next]
      exact Function.update_of_ne hn ..
    have hother : (transactionsOf front).filter (BinderTransaction.oneWayTo n) = [] := by
      refine List.filter_eq_nil_iff.mpr fun t ht hto => hn ?_
      have hm := hfront t ht
      simp only [BinderTransaction.oneWayTo, Bool.and_eq_true, decide_eq_true_eq] at hm hto
      exact hto.2.symm.trans hm.2
    refine ⟨?_, ?_, ?_⟩
    · rw [inOrder, hnode, next, List.filter_append, hother, List.append_nil]
      exact (ordered n).order
    · rw [hnode]
      exact (ordered n).own
    · rw [hnode]
      exact (ordered n).idle

theorem enqueuedTo_append (log : List Effect) (t : BinderTransaction) (n : ℕ) :
    enqueuedTo (log ++ [.enqueued t]) n =
      enqueuedTo log n ++ [t].filter (BinderTransaction.oneWayTo n) := by
  rw [enqueuedTo, List.filterMap_append, List.filter_append]
  rfl

theorem oneWayTo_iff : t.oneWayTo n = true ↔
    t.flags &&& tfOneWay ≠ 0 ∧ t.buffer.targetNode.addr = n := by
  rw [BinderTransaction.oneWayTo, Bool.and_eq_true, decide_eq_true_eq, decide_eq_true_eq]

/-- A one-way transaction goes behind everything that is there for its node. -/
theorem inOrder_enqueue (ordered : s.Ordered n) (hto : t.oneWayTo n = true) :
    (s.enqueue t).inOrder n = s.inOrder n ++ [t] ∧
      ((s.enqueue t).nodes n).hasAsyncTransaction = true := by
  obtain ⟨honeWay, rfl⟩ := oneWayTo_iff.mp hto
  rw [enqueue]
  split_ifs with hwait
  · -- it waits on its node
    have hnew : transactionsOf [.transaction t] = [t] := rfl
    simp only [inOrder, Function.update_self, transactionsOf_append, hnew, List.append_assoc]
    exact ⟨trivial, hwait.2⟩
  · -- the driver takes it, and nothing waits
    have hflag : (s.nodes t.buffer.targetNode.addr).hasAsyncTransaction = false := by
      by_contra hset
      exact hwait ⟨honeWay, by simpa using hset⟩
    have hempty := ordered.idle hflag
    simp [inOrder, hempty, transactionsOf, hto, honeWay]

/-- A transaction that is not one-way, or is to another node. -/
theorem Ordered.enqueue_other (ordered : s.Ordered n) (hto : ¬ t.oneWayTo n = true) :
    (s.enqueue t).Ordered n := by
  have hlog : enqueuedTo (s.log ++ [.enqueued t]) n = enqueuedTo s.log n := by
    rw [enqueuedTo_append, List.filter_cons_of_neg hto, List.filter_nil, List.append_nil]
  have htaken : (s.taken ++ [t]).filter (BinderTransaction.oneWayTo n) =
      s.taken.filter (BinderTransaction.oneWayTo n) := by
    rw [List.filter_append, List.filter_cons_of_neg hto, List.filter_nil, List.append_nil]
  rw [enqueue]
  split_ifs with hwait
  · have hn : n ≠ t.buffer.targetNode.addr := fun h => hto (oneWayTo_iff.mpr ⟨hwait.1, h.symm⟩)
    refine ordered.mono (List.Sublist.refl _) ?_ ?_ hlog
    · simp only [Function.update_of_ne hn]
      exact List.Sublist.refl _
    · simp only [Function.update_of_ne hn]
  · refine ordered.mono (htaken ▸ List.Sublist.refl _) ?_ ?_ hlog
    · by_cases hn : n = t.buffer.targetNode.addr
      · subst hn
        simp only [Function.update_self]
        exact List.Sublist.refl _
      · simp only [Function.update_of_ne hn]
        exact List.Sublist.refl _
    · by_cases hn : n = t.buffer.targetNode.addr
      · -- to this node it is not one-way
        have honeWay : t.flags &&& tfOneWay = 0 := by
          by_contra h
          exact hto (oneWayTo_iff.mpr ⟨h, hn.symm⟩)
        subst hn
        simp [honeWay]
      · simp only [Function.update_of_ne hn]

theorem Ordered.enqueue (ordered : s.Ordered n) (t : BinderTransaction) :
    (s.enqueue t).Ordered n := by
  by_cases hto : t.oneWayTo n = true
  · obtain ⟨horder, hflag⟩ := inOrder_enqueue ordered hto
    have hlog : (s.enqueue t).log = s.log ++ [.enqueued t] := by
      rw [ReclaimState.enqueue]
      split_ifs <;> rfl
    refine ⟨?_, fun u hu => ?_, fun h => absurd (hflag.symm.trans h) Bool.noConfusion⟩
    · rw [horder, hlog, enqueuedTo_append, List.filter_cons_of_pos hto, List.filter_nil]
      exact ordered.order.append (List.Sublist.refl _)
    · -- what waits was there before, or is the new one
      have hmem : u ∈ (s.enqueue t).inOrder n :=
        List.mem_append_right _ (mem_transactionsOf.mpr hu)
      rw [horder, List.mem_append, inOrder, List.mem_append, List.mem_singleton] at hmem
      rcases hmem with (htaken | hwaiting) | rfl
      · exact (List.mem_filter.mp htaken).2
      · exact ordered.own u (mem_transactionsOf.mp hwaiting)
      · exact hto
  · exact ordered.enqueue_other hto

/-- Entries of the log that are not about enqueueing. -/
theorem enqueuedTo_of_other {added : List Effect} (log : List Effect)
    (other : ∀ e ∈ added, enqueuedOf e = none) :
    enqueuedTo (log ++ added) n = enqueuedTo log n := by
  rw [enqueuedTo, List.filterMap_append, List.filterMap_eq_nil_iff.mpr other, List.append_nil]
  rfl

/-- The probe takes something off a node, or nothing. -/
theorem Ordered.handler (ordered : s.Ordered n) (env : KpEnv) (rules : RkxFreeAsync)
    (kzallocOk : Bool) (t : BinderTransaction) : (s.handler env rules kzallocOk t).Ordered n := by
  rcases handler_cases env rules kzallocOk t s with hsame | ⟨q, -, hunlink⟩
  · rwa [hsame]
  · have hlog : enqueuedTo (s.log ++ [.unlinked q]) n = enqueuedTo s.log n :=
      enqueuedTo_of_other s.log (by simp [enqueuedOf])
    rw [hunlink]
    refine ordered.mono (List.Sublist.refl _) ?_ ?_ hlog
    · by_cases hn : n = t.buffer.targetNode.addr
      · subst hn
        simp only [Function.update_self]
        exact List.erase_sublist
      · simp only [Function.update_of_ne hn]
        exact List.Sublist.refl _
    · by_cases hn : n = t.buffer.targetNode.addr
      · subst hn
        simp only [Function.update_self]
      · simp only [Function.update_of_ne hn]

/-- Every step keeps the order on every node. -/
theorem ordered_step {a : ReclaimLabel} (ordered : ∀ n, s.Ordered n) (step : ReclaimStep s a s')
    (n : ℕ) : s'.Ordered n := by
  obtain ⟨-, rfl⟩ := step
  cases a with
  | handler env rules kzallocOk t => exact (ordered n).handler env rules kzallocOk t
  | freeTxn w =>
    refine (ordered n).mono (List.Sublist.refl _) (List.Sublist.refl _) rfl ?_
    exact enqueuedTo_of_other s.log (by simp [freeTxnEffects, enqueuedOf])
  | enqueue t => exact (ordered n).enqueue t
  | asyncDone m =>
    change (s.asyncDone m).Ordered n
    rw [asyncDone]
    split
    · next hlist =>
      refine Ordered.take ordered ⟨false, []⟩ [] hlist (fun _ => rfl) ?_ n
      simp [transactionsOf]
    · next w rest hlist =>
      refine Ordered.take ordered { s.nodes m with asyncTodo := rest } [w] hlist (fun hflag => ?_)
        rfl n
      -- something waits, so an asynchronous transaction is being handled
      have hempty := (ordered m).idle hflag
      rw [hlist] at hempty
      cases hempty
  | releaseNode m =>
    exact Ordered.take ordered { s.nodes m with asyncTodo := [] } (s.nodes m).asyncTodo
      (List.append_nil _).symm (fun _ => rfl) rfl n
  | free t =>
    refine (ordered n).mono (List.erase_sublist.filter _) (List.Sublist.refl _) rfl ?_
    exact enqueuedTo_of_other s.log (by simp [enqueuedOf])
  | getRef | putRef | threadStart | threadExit | setFrozen | die
  | unregisterKprobe | destroyWorkqueue =>
    exact (ordered n).mono (List.Sublist.refl _) (List.Sublist.refl _) rfl rfl

theorem ordered_of_run {tsk : ℕ} {trace : List (ReclaimLabel × ReclaimState)}
    (run : Run ReclaimStep (init tsk) trace s) (n : ℕ) : s.Ordered n :=
  run.invariant (P := fun s => ∀ n, s.Ordered n) (ordered_init tsk)
    (fun _ _ _ ordered step => ordered_step ordered step) n

end ReclaimState

/-- **One-way transactions are not reordered.** Whatever the module unlinks in between,
the one-way transactions to a node that the driver has in its hands, followed by those
that wait, are in the order in which they were enqueued, and each was enqueued. -/
theorem one_way_order_is_kept {tsk : ℕ} {trace : List (ReclaimLabel × ReclaimState)}
    {s : ReclaimState} (run : Run ReclaimStep (ReclaimState.init tsk) trace s) (n : ℕ) :
    (s.taken.filter (BinderTransaction.oneWayTo n) ++
        ReclaimState.transactionsOf (s.nodes n).asyncTodo).Sublist
      ((s.log.filterMap ReclaimState.enqueuedOf).filter (BinderTransaction.oneWayTo n)) :=
  (ReclaimState.ordered_of_run run n).order

/-! ### An example -/

theorem exists_run_oneUnlinked :
    ∃ trace, Run EntryStep (ReclaimState.init 0) trace oneUnlinked := by
  have hget : EntryStep (ReclaimState.init 0) .getRef (ReclaimState.init 0).getRef :=
    ⟨⟨rfl, rfl⟩, nofun⟩
  have hfirst : EntryStep (ReclaimState.init 0).getRef (.enqueue (oneWayOf 1 [])) oneDelivered :=
    ⟨⟨⟨by decide, rfl, by decide⟩, rfl⟩, nofun⟩
  have hsecond : EntryStep oneDelivered (.enqueue (oneWayOf 2 [])) oneWaiting :=
    ⟨⟨⟨by decide, rfl, by decide⟩, rfl⟩, nofun⟩
  have hunlink : EntryStep oneWaiting (.handler frozenEnv rkxInitFreeAsync true (oneWayOf 3 []))
      oneUnlinked := by
    refine ⟨⟨⟨rfl, by decide⟩, rfl⟩, fun _ _ _ t h => ?_⟩
    obtain ⟨-, -, -, rfl⟩ := ReclaimLabel.handler.inj h
    decide
  exact ⟨_, (((Run.nil.snoc hget).snoc hfirst).snoc hsecond).snoc hunlink⟩

/-- The transaction that was unlinked is superseded by one of the same message. -/
theorem unlinked_messages_are_superseded_oneUnlinked :
    ∃ trace t, Run EntryStep (ReclaimState.init 0) trace oneUnlinked ∧
      ProbedSince trace (oneWayOf 2 []) t ∧ SameMessage (oneWayOf 2 []) t ∧
      Effect.unlinked t ∉ oneUnlinked.log := by
  obtain ⟨trace, hrun⟩ := exists_run_oneUnlinked
  obtain ⟨t, hprobed, hsame, -, hkept, -⟩ :=
    unlinked_messages_are_superseded hrun (oneWayOf 2 []) (by decide)
  exact ⟨trace, t, hrun, hprobed, hsame, hkept⟩

theorem released_buffers_hold_no_objects_oneUnlinked :
    rkBinderReleaseEntireBuffer (oneWayOf 2 []).buffer =
      offStartOffset (oneWayOf 2 []).buffer := by
  obtain ⟨trace, hrun⟩ := exists_run_oneUnlinked
  have hsteps : Run ReclaimStep (ReclaimState.init 0) _ oneUnlinked := hrun.mono fun _ _ _ h => h.1
  exact (released_buffers_hold_no_objects hsteps (oneWayOf 2 []) _ (.inr (by decide))).2.2

theorem one_way_order_is_kept_oneUnlinked :
    (oneUnlinked.taken.filter (BinderTransaction.oneWayTo 0) ++
        ReclaimState.transactionsOf (oneUnlinked.nodes 0).asyncTodo).Sublist
      ((oneUnlinked.log.filterMap ReclaimState.enqueuedOf).filter
        (BinderTransaction.oneWayTo 0)) := by
  obtain ⟨trace, hrun⟩ := exists_run_oneUnlinked
  have hsteps : Run ReclaimStep (ReclaimState.init 0) _ oneUnlinked := hrun.mono fun _ _ _ h => h.1
  exact one_way_order_is_kept hsteps 0

end ReKernelX
