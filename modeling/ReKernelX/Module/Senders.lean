import ReKernelX.Foundation.Transition
import ReKernelX.Module.Replacement

/-!
# Concurrent senders

A send is two critical sections: the probe searches and unlinks under the node
and process locks and releases them, and the driver later takes the same locks
again to append. Between the two a sender is in flight. Another sender of the
same class that passes the probe in the meantime finds nothing to replace, and
both append.

Under `BY_CODE` what is conserved is the number of queued transactions of a
class plus the number of its senders in flight. It grows only when a sender
passes the probe while nothing of its class is queued, so it is at all times
the largest number of senders of that class that were ever in flight together.
-/

set_option autoImplicit false

namespace ReKernelX

open Transition

/-- The target of the sends, and the transactions of the senders that have
passed the probe and not yet appended. -/
structure SendState where
  proc : BinderProc
  node : BinderNode
  inFlight : List BinderTransaction

/-- The two critical sections of a send. -/
inductive SendLabel
  | lock (t : BinderTransaction)
  | append (t : BinderTransaction)

namespace SendState

/-- The locked section of the probe, its allocation succeeding. -/
def lock (env : KpEnv) (rules : RkxFreeAsync) (s : SendState) (t : BinderTransaction) :
    SendState :=
  let probed := rkxBinderProcTransactionPre env rules true t s.proc s.node
  ⟨probed.1, probed.2.1, t :: s.inFlight⟩

/-- The driver's append. -/
def append (s : SendState) (t : BinderTransaction) : SendState :=
  ⟨{ s.proc with outstandingTxns := s.proc.outstandingTxns + 1 },
    { s.node with asyncTodo := s.node.asyncTodo ++ [.transaction t] }, s.inFlight.erase t⟩

/-- Whether a queued work is a transaction that one like `x` could replace. -/
def replaceable (env : KpEnv) (x : BinderTransaction) : BinderWork → Bool
  | .transaction q => rkBinderCanUpdateTransaction env q x rkxFreeAsyncByCode
  | .other _ => false

/-- The queued transactions that one like `x` could replace. -/
def queuedOf (env : KpEnv) (x : BinderTransaction) (s : SendState) : ℕ :=
  s.node.asyncTodo.countP (replaceable env x)

/-- The senders in flight with a transaction that one like `x` could replace. -/
def inFlightOf (env : KpEnv) (x : BinderTransaction) (s : SendState) : ℕ :=
  s.inFlight.countP fun q => rkBinderCanUpdateTransaction env q x rkxFreeAsyncByCode

end SendState

/-- One step of one of the senders, each sending a transaction whose strategy is
`BY_CODE`. -/
inductive SendStep (env : KpEnv) (rules : RkxFreeAsync) : SendState → SendLabel → SendState → Prop
  | lock {s : SendState} {t : BinderTransaction}
      (byCode : freeAsyncStrategy env rules t = rkxFreeAsyncByCode) :
      SendStep env rules s (.lock t) (s.lock env rules t)
  | append {s : SendState} {t : BinderTransaction} (passed : t ∈ s.inFlight) :
      SendStep env rules s (.append t) (s.append t)

/-! ### The comparison under `BY_CODE` -/

section ByCode

variable {env : KpEnv} {t u v : BinderTransaction}

theorem canUpdate_byCode_iff :
    rkBinderCanUpdateTransaction env t u rkxFreeAsyncByCode = true ↔ SameMessage t u := by
  rw [rkBinderCanUpdateTransaction, sameMessage_iff]
  split_ifs with hguard hsame hobjects <;> simp_all

/-- Transactions of one class are compared alike with every other. -/
theorem canUpdate_byCode_congr (h : SameMessage t u) :
    rkBinderCanUpdateTransaction env t v rkxFreeAsyncByCode =
      rkBinderCanUpdateTransaction env u v rkxFreeAsyncByCode := by
  rw [Bool.eq_iff_iff, canUpdate_byCode_iff, canUpdate_byCode_iff]
  exact ⟨fun htv => h.symm.trans htv, fun huv => h.trans huv⟩

end ByCode

/-! ### What one step changes -/

section Step

variable {env : KpEnv} {rules : RkxFreeAsync} {s : SendState} {t x : BinderTransaction}

/-- The queue after the probe: without the transaction the search found. -/
theorem asyncTodo_lock (receiving : Receiving env (s.proc, s.node))
    (byCode : freeAsyncStrategy env rules t = rkxFreeAsyncByCode) :
    (s.lock env rules t).node.asyncTodo =
      match rkBinderFindOutdatedTransactionIlocked env t rkxFreeAsyncByCode s.node.asyncTodo with
      | none => s.node.asyncTodo
      | some q => s.node.asyncTodo.erase (.transaction q) := by
  have hopen := @pre_of_open env rules t s.proc s.node receiving.frozen (byCode ▸ by decide)
    receiving.pending receiving.alive receiving.thawed
  rw [byCode] at hopen
  exact hopen

theorem inFlightOf_lock :
    (s.lock env rules t).inFlightOf env x = s.inFlightOf env x +
      if rkBinderCanUpdateTransaction env t x rkxFreeAsyncByCode then 1 else 0 :=
  List.countP_cons

theorem queuedOf_append :
    (s.append t).queuedOf env x = s.queuedOf env x +
      if rkBinderCanUpdateTransaction env t x rkxFreeAsyncByCode then 1 else 0 := by
  change (s.node.asyncTodo ++ [BinderWork.transaction t]).countP (SendState.replaceable env x) = _
  rw [List.countP_append, List.countP_singleton]
  rfl

/-- Taking one element out lowers a count by what the element counts for. -/
theorem countP_erase_add {α : Type*} [DecidableEq α] {l : List α} {a : α} (mem : a ∈ l)
    (p : α → Bool) : (l.erase a).countP p + (if p a then 1 else 0) = l.countP p := by
  rw [(List.perm_cons_erase mem).countP_eq, List.countP_cons]

theorem inFlightOf_append (passed : t ∈ s.inFlight) :
    (s.append t).inFlightOf env x +
      (if rkBinderCanUpdateTransaction env t x rkxFreeAsyncByCode then 1 else 0) =
        s.inFlightOf env x :=
  countP_erase_add passed fun q => rkBinderCanUpdateTransaction env q x rkxFreeAsyncByCode

/-- A sender that passes the probe either takes the place of a queued
transaction of its class, or finds none. -/
theorem queuedOf_lock (receiving : Receiving env (s.proc, s.node))
    (byCode : freeAsyncStrategy env rules t = rkxFreeAsyncByCode) :
    (s.lock env rules t).queuedOf env x +
        (if rkBinderCanUpdateTransaction env t x rkxFreeAsyncByCode then 1 else 0) =
      s.queuedOf env x ∨
    (s.lock env rules t).queuedOf env x = s.queuedOf env x ∧
      (rkBinderCanUpdateTransaction env t x rkxFreeAsyncByCode = true → s.queuedOf env x = 0) := by
  rw [SendState.queuedOf, asyncTodo_lock receiving byCode]
  cases hfind : rkBinderFindOutdatedTransactionIlocked env t rkxFreeAsyncByCode
      s.node.asyncTodo with
  | none =>
    refine Or.inr ⟨rfl, fun ht => List.countP_eq_zero.mpr fun w hw hcount => ?_⟩
    cases w with
    | other type => cases hcount
    | transaction q =>
      -- being of the class of `x`, both are of one class, and the search would have found `q`
      have hqt : SameMessage q t :=
        (canUpdate_byCode_iff.mp hcount).trans (canUpdate_byCode_iff.mp ht).symm
      exact absurd (canUpdate_byCode_iff.mpr hqt)
        (by rw [findOutdated_eq_none_iff.mp hfind q hw]; exact Bool.false_ne_true)
  | some q =>
    obtain ⟨hmem, hupdate⟩ := mem_of_findOutdated hfind
    -- `q` and `t` are of one class, so they count alike for `x`
    rw [← canUpdate_byCode_congr (canUpdate_byCode_iff.mp hupdate)]
    exact Or.inl (countP_erase_add hmem (SendState.replaceable env x))

/-- One step replaces the total of a class by the maximum of itself and the
number now in flight. -/
theorem queuedOf_add_inFlightOf_step {label : SendLabel} {s' : SendState}
    (receiving : Receiving env (s.proc, s.node)) (step : SendStep env rules s label s')
    (x : BinderTransaction) :
    s'.queuedOf env x + s'.inFlightOf env x =
      max (s.queuedOf env x + s.inFlightOf env x) (s'.inFlightOf env x) := by
  cases step with
  | @lock t byCode =>
    have hin := @inFlightOf_lock env rules s t x
    rcases queuedOf_lock (x := x) receiving byCode with htaken | ⟨hsame, hnone⟩
    · -- the sender takes a queued transaction's place, and the total is unchanged
      split_ifs at hin htaken <;> omega
    · -- nothing of the class is queued: its total is the number in flight
      split_ifs at hin with ht
      · have hzero := hnone ht
        omega
      · omega
  | @append t passed =>
    have hqueue := @queuedOf_append env s t x
    have hin := @inFlightOf_append env s t x passed
    split_ifs at hqueue hin <;> omega

theorem receiving_step {label : SendLabel} {s' : SendState}
    (receiving : Receiving env (s.proc, s.node)) (step : SendStep env rules s label s') :
    Receiving env (s'.proc, s'.node) := by
  cases step with
  | @lock t byCode => exact receiving.probe true t
  | append passed =>
    exact ⟨receiving.frozen, receiving.alive, receiving.thawed, receiving.pending⟩

end Step

/-- At most one queued transaction of each class is no duplicate. -/
theorem pairwise_of_queuedOf_le_one {env : KpEnv} {s : SendState}
    (atMostOne : ∀ x, s.queuedOf env x ≤ 1) :
    s.node.asyncTodo.Pairwise fun w w' => ∀ q q', w = .transaction q → w' = .transaction q' →
      rkBinderCanUpdateTransaction env q q' rkxFreeAsyncByCode = false := by
  rw [List.pairwise_iff_forall_sublist]
  rintro w w' hsublist q q' rfl rfl
  by_contra hupdate
  rw [Bool.not_eq_false] at hupdate
  have hself : rkBinderCanUpdateTransaction env q' q' rkxFreeAsyncByCode = true := by
    rwa [← canUpdate_byCode_congr (canUpdate_byCode_iff.mp hupdate)]
  -- both are of the class of `q'`
  have hcount : [BinderWork.transaction q, .transaction q'].countP
      (SendState.replaceable env q') ≤ 1 := hsublist.countP_le.trans (atMostOne q')
  simp [SendState.replaceable, hupdate, hself] at hcount

/-- **Duplicates are exactly overlapping sends.** From an empty queue, after any
interleaving of the two critical sections of any number of senders, the queued
transactions of a class and its senders in flight are together as many as the
largest number of senders of that class that were in flight at one time. As
long as no two sends of one class overlap, the queue holds no two transactions
of which one could replace the other. -/
theorem queued_eq_peak_in_flight {env : KpEnv} {rules : RkxFreeAsync} (proc : BinderProc)
    (node : BinderNode) (frozen : rkxIsFrozen (env.task proc.tsk) = true)
    (alive : proc.isDead = false) (thawed : proc.isFrozen = false)
    (pending : node.hasAsyncTransaction = true) (empty : node.asyncTodo = [])
    {trace : List (SendLabel × SendState)} {s : SendState}
    (run : Run (SendStep env rules) ⟨proc, node, []⟩ trace s) :
    (∀ x, IsGreatest
      (Set.image (SendState.inFlightOf env x) {s' | s' ∈ visited ⟨proc, node, []⟩ trace})
      (s.queuedOf env x + s.inFlightOf env x)) ∧
    ((∀ s' ∈ visited ⟨proc, node, []⟩ trace, ∀ x, s'.inFlightOf env x ≤ 1) →
      s.node.asyncTodo.Pairwise fun w w' => ∀ q q', w = .transaction q → w' = .transaction q' →
        rkBinderCanUpdateTransaction env q q' rkxFreeAsyncByCode = false) := by
  have hpeak : ∀ x, IsGreatest
      (Set.image (SendState.inFlightOf env x) {s' | s' ∈ visited ⟨proc, node, []⟩ trace})
      (s.queuedOf env x + s.inFlightOf env x) := by
    intro x
    refine run.isGreatest (P := fun s : SendState => Receiving env (s.proc, s.node))
      ⟨frozen, alive, thawed, pending⟩ (fun s a s' hs hstep => receiving_step hs hstep) ?_
      (fun s a s' hs hstep => queuedOf_add_inFlightOf_step hs hstep x)
    simp only [SendState.queuedOf, empty, List.countP_nil, Nat.zero_add]
  refine ⟨hpeak, fun overlap => pairwise_of_queuedOf_le_one fun x => ?_⟩
  obtain ⟨⟨s', hs', htotal⟩, -⟩ := hpeak x
  have hone := overlap s' hs' x
  omega

/-- A node of a frozen process, nothing queued and nobody sending. -/
def quietTarget : SendState := ⟨idleProc, ⟨true, []⟩, []⟩

/-- Both senders pass the probe before either appends. -/
def overlapped : SendState :=
  (((quietTarget.lock frozenEnv rkxInitFreeAsync (oneWayOf 1 [])).lock frozenEnv rkxInitFreeAsync
    (oneWayOf 2 [])).append (oneWayOf 1 [])).append (oneWayOf 2 [])

theorem run_overlapped :
    ∃ trace, Run (SendStep frozenEnv rkxInitFreeAsync) quietTarget trace overlapped :=
  ⟨_, (((Run.nil.snoc (.lock rfl)).snoc (.lock rfl)).snoc (.append (by decide))).snoc
    (.append (by decide))⟩

theorem queued_eq_peak_in_flight_overlapped :
    ∃ trace, Run (SendStep frozenEnv rkxInitFreeAsync) quietTarget trace overlapped ∧
      IsGreatest (Set.image (SendState.inFlightOf frozenEnv (oneWayOf 1 []))
        {s' | s' ∈ visited quietTarget trace}) 2 := by
  obtain ⟨trace, hrun⟩ := run_overlapped
  exact ⟨trace, hrun, (queued_eq_peak_in_flight idleProc ⟨true, []⟩ rfl rfl rfl rfl rfl hrun).1
    (oneWayOf 1 [])⟩

/-- Two overlapping sends of one class leave both transactions queued. -/
theorem overlapping_sends_queue_twice :
    (∃ trace, Run (SendStep frozenEnv rkxInitFreeAsync) quietTarget trace overlapped) ∧
    overlapped.node.asyncTodo = [.transaction (oneWayOf 1 []), .transaction (oneWayOf 2 [])] ∧
    rkBinderCanUpdateTransaction frozenEnv (oneWayOf 1 []) (oneWayOf 2 []) rkxFreeAsyncByCode =
      true :=
  ⟨run_overlapped, rfl, rfl⟩

end ReKernelX
