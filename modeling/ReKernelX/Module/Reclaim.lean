import ReKernelX.Foundation.Transition
import ReKernelX.Module.Replacement

/-!
# Who frees a transaction

One target process with its nodes, the driver that enqueues, delivers and frees
transactions, and the module that unlinks outdated ones and frees them later
from a work queue. Steps of all parties interleave freely, and the process can
die at any point.

A transaction is at any time in one hand: a node's `async_todo`, the driver, or
a pending work item. A ledger of everything done to it (`Effect`) makes this a
conservation law: the times it was enqueued are the places it is in plus the
times it was freed. From it follow that an unlinked transaction is reclaimed
exactly once and by the module alone, that `outstanding_txns` counts the
transactions still outstanding, and that the process outlives every pending
work item, which holds one of its temporary references.

The driver's contract is in the steps: it counts `outstanding_txns` up when it
enqueues and down when it frees, enqueues no transaction twice and nothing to a
dead process, holds a temporary reference across a send, and frees a process
only when it is dead, has no threads and no temporary references.
-/

set_option autoImplicit false

namespace ReKernelX

open Transition

/-- What was done to a transaction, by the driver or by the module. -/
inductive Effect
  | enqueued (t : BinderTransaction)
  | driverFreed (t : BinderTransaction)
  | unlinked (t : BinderTransaction)
  | bufferReleased (t : BinderTransaction) (buffer : BinderBuffer)
  | bufferFreed (t : BinderTransaction) (buffer : BinderBuffer)
  | structFreed (t : BinderTransaction)
  | statDeleted (t : BinderTransaction)
  deriving DecidableEq

/-- One process, its nodes by address, and the module. -/
structure ReclaimState where
  proc : BinderProc
  nodes : ℕ → BinderNode
  /-- transactions the driver has taken for delivery or release -/
  taken : List BinderTransaction
  /-- temporary references the driver holds -/
  driverRefs : ℕ
  /-- `binder_free_proc` has run -/
  procFreed : Bool
  /-- work items queued on `rkx_free_wq` -/
  pending : List RkxFreeTxnWork
  /-- `rkx_kp_registered` -/
  kpRegistered : Bool
  /-- `rkx_free_wq` has not been destroyed -/
  wqAlive : Bool
  log : List Effect

/-- A process that has just been opened, with the module loaded. -/
def ReclaimState.init (tsk : ℕ) : ReclaimState where
  proc := ⟨tsk, false, false, 0, 0, 0⟩
  nodes _ := ⟨false, []⟩
  taken := []
  driverRefs := 0
  procFreed := false
  pending := []
  kpRegistered := true
  wqAlive := true
  log := []

namespace ReclaimState

/-! ### The module's steps -/

/-- `rk_binder_proc_dec_tmpref`, and `binder_proc_dec_tmpref` of the driver. -/
def rkBinderProcDecTmpref (s : ReclaimState) : ReclaimState :=
  let proc := { s.proc with tmpRef := s.proc.tmpRef - 1 }
  { s with
    proc := proc
    procFreed := s.procFreed || (proc.isDead && proc.threads == 0 && proc.tmpRef == 0) }

/-- The probe on the target node of `t`, with the work it queues. -/
def handler (env : KpEnv) (rules : RkxFreeAsync) (kzallocOk : Bool) (t : BinderTransaction)
    (s : ReclaimState) : ReclaimState :=
  let n := t.buffer.targetNode.addr
  let probed := rkxBinderProcTransactionPre env rules kzallocOk t s.proc (s.nodes n)
  { s with
    proc := probed.1
    nodes := Function.update s.nodes n probed.2.1
    pending := s.pending ++ probed.2.2.toList
    log := s.log ++ probed.2.2.toList.map fun w => .unlinked w.t }

/-- What `rkx_free_txn_func` does with a work item before it drops its
reference. -/
def freeTxnEffects (w : RkxFreeTxnWork) : List Effect :=
  [.bufferReleased w.t w.buffer, .bufferFreed w.t w.buffer, .structFreed w.t, .statDeleted w.t]

/-- `rkx_free_txn_func` -/
def rkxFreeTxnFunc (w : RkxFreeTxnWork) (s : ReclaimState) : ReclaimState :=
  rkBinderProcDecTmpref
    { s with pending := s.pending.erase w, log := s.log ++ freeTxnEffects w }

/-! ### The driver's steps -/

/-- `binder_proc_transaction` for a process that is not dead: a one-way
transaction waits on its node while another one is being handled. -/
def enqueue (t : BinderTransaction) (s : ReclaimState) : ReclaimState :=
  let n := t.buffer.targetNode.addr
  let proc := { s.proc with outstandingTxns := s.proc.outstandingTxns + 1 }
  if t.flags &&& tfOneWay ≠ 0 ∧ (s.nodes n).hasAsyncTransaction = true then
    { s with
      proc := proc
      nodes := Function.update s.nodes n
        { s.nodes n with asyncTodo := (s.nodes n).asyncTodo ++ [.transaction t] }
      log := s.log ++ [.enqueued t] }
  else
    { s with
      proc := proc
      nodes := Function.update s.nodes n
        { s.nodes n with
          hasAsyncTransaction :=
            (s.nodes n).hasAsyncTransaction || decide (t.flags &&& tfOneWay ≠ 0) }
      taken := s.taken ++ [t]
      log := s.log ++ [.enqueued t] }

/-- The transactions of a work list. -/
def transactionsOf (works : List BinderWork) : List BinderTransaction :=
  works.filterMap fun w =>
    match w with
    | .transaction t => some t
    | .other _ => none

/-- The end of an asynchronous transaction: the next work of the node is taken,
and without one the node has no asynchronous transaction any more. -/
def asyncDone (n : ℕ) (s : ReclaimState) : ReclaimState :=
  match (s.nodes n).asyncTodo with
  | [] => { s with nodes := Function.update s.nodes n ⟨false, []⟩ }
  | w :: rest =>
    { s with
      nodes := Function.update s.nodes n { s.nodes n with asyncTodo := rest }
      taken := s.taken ++ transactionsOf [w] }

/-- The release of a dead process takes a node's whole list. -/
def releaseNode (n : ℕ) (s : ReclaimState) : ReclaimState :=
  { s with
    nodes := Function.update s.nodes n { s.nodes n with asyncTodo := [] }
    taken := s.taken ++ transactionsOf (s.nodes n).asyncTodo }

/-- `binder_free_transaction`, after delivery or on release. -/
def free (t : BinderTransaction) (s : ReclaimState) : ReclaimState :=
  { s with
    proc := { s.proc with outstandingTxns := s.proc.outstandingTxns - 1 }
    taken := s.taken.erase t
    log := s.log ++ [.driverFreed t] }

/-- The driver takes a temporary reference. -/
def getRef (s : ReclaimState) : ReclaimState :=
  { s with proc := { s.proc with tmpRef := s.proc.tmpRef + 1 }, driverRefs := s.driverRefs + 1 }

/-- The driver drops one. -/
def putRef (s : ReclaimState) : ReclaimState :=
  rkBinderProcDecTmpref { s with driverRefs := s.driverRefs - 1 }

/-- A thread leaves the tree of threads; its release holds a reference. -/
def threadExit (s : ReclaimState) : ReclaimState :=
  getRef { s with proc := { s.proc with threads := s.proc.threads - 1 } }

/-- The start of the release of a process, which holds a reference. -/
def die (s : ReclaimState) : ReclaimState :=
  getRef { s with proc := { s.proc with isDead := true, isFrozen := false } }

end ReclaimState

/-! ### Runs -/

/-- A step of the module, of the driver, or of the module's removal. -/
inductive ReclaimLabel
  | handler (env : KpEnv) (rules : RkxFreeAsync) (kzallocOk : Bool) (t : BinderTransaction)
  | freeTxn (w : RkxFreeTxnWork)
  | enqueue (t : BinderTransaction)
  | asyncDone (n : ℕ)
  | releaseNode (n : ℕ)
  | free (t : BinderTransaction)
  | getRef
  | putRef
  | threadStart
  | threadExit
  | setFrozen (isFrozen : Bool)
  | die
  | unregisterKprobe
  | destroyWorkqueue

/-- When a step can be taken. The driver does not touch a process it has freed,
sends only while it holds a reference, and enqueues each transaction once. The
module's removal first unregisters the probe, and flushing the queue waits for
every work item. -/
def ReclaimState.Enabled (s : ReclaimState) : ReclaimLabel → Prop
  | .handler _ _ _ _ => s.kpRegistered = true ∧ 0 < s.driverRefs
  | .freeTxn w => w ∈ s.pending
  | .enqueue t => 0 < s.driverRefs ∧ s.proc.isDead = false ∧ Effect.enqueued t ∉ s.log
  | .asyncDone _ => s.procFreed = false
  | .releaseNode _ => s.procFreed = false ∧ s.proc.isDead = true
  | .free t => s.procFreed = false ∧ t ∈ s.taken
  | .getRef => s.procFreed = false
  | .putRef => 0 < s.driverRefs
  | .threadStart => s.procFreed = false ∧ s.proc.isDead = false
  | .threadExit => s.procFreed = false ∧ 0 < s.proc.threads
  | .setFrozen _ => s.procFreed = false
  | .die => s.procFreed = false ∧ s.proc.isDead = false
  | .unregisterKprobe => True
  | .destroyWorkqueue => s.kpRegistered = false ∧ s.pending = []

/-- The state a step leads to. -/
def ReclaimState.next (s : ReclaimState) : ReclaimLabel → ReclaimState
  | .handler env rules kzallocOk t => s.handler env rules kzallocOk t
  | .freeTxn w => s.rkxFreeTxnFunc w
  | .enqueue t => s.enqueue t
  | .asyncDone n => s.asyncDone n
  | .releaseNode n => s.releaseNode n
  | .free t => s.free t
  | .getRef => s.getRef
  | .putRef => s.putRef
  | .threadStart => { s with proc := { s.proc with threads := s.proc.threads + 1 } }
  | .threadExit => s.threadExit
  | .setFrozen isFrozen => { s with proc := { s.proc with isFrozen := isFrozen } }
  | .die => s.die
  | .unregisterKprobe => { s with kpRegistered := false }
  | .destroyWorkqueue => { s with wqAlive := false }

/-- One step of the system. -/
def ReclaimStep (s : ReclaimState) (a : ReclaimLabel) (s' : ReclaimState) : Prop :=
  s.Enabled a ∧ s' = s.next a

namespace ReclaimState

variable {s : ReclaimState}

/-- All the probe can do to the state: nothing, or unlink one queued transaction
of its node and queue the work that frees it. -/
theorem handler_cases (env : KpEnv) (rules : RkxFreeAsync) (kzallocOk : Bool)
    (t : BinderTransaction) (s : ReclaimState) :
    s.handler env rules kzallocOk t = s ∨
    ∃ q, BinderWork.transaction q ∈ (s.nodes t.buffer.targetNode.addr).asyncTodo ∧
      s.handler env rules kzallocOk t =
        { s with
          proc := { s.proc with
            tmpRef := s.proc.tmpRef + 1
            outstandingTxns := s.proc.outstandingTxns - 1 }
          nodes := Function.update s.nodes t.buffer.targetNode.addr
            { s.nodes t.buffer.targetNode.addr with
              asyncTodo := (s.nodes t.buffer.targetNode.addr).asyncTodo.erase (.transaction q) }
          pending := s.pending ++ [⟨q, q.buffer⟩]
          log := s.log ++ [.unlinked q] } := by
  rcases @pre_cases env rules kzallocOk t s.proc (s.nodes t.buffer.targetNode.addr) with
    hpre | ⟨q, -, -, -, -, -, hfound, hpre⟩
  · -- no candidate, or the probe gave up before it unlinked one
    left
    simp [handler, hpre]
  · refine Or.inr ⟨q, (mem_of_findOutdated hfound).1, ?_⟩
    simp [handler, hpre]

/-! ### In whose hands a transaction is -/

/-- How often a transaction is queued on its node. -/
def queuedAt (s : ReclaimState) (t : BinderTransaction) : ℕ :=
  (s.nodes t.buffer.targetNode.addr).asyncTodo.count (.transaction t)

/-- Every transaction is accounted for: the times it was enqueued are the places
it is in and the times it was freed or unlinked, and the times it was unlinked
are its pending work and, for each thing to be done to it, the times that was
done. -/
structure Ledger (s : ReclaimState) : Prop where
  once : ∀ t, s.log.count (.enqueued t) ≤ 1
  held : ∀ t, s.log.count (.enqueued t) =
    s.queuedAt t + s.taken.count t + s.log.count (.driverFreed t) + s.log.count (.unlinked t)
  reclaimed : ∀ t, ∀ e ∈ freeTxnEffects ⟨t, t.buffer⟩,
    s.log.count (.unlinked t) = s.pending.count ⟨t, t.buffer⟩ + s.log.count e
  placed : ∀ n t, BinderWork.transaction t ∈ (s.nodes n).asyncTodo → t.buffer.targetNode.addr = n
  own : ∀ w ∈ s.pending, w.buffer = w.t.buffer
  ownReleased : ∀ t b, Effect.bufferReleased t b ∈ s.log ∨ Effect.bufferFreed t b ∈ s.log →
    b = t.buffer

theorem ledger_init (tsk : ℕ) : (init tsk).Ledger where
  once t := by simp [init]
  held t := by simp [init, queuedAt]
  reclaimed t e he := by simp [init]
  placed n t ht := by simp [init] at ht
  own w hw := by simp [init] at hw
  ownReleased t b h := by simp [init] at h

/-- Steps that touch neither lists nor log keep the ledger. -/
theorem Ledger.congr {s' : ReclaimState} (ledger : s.Ledger) (nodes : s'.nodes = s.nodes)
    (taken : s'.taken = s.taken) (pending : s'.pending = s.pending) (log : s'.log = s.log) :
    s'.Ledger := by
  obtain ⟨once, held, reclaimed, placed, own, ownReleased⟩ := ledger
  refine ⟨?_, ?_, ?_, ?_, ?_, ?_⟩
  · rwa [log]
  · simpa only [queuedAt, nodes, taken, log] using held
  · rwa [pending, log]
  · rwa [nodes]
  · rwa [pending]
  · rwa [log]

/-- The list of one node changes. -/
theorem queuedAt_update {s' : ReclaimState} {n : ℕ} {node : BinderNode}
    (nodes : s'.nodes = Function.update s.nodes n node) (t : BinderTransaction) :
    s'.queuedAt t = if t.buffer.targetNode.addr = n then node.asyncTodo.count (.transaction t)
      else s.queuedAt t := by
  rw [queuedAt, nodes, Function.update_apply]
  split_ifs <;> rfl

/-- Replacing one node keeps transactions in place if they are on that one. -/
theorem Ledger.placed_update {s' : ReclaimState} (ledger : s.Ledger) {n : ℕ} {node : BinderNode}
    (nodes : s'.nodes = Function.update s.nodes n node)
    (inPlace : ∀ t, BinderWork.transaction t ∈ node.asyncTodo → t.buffer.targetNode.addr = n)
    (m : ℕ) (t : BinderTransaction)
    (ht : BinderWork.transaction t ∈ (s'.nodes m).asyncTodo) : t.buffer.targetNode.addr = m := by
  rw [nodes, Function.update_apply] at ht
  split_ifs at ht with hm
  · rw [hm]
    exact inPlace t ht
  · exact ledger.placed m t ht

theorem count_transactionsOf (works : List BinderWork) (t : BinderTransaction) :
    (transactionsOf works).count t = works.count (.transaction t) := by
  induction works with
  | nil => rfl
  | cons w rest ih =>
    cases w with
    | other type =>
      rw [List.count_cons_of_ne (by simp), ← ih]
      rfl
    | transaction u =>
      change (u :: transactionsOf rest).count t = _
      rw [List.count_cons, List.count_cons, ih]
      simp

/-- Taking one element out of a list, counted. -/
theorem count_eq_count_erase_add {α : Type*} [DecidableEq α] {l : List α} {a : α} (mem : a ∈ l)
    (b : α) : l.count b = (l.erase a).count b + [a].count b := by
  rw [(List.perm_cons_erase mem).count_eq, List.count_cons, List.count_singleton]

/-- A work item of the module's own making names its transaction. -/
theorem count_work (q t : BinderTransaction) :
    [(⟨q, q.buffer⟩ : RkxFreeTxnWork)].count ⟨t, t.buffer⟩ = [q].count t := by
  rw [List.count_singleton, List.count_singleton]
  by_cases hqt : q = t
  · simp [hqt]
  · simp [hqt]

/-- What the module does when it reclaims is not what moves transactions about. -/
theorem count_of_mem_freeTxnEffects {w : RkxFreeTxnWork} {e : Effect} (he : e ∈ freeTxnEffects w)
    (u : BinderTransaction) :
    [Effect.enqueued u].count e = 0 ∧ [Effect.driverFreed u].count e = 0 ∧
      [Effect.unlinked u].count e = 0 := by
  simp only [freeTxnEffects, List.mem_cons, List.not_mem_nil, or_false] at he
  rcases he with rfl | rfl | rfl | rfl <;> simp

/-- The driver takes the front of a node's list. -/
theorem Ledger.take {s' : ReclaimState} (ledger : s.Ledger) {n : ℕ} {node : BinderNode}
    {front : List BinderWork} (split : (s.nodes n).asyncTodo = front ++ node.asyncTodo)
    (nodes : s'.nodes = Function.update s.nodes n node)
    (taken : s'.taken = s.taken ++ transactionsOf front) (pending : s'.pending = s.pending)
    (log : s'.log = s.log) : s'.Ledger := by
  refine ⟨?_, fun t => ?_, ?_, ?_, ?_, ?_⟩
  · rw [log]
    exact ledger.once
  · rw [log, ledger.held t, taken, List.count_append, count_transactionsOf, queuedAt_update nodes]
    split_ifs with ht
    · have hqueued : s.queuedAt t =
          front.count (.transaction t) + node.asyncTodo.count (.transaction t) := by
        rw [queuedAt, ht, split, List.count_append]
      omega
    · -- a transaction of another node is not on this list
      have hfront : front.count (.transaction t) = 0 := by
        refine List.count_eq_zero.mpr fun hmem => ht (ledger.placed n t ?_)
        rw [split]
        exact List.mem_append_left _ hmem
      omega
  · rw [log, pending]
    exact ledger.reclaimed
  · refine ledger.placed_update nodes fun t ht => ledger.placed n t ?_
    rw [split]
    exact List.mem_append_right _ ht
  · rw [pending]
    exact ledger.own
  · rw [log]
    exact ledger.ownReleased

/-- The module unlinks a queued transaction and queues its work. -/
theorem Ledger.unlink {s' : ReclaimState} (ledger : s.Ledger) {n : ℕ} {node : BinderNode}
    {q : BinderTransaction} (queued : BinderWork.transaction q ∈ (s.nodes n).asyncTodo)
    (erased : node.asyncTodo = (s.nodes n).asyncTodo.erase (.transaction q))
    (nodes : s'.nodes = Function.update s.nodes n node) (taken : s'.taken = s.taken)
    (pending : s'.pending = s.pending ++ [⟨q, q.buffer⟩])
    (log : s'.log = s.log ++ [.unlinked q]) : s'.Ledger := by
  refine ⟨fun t => ?_, fun t => ?_, fun t e he => ?_, ?_, ?_, fun t b hb => ?_⟩
  · simpa [log] using ledger.once t
  · have held := ledger.held t
    have hcount : (s.nodes n).asyncTodo.count (.transaction t) =
        node.asyncTodo.count (.transaction t) + [q].count t := by
      rw [erased, count_eq_count_erase_add queued]
      simp [List.count_singleton]
    have hunlinked : s'.log.count (.unlinked t) = s.log.count (.unlinked t) + [q].count t := by
      simp [log, List.count_singleton]
    have hsame : s'.log.count (.enqueued t) = s.log.count (.enqueued t) ∧
        s'.log.count (.driverFreed t) = s.log.count (.driverFreed t) := by
      simp [log]
    rw [queuedAt_update nodes, taken]
    split_ifs with ht
    · rw [queuedAt, ht] at held
      omega
    · -- a transaction of another node is not the one unlinked
      have hq : [q].count t = 0 := by
        refine List.count_eq_zero.mpr fun hmem => ht ?_
        rw [List.mem_singleton.mp hmem]
        exact ledger.placed n q queued
      omega
  · have hreclaimed := ledger.reclaimed t e he
    have hunlinked : s'.log.count (.unlinked t) = s.log.count (.unlinked t) + [q].count t := by
      simp [log, List.count_singleton]
    have hpending : s'.pending.count ⟨t, t.buffer⟩ =
        s.pending.count ⟨t, t.buffer⟩ + [q].count t := by
      rw [pending, List.count_append, count_work]
    have heffect : s'.log.count e = s.log.count e := by
      rw [log, List.count_append, (count_of_mem_freeTxnEffects he q).2.2, Nat.add_zero]
    omega
  · refine ledger.placed_update nodes fun t ht => ledger.placed n t ?_
    rw [erased] at ht
    exact List.mem_of_mem_erase ht
  · intro w hw
    rw [pending, List.mem_append, List.mem_singleton] at hw
    rcases hw with hw | rfl
    · exact ledger.own w hw
    · rfl
  · refine ledger.ownReleased t b ?_
    simpa [log] using hb

/-- The driver frees a transaction it has taken. -/
theorem Ledger.free {t : BinderTransaction} (ledger : s.Ledger) (mem : t ∈ s.taken) :
    (s.free t).Ledger := by
  refine ⟨fun u => ?_, fun u => ?_, fun u e he => ?_, ledger.placed, ledger.own,
    fun u b hb => ledger.ownReleased u b ?_⟩
  · simpa [ReclaimState.free] using ledger.once u
  · have held := ledger.held u
    have htaken : s.taken.count u = (s.free t).taken.count u + [t].count u :=
      count_eq_count_erase_add mem u
    have hfreed : (s.free t).log.count (.driverFreed u) =
        s.log.count (.driverFreed u) + [t].count u := by
      simp [ReclaimState.free, List.count_singleton]
    have hsame : (s.free t).log.count (.enqueued u) = s.log.count (.enqueued u) ∧
        (s.free t).log.count (.unlinked u) = s.log.count (.unlinked u) := by
      simp [ReclaimState.free]
    have hqueued : (s.free t).queuedAt u = s.queuedAt u := rfl
    omega
  · have heffect : (s.free t).log.count e = s.log.count e := by
      change (s.log ++ [Effect.driverFreed t]).count e = _
      rw [List.count_append, (count_of_mem_freeTxnEffects he t).2.1, Nat.add_zero]
    have hunlinked : (s.free t).log.count (.unlinked u) = s.log.count (.unlinked u) := by
      simp [ReclaimState.free]
    rw [hunlinked, heffect]
    exact ledger.reclaimed u e he
  · simpa [ReclaimState.free] using hb

/-- The module reclaims the transaction of a pending work item. -/
theorem Ledger.rkxFreeTxnFunc {w : RkxFreeTxnWork} (ledger : s.Ledger) (mem : w ∈ s.pending) :
    (s.rkxFreeTxnFunc w).Ledger := by
  obtain ⟨q, buffer⟩ := w
  obtain rfl : buffer = q.buffer := ledger.own _ mem
  have hlog : (s.rkxFreeTxnFunc ⟨q, q.buffer⟩).log = s.log ++ freeTxnEffects ⟨q, q.buffer⟩ := rfl
  refine ⟨fun t => ?_, fun t => ?_, fun t e he => ?_, ledger.placed, fun w hw => ?_,
    fun t b hb => ?_⟩
  · simpa [hlog, freeTxnEffects] using ledger.once t
  · have hqueued : (s.rkxFreeTxnFunc ⟨q, q.buffer⟩).queuedAt t = s.queuedAt t := rfl
    have htaken : (s.rkxFreeTxnFunc ⟨q, q.buffer⟩).taken = s.taken := rfl
    rw [hqueued, htaken]
    simpa [hlog, freeTxnEffects] using ledger.held t
  · have hreclaimed := ledger.reclaimed t e he
    -- the work leaves the queue as its effects enter the log
    have hpending : s.pending.count ⟨t, t.buffer⟩ =
        (s.rkxFreeTxnFunc ⟨q, q.buffer⟩).pending.count ⟨t, t.buffer⟩ + [q].count t := by
      rw [count_eq_count_erase_add mem, count_work]
      rfl
    have heffect : (s.rkxFreeTxnFunc ⟨q, q.buffer⟩).log.count e = s.log.count e + [q].count t := by
      rw [hlog, List.count_append, List.count_singleton]
      simp only [freeTxnEffects, List.mem_cons, List.not_mem_nil, or_false] at he
      by_cases hqt : q = t
      · subst hqt
        rcases he with rfl | rfl | rfl | rfl <;> simp [freeTxnEffects]
      · rcases he with rfl | rfl | rfl | rfl <;> simp [freeTxnEffects, hqt]
    have hunlinked : (s.rkxFreeTxnFunc ⟨q, q.buffer⟩).log.count (.unlinked t) =
        s.log.count (.unlinked t) := by
      simp [hlog, freeTxnEffects]
    omega
  · exact ledger.own w (List.mem_of_mem_erase hw)
  · simp only [hlog, freeTxnEffects, List.mem_append, List.mem_cons, Effect.bufferReleased.injEq,
      Effect.bufferFreed.injEq, reduceCtorEq, List.not_mem_nil, or_false, false_or] at hb
    rcases hb with (hb | ⟨rfl, rfl⟩) | (hb | ⟨rfl, rfl⟩)
    · exact ledger.ownReleased t b (Or.inl hb)
    · rfl
    · exact ledger.ownReleased t b (Or.inr hb)
    · rfl

/-- The transaction goes either to its node or to the driver. -/
theorem count_enqueue (t u : BinderTransaction) :
    (s.enqueue t).queuedAt u + (s.enqueue t).taken.count u =
      s.queuedAt u + s.taken.count u + [t].count u := by
  rw [ReclaimState.enqueue]
  split_ifs with hwait
  · -- it waits on its node
    rw [queuedAt_update rfl]
    split_ifs with hnode
    · simp only [List.count_append, List.count_singleton, queuedAt, hnode, beq_iff_eq,
        BinderWork.transaction.injEq]
      omega
    · have hne : ¬ t = u := fun h => hnode (by rw [h])
      simp [hne]
  · -- it is handed to the driver, and the list of its node is as before
    rw [queuedAt_update rfl, List.count_append]
    split_ifs with hnode
    · simp only [queuedAt, hnode]
      omega
    · omega

theorem Ledger.placed_enqueue {t : BinderTransaction} (ledger : s.Ledger) (n : ℕ)
    (u : BinderTransaction)
    (hu : BinderWork.transaction u ∈ ((s.enqueue t).nodes n).asyncTodo) :
    u.buffer.targetNode.addr = n := by
  rw [ReclaimState.enqueue] at hu
  split_ifs at hu with hwait
  · refine ledger.placed_update rfl (fun v hv => ?_) n u hu
    rw [List.mem_append, List.mem_singleton, BinderWork.transaction.injEq] at hv
    rcases hv with hold | rfl
    · exact ledger.placed _ v hold
    · rfl
  · refine ledger.placed_update rfl (fun v hv => ?_) n u hu
    exact ledger.placed _ v hv

/-- The driver enqueues a transaction it has not enqueued before. -/
theorem Ledger.enqueue {t : BinderTransaction} (ledger : s.Ledger)
    (fresh : Effect.enqueued t ∉ s.log) : (s.enqueue t).Ledger := by
  have hlog : (s.enqueue t).log = s.log ++ [.enqueued t] := by
    rw [ReclaimState.enqueue]
    split_ifs <;> rfl
  have hpending : (s.enqueue t).pending = s.pending := by
    rw [ReclaimState.enqueue]
    split_ifs <;> rfl
  refine ⟨fun u => ?_, fun u => ?_, fun u e he => ?_, ledger.placed_enqueue, ?_, fun u b hb => ?_⟩
  · have hfresh : s.log.count (.enqueued t) = 0 := List.count_eq_zero.mpr fresh
    have honce := ledger.once u
    rw [hlog, List.count_append, List.count_singleton]
    by_cases hut : t = u
    · subst hut
      simp [hfresh]
    · simpa [hut] using honce
  · have held := ledger.held u
    have henqueued : (s.enqueue t).log.count (.enqueued u) =
        s.log.count (.enqueued u) + [t].count u := by
      simp [hlog, List.count_singleton]
    have hsame : (s.enqueue t).log.count (.driverFreed u) = s.log.count (.driverFreed u) ∧
        (s.enqueue t).log.count (.unlinked u) = s.log.count (.unlinked u) := by
      simp [hlog]
    have hplaces := @count_enqueue s t u
    omega
  · have hreclaimed := ledger.reclaimed u e he
    rw [hpending, hlog, List.count_append, List.count_append,
      (count_of_mem_freeTxnEffects he t).1]
    simpa using hreclaimed
  · rw [hpending]
    exact ledger.own
  · refine ledger.ownReleased u b ?_
    simpa [hlog] using hb

/-! ### References -/

/-- Every temporary reference is held by the driver or by a pending work item,
and a freed process had none. -/
structure Refs (s : ReclaimState) : Prop where
  tmpRef : s.proc.tmpRef = s.driverRefs + s.pending.length
  freed : s.procFreed = true →
    s.proc.isDead = true ∧ s.proc.threads = 0 ∧ s.proc.tmpRef = 0

theorem Refs.driverRefs_of_freed (refs : s.Refs) (freed : s.procFreed = true) :
    s.driverRefs = 0 ∧ s.pending = [] := by
  have hzero := (refs.freed freed).2.2
  rw [refs.tmpRef] at hzero
  exact ⟨by omega, List.length_eq_zero_iff.mp (by omega)⟩

/-- A reference keeps the process alive. -/
theorem Refs.not_freed (refs : s.Refs) (holds : 0 < s.driverRefs) : s.procFreed = false := by
  by_contra hfreed
  have hzero := (refs.driverRefs_of_freed (by simpa using hfreed)).1
  omega

/-- Steps on a live process that leave its references alone. -/
theorem Refs.congr {s' : ReclaimState} (refs : s.Refs) (alive : s.procFreed = false)
    (tmpRef : s'.proc.tmpRef = s.proc.tmpRef) (driverRefs : s'.driverRefs = s.driverRefs)
    (pending : s'.pending = s.pending) (freed : s'.procFreed = s.procFreed) : s'.Refs where
  tmpRef := by rw [tmpRef, driverRefs, pending, refs.tmpRef]
  freed h := by
    rw [freed, alive] at h
    cases h

/-- Taking a reference, whoever holds it then. -/
theorem Refs.get {s' : ReclaimState} (refs : s.Refs) (alive : s.procFreed = false)
    (tmpRef : s'.proc.tmpRef = s.proc.tmpRef + 1)
    (holders : s'.driverRefs + s'.pending.length = s.driverRefs + s.pending.length + 1)
    (freed : s'.procFreed = s.procFreed) : s'.Refs where
  tmpRef := by
    rw [tmpRef, refs.tmpRef]
    omega
  freed h := by
    rw [freed, alive] at h
    cases h

/-- Dropping a reference frees the process only if it was the last. -/
theorem Refs.dec {s' : ReclaimState} (refs : s.Refs) (proc : s'.proc = s.proc)
    (procFreed : s'.procFreed = s.procFreed)
    (holders : s'.driverRefs + s'.pending.length + 1 = s.driverRefs + s.pending.length) :
    s'.rkBinderProcDecTmpref.Refs where
  tmpRef := by
    change s'.proc.tmpRef - 1 = s'.driverRefs + s'.pending.length
    rw [proc, refs.tmpRef]
    omega
  freed h := by
    have htmpRef := refs.tmpRef
    change (s'.procFreed || (s'.proc.isDead && s'.proc.threads == 0 &&
      s'.proc.tmpRef - 1 == 0)) = true at h
    -- whoever drops a reference still held it, so the process was there
    have halive : s'.procFreed = false := by
      by_contra hfreed
      rw [procFreed] at hfreed
      have hzero := refs.driverRefs_of_freed (by simpa using hfreed)
      simp only [hzero, List.length_nil] at holders
      omega
    rw [halive, Bool.false_or, Bool.and_eq_true, Bool.and_eq_true, beq_iff_eq, beq_iff_eq] at h
    exact ⟨h.1.1, h.1.2, h.2⟩

/-! ### Outstanding transactions -/

/-- The transaction an entry of the log enqueued. -/
def enqueuedOf : Effect → Option BinderTransaction
  | .enqueued t => some t
  | _ => none

/-- The transactions enqueued and neither freed by the driver nor unlinked. -/
def outstandingOf (log : List Effect) : Finset BinderTransaction :=
  (log.filterMap enqueuedOf).toFinset.filter fun t =>
    Effect.driverFreed t ∉ log ∧ Effect.unlinked t ∉ log

theorem mem_outstandingOf {log : List Effect} {t : BinderTransaction} :
    t ∈ outstandingOf log ↔
      Effect.enqueued t ∈ log ∧ Effect.driverFreed t ∉ log ∧ Effect.unlinked t ∉ log := by
  have henqueued : ∀ e, enqueuedOf e = some t ↔ e = .enqueued t := by
    intro e
    cases e <;> simp [enqueuedOf]
  simp [outstandingOf, henqueued]

theorem outstandingOf_enqueued {log : List Effect} {t : BinderTransaction}
    (notFreed : Effect.driverFreed t ∉ log) (notUnlinked : Effect.unlinked t ∉ log) :
    outstandingOf (log ++ [.enqueued t]) = insert t (outstandingOf log) := by
  ext u
  simp only [mem_outstandingOf, Finset.mem_insert, List.mem_append, List.mem_singleton,
    Effect.enqueued.injEq, reduceCtorEq, or_false]
  constructor
  · rintro ⟨hu | rfl, hfreed, hunlinked⟩
    · exact Or.inr ⟨hu, hfreed, hunlinked⟩
    · exact Or.inl rfl
  · rintro (rfl | ⟨hu, hfreed, hunlinked⟩)
    · exact ⟨Or.inr rfl, notFreed, notUnlinked⟩
    · exact ⟨Or.inl hu, hfreed, hunlinked⟩

theorem outstandingOf_driverFreed (log : List Effect) (t : BinderTransaction) :
    outstandingOf (log ++ [.driverFreed t]) = (outstandingOf log).erase t := by
  ext u
  simp only [mem_outstandingOf, Finset.mem_erase, List.mem_append, List.mem_singleton,
    Effect.driverFreed.injEq, reduceCtorEq, or_false]
  tauto

theorem outstandingOf_unlinked (log : List Effect) (t : BinderTransaction) :
    outstandingOf (log ++ [.unlinked t]) = (outstandingOf log).erase t := by
  ext u
  simp only [mem_outstandingOf, Finset.mem_erase, List.mem_append, List.mem_singleton,
    Effect.unlinked.injEq, reduceCtorEq, or_false]
  tauto

theorem outstandingOf_freeTxnEffects (log : List Effect) (w : RkxFreeTxnWork) :
    outstandingOf (log ++ freeTxnEffects w) = outstandingOf log := by
  ext u
  simp [mem_outstandingOf, freeTxnEffects]

/-- A transaction in the hands of the driver or of a node is outstanding. -/
theorem Ledger.mem_outstandingOf (ledger : s.Ledger) {t : BinderTransaction}
    (somewhere : 0 < s.queuedAt t + s.taken.count t) : t ∈ outstandingOf s.log := by
  have honce := ledger.once t
  have hheld := ledger.held t
  rw [ReclaimState.mem_outstandingOf]
  exact ⟨List.count_pos_iff.mp (by omega), List.count_eq_zero.mp (by omega),
    List.count_eq_zero.mp (by omega)⟩

/-! ### Every step -/

/-- What holds in every state of every run. -/
structure Inv (s : ReclaimState) : Prop where
  ledger : s.Ledger
  refs : s.Refs
  outstanding : s.proc.outstandingTxns = (outstandingOf s.log).card
  removal : s.wqAlive = false → s.kpRegistered = false ∧ s.pending = []

theorem inv_init (tsk : ℕ) : (init tsk).Inv where
  ledger := ledger_init tsk
  refs := ⟨rfl, fun h => by cases h⟩
  outstanding := rfl
  removal h := by cases h

theorem Inv.handler (inv : s.Inv) (env : KpEnv) (rules : RkxFreeAsync) (kzallocOk : Bool)
    (t : BinderTransaction) (registered : s.kpRegistered = true) (holds : 0 < s.driverRefs) :
    (s.handler env rules kzallocOk t).Inv := by
  rcases handler_cases env rules kzallocOk t s with hsame | ⟨q, hqueued, hunlink⟩
  · rw [hsame]
    exact inv
  · have hq : q ∈ outstandingOf s.log := by
      refine inv.ledger.mem_outstandingOf (Nat.add_pos_left ?_ _)
      rw [queuedAt, inv.ledger.placed _ q hqueued]
      exact List.count_pos_iff.mpr hqueued
    -- the reference of the new work item is the one the probe takes
    rw [hunlink]
    refine ⟨inv.ledger.unlink hqueued rfl rfl rfl rfl rfl,
      inv.refs.get (inv.refs.not_freed holds) rfl (by simp [Nat.add_assoc]) rfl, ?_, fun hwq => ?_⟩
    · have hpos := Finset.card_pos.mpr ⟨q, hq⟩
      simp only [outstandingOf_unlinked, Finset.card_erase_of_mem hq, inv.outstanding]
      omega
    · rw [(inv.removal hwq).1] at registered
      cases registered

theorem Inv.rkxFreeTxnFunc (inv : s.Inv) {w : RkxFreeTxnWork} (mem : w ∈ s.pending) :
    (s.rkxFreeTxnFunc w).Inv := by
  refine ⟨inv.ledger.rkxFreeTxnFunc mem, inv.refs.dec rfl rfl ?_, ?_, fun hwq => ?_⟩
  · have hlength := List.length_erase_of_mem mem
    have hpos := List.length_pos_of_mem mem
    simp only [hlength]
    omega
  · change s.proc.outstandingTxns = (outstandingOf (s.log ++ freeTxnEffects w)).card
    rw [outstandingOf_freeTxnEffects, inv.outstanding]
  · rw [(inv.removal hwq).2] at mem
    cases mem

theorem Inv.enqueue (inv : s.Inv) {t : BinderTransaction} (holds : 0 < s.driverRefs)
    (fresh : Effect.enqueued t ∉ s.log) : (s.enqueue t).Inv := by
  -- never enqueued before, so it was never freed or unlinked either
  have hheld := inv.ledger.held t
  rw [List.count_eq_zero.mpr fresh] at hheld
  have hfreed : Effect.driverFreed t ∉ s.log := List.count_eq_zero.mp (by omega)
  have hunlinked : Effect.unlinked t ∉ s.log := List.count_eq_zero.mp (by omega)
  have hcard : (outstandingOf (s.log ++ [.enqueued t])).card = (outstandingOf s.log).card + 1 := by
    rw [outstandingOf_enqueued hfreed hunlinked, Finset.card_insert_of_notMem]
    rw [ReclaimState.mem_outstandingOf]
    exact fun h => fresh h.1
  refine ⟨inv.ledger.enqueue fresh, ?_, ?_, ?_⟩
  · refine inv.refs.congr (inv.refs.not_freed holds) ?_ ?_ ?_ ?_ <;>
      · rw [ReclaimState.enqueue]
        split_ifs <;> rfl
  · rw [ReclaimState.enqueue]
    split_ifs <;>
      · simp only [hcard, inv.outstanding]
        omega
  · rw [ReclaimState.enqueue]
    split_ifs <;> exact inv.removal

theorem Inv.free (inv : s.Inv) {t : BinderTransaction} (alive : s.procFreed = false)
    (mem : t ∈ s.taken) : (s.free t).Inv := by
  have ht : t ∈ outstandingOf s.log :=
    inv.ledger.mem_outstandingOf (Nat.add_pos_right _ (List.count_pos_iff.mpr mem))
  refine ⟨inv.ledger.free mem, inv.refs.congr alive rfl rfl rfl rfl, ?_, inv.removal⟩
  have hpos := Finset.card_pos.mpr ⟨t, ht⟩
  simp only [ReclaimState.free, outstandingOf_driverFreed, Finset.card_erase_of_mem ht,
    inv.outstanding]
  omega

/-- Taking the front of a node's list is no business of anyone but the driver. -/
theorem Inv.take {s' : ReclaimState} (inv : s.Inv) (alive : s.procFreed = false) {n : ℕ}
    (node : BinderNode) (front : List BinderWork)
    (split : (s.nodes n).asyncTodo = front ++ node.asyncTodo)
    (next : s' = { s with
      nodes := Function.update s.nodes n node, taken := s.taken ++ transactionsOf front }) :
    s'.Inv := by
  subst next
  exact ⟨inv.ledger.take split rfl rfl rfl rfl, inv.refs.congr alive rfl rfl rfl rfl,
    inv.outstanding, inv.removal⟩

theorem Inv.asyncDone (inv : s.Inv) (alive : s.procFreed = false) (n : ℕ) :
    (s.asyncDone n).Inv := by
  rw [ReclaimState.asyncDone]
  cases hlist : (s.nodes n).asyncTodo with
  | nil =>
    refine inv.take alive ⟨false, []⟩ [] hlist ?_
    simp [transactionsOf]
  | cons w rest =>
    exact inv.take alive { s.nodes n with asyncTodo := rest } [w] hlist rfl

/-- One step keeps everything. -/
theorem Inv.step {s' : ReclaimState} {a : ReclaimLabel} (inv : s.Inv) (step : ReclaimStep s a s') :
    s'.Inv := by
  obtain ⟨enabled, rfl⟩ := step
  cases a with
  | handler env rules kzallocOk t => exact inv.handler env rules kzallocOk t enabled.1 enabled.2
  | freeTxn w => exact inv.rkxFreeTxnFunc enabled
  | enqueue t => exact inv.enqueue enabled.1 enabled.2.2
  | asyncDone n => exact inv.asyncDone enabled n
  | releaseNode n =>
    exact inv.take enabled.1 { s.nodes n with asyncTodo := [] } (s.nodes n).asyncTodo
      (List.append_nil _).symm rfl
  | free t => exact inv.free enabled.1 enabled.2
  | getRef =>
    exact ⟨inv.ledger.congr rfl rfl rfl rfl,
      inv.refs.get enabled rfl (Nat.add_right_comm _ _ _) rfl, inv.outstanding, inv.removal⟩
  | putRef =>
    refine ⟨inv.ledger.congr rfl rfl rfl rfl, inv.refs.dec rfl rfl ?_, inv.outstanding,
      inv.removal⟩
    have holds : 0 < s.driverRefs := enabled
    simp only
    omega
  | threadStart =>
    exact ⟨inv.ledger.congr rfl rfl rfl rfl, inv.refs.congr enabled.1 rfl rfl rfl rfl,
      inv.outstanding, inv.removal⟩
  | threadExit =>
    exact ⟨inv.ledger.congr rfl rfl rfl rfl,
      inv.refs.get enabled.1 rfl (Nat.add_right_comm _ _ _) rfl, inv.outstanding, inv.removal⟩
  | setFrozen isFrozen =>
    exact ⟨inv.ledger.congr rfl rfl rfl rfl, inv.refs.congr enabled rfl rfl rfl rfl,
      inv.outstanding, inv.removal⟩
  | die =>
    exact ⟨inv.ledger.congr rfl rfl rfl rfl,
      inv.refs.get enabled.1 rfl (Nat.add_right_comm _ _ _) rfl, inv.outstanding, inv.removal⟩
  | unregisterKprobe =>
    exact ⟨inv.ledger.congr rfl rfl rfl rfl, ⟨inv.refs.tmpRef, inv.refs.freed⟩, inv.outstanding,
      fun hwq => ⟨rfl, (inv.removal hwq).2⟩⟩
  | destroyWorkqueue =>
    exact ⟨inv.ledger.congr rfl rfl rfl rfl, ⟨inv.refs.tmpRef, inv.refs.freed⟩, inv.outstanding,
      fun _ => enabled⟩

/-! ### Every run -/

theorem Inv.of_run {tsk : ℕ} {trace : List (ReclaimLabel × ReclaimState)}
    (run : Run ReclaimStep (init tsk) trace s) : s.Inv :=
  run.invariant (inv_init tsk) fun _ _ _ inv step => inv.step step

/-- An unlinked transaction was unlinked once and is nobody else's. -/
theorem Ledger.of_unlinked (ledger : s.Ledger) {t : BinderTransaction}
    (unlinked : Effect.unlinked t ∈ s.log) :
    s.log.count (.unlinked t) = 1 ∧ Effect.driverFreed t ∉ s.log ∧ t ∉ s.taken ∧
      ∀ n, BinderWork.transaction t ∉ (s.nodes n).asyncTodo := by
  have hpos := List.count_pos_iff.mpr unlinked
  have honce := ledger.once t
  have hheld := ledger.held t
  -- it was enqueued once at most, and being unlinked uses that up
  refine ⟨by omega, List.count_eq_zero.mp (by omega), List.count_eq_zero.mp (by omega),
    fun n hn => ?_⟩
  have hqueued : 0 < s.queuedAt t := by
    rw [queuedAt, ledger.placed n t hn]
    exact List.count_pos_iff.mpr hn
  omega

/-- Each thing to be done to an unlinked transaction is done once, when its work
has run. -/
theorem Ledger.count_effect (ledger : s.Ledger) {t : BinderTransaction}
    (unlinked : Effect.unlinked t ∈ s.log) {e : Effect}
    (he : e ∈ freeTxnEffects ⟨t, t.buffer⟩) :
    s.log.count e = if (⟨t, t.buffer⟩ : RkxFreeTxnWork) ∈ s.pending then 0 else 1 := by
  have hone := (ledger.of_unlinked unlinked).1
  have hreclaimed := ledger.reclaimed t e he
  split_ifs with hpending
  · have hpos := List.count_pos_iff.mpr hpending
    omega
  · have hzero := List.count_eq_zero.mpr hpending
    omega

/-- Nothing is reclaimed that was not unlinked. -/
theorem Ledger.unlinked_of_effect (ledger : s.Ledger) {t : BinderTransaction} {e : Effect}
    (he : e ∈ freeTxnEffects ⟨t, t.buffer⟩) (logged : e ∈ s.log) : Effect.unlinked t ∈ s.log := by
  have hreclaimed := ledger.reclaimed t e he
  have hpos := List.count_pos_iff.mpr logged
  exact List.count_pos_iff.mp (by omega)

/-- A buffer that was released or freed is the buffer of a transaction that was unlinked. -/
theorem Ledger.unlinked_of_buffer (ledger : s.Ledger) {t : BinderTransaction} {b : BinderBuffer}
    (logged : Effect.bufferReleased t b ∈ s.log ∨ Effect.bufferFreed t b ∈ s.log) :
    Effect.unlinked t ∈ s.log ∧ b = t.buffer := by
  obtain rfl := ledger.ownReleased t b logged
  refine ⟨?_, rfl⟩
  rcases logged with hreleased | hfreed
  · exact ledger.unlinked_of_effect (by simp [freeTxnEffects]) hreleased
  · exact ledger.unlinked_of_effect (by simp [freeTxnEffects]) hfreed

theorem Ledger.unlinked_of_struct (ledger : s.Ledger) {t : BinderTransaction}
    (logged : Effect.structFreed t ∈ s.log ∨ Effect.statDeleted t ∈ s.log) :
    Effect.unlinked t ∈ s.log := by
  rcases logged with hfreed | hcounted
  · exact ledger.unlinked_of_effect (by simp [freeTxnEffects]) hfreed
  · exact ledger.unlinked_of_effect (by simp [freeTxnEffects]) hcounted

/-- The work queue can always be drained. -/
theorem exists_drained (s : ReclaimState) : ∃ trace s', Run ReclaimStep s trace s' ∧
    s'.pending = [] ∧ s.log ⊆ s'.log := by
  induction hlength : s.pending.length generalizing s with
  | zero => exact ⟨[], s, Run.nil, List.length_eq_zero_iff.mp hlength, List.Subset.refl _⟩
  | succ k ih =>
    obtain ⟨w, rest, hw⟩ : ∃ w rest, s.pending = w :: rest :=
      List.exists_cons_of_length_eq_add_one hlength
    have hmem : w ∈ s.pending := hw ▸ List.mem_cons_self
    have hshorter : (s.rkxFreeTxnFunc w).pending.length = k := by
      have := List.length_erase_of_mem hmem
      change (s.pending.erase w).length = k
      omega
    obtain ⟨trace, s', hrun, hempty, hlog⟩ := ih (s.rkxFreeTxnFunc w) hshorter
    have hstep : ReclaimStep s (.freeTxn w) (s.rkxFreeTxnFunc w) := ⟨hmem, rfl⟩
    exact ⟨_, s', Run.head hstep hrun, hempty, fun e he => hlog (List.mem_append_left _ he)⟩

end ReclaimState

/-- **Accounting of outdated transactions over every run.** In every state that
any interleaving of the driver, the process and the module reaches:

* a transaction the module unlinked was unlinked once, was not freed by the
  driver and is in no list of the driver;
* while its work is pending its buffer has been neither released nor freed, its
  struct has not been freed and the statistics have not counted it, and once its
  work has run each of the four has been done exactly once;
* nothing else is reclaimed by the module, and no buffer but the transaction's;
* `outstanding_txns` is the number of transactions enqueued and neither freed by
  the driver nor unlinked;
* a freed process has no pending work, and neither has a destroyed work queue;
* the pending works can run, and then every unlinked transaction is reclaimed. -/
theorem reclaim_accounting {tsk : ℕ} {trace : List (ReclaimLabel × ReclaimState)}
    {s : ReclaimState} (run : Run ReclaimStep (ReclaimState.init tsk) trace s) :
    (∀ t, Effect.unlinked t ∈ s.log →
      (s.log.count (.unlinked t) = 1 ∧ Effect.driverFreed t ∉ s.log ∧ t ∉ s.taken ∧
        ∀ n, BinderWork.transaction t ∉ (s.nodes n).asyncTodo) ∧
      ∀ e ∈ [Effect.bufferReleased t t.buffer, .bufferFreed t t.buffer, .structFreed t,
          .statDeleted t],
        s.log.count e = if (⟨t, t.buffer⟩ : RkxFreeTxnWork) ∈ s.pending then 0 else 1) ∧
    (∀ t b, Effect.bufferReleased t b ∈ s.log ∨ Effect.bufferFreed t b ∈ s.log →
      Effect.unlinked t ∈ s.log ∧ b = t.buffer) ∧
    (∀ t, Effect.structFreed t ∈ s.log ∨ Effect.statDeleted t ∈ s.log →
      Effect.unlinked t ∈ s.log) ∧
    s.proc.outstandingTxns = (ReclaimState.outstandingOf s.log).card ∧
    (s.procFreed = true → s.pending = []) ∧
    (s.wqAlive = false → s.pending = []) ∧
    ∃ trace' s', Run ReclaimStep s trace' s' ∧ s'.pending = [] ∧
      ∀ t, Effect.unlinked t ∈ s.log →
        ∀ e ∈ [Effect.bufferReleased t t.buffer, .bufferFreed t t.buffer, .structFreed t,
            .statDeleted t], s'.log.count e = 1 := by
  have inv := ReclaimState.Inv.of_run run
  refine ⟨fun t ht => ⟨inv.ledger.of_unlinked ht, fun e he => inv.ledger.count_effect ht he⟩,
    fun t b => inv.ledger.unlinked_of_buffer, fun t => inv.ledger.unlinked_of_struct,
    inv.outstanding, fun hfreed => (inv.refs.driverRefs_of_freed hfreed).2,
    fun hwq => (inv.removal hwq).2, ?_⟩
  obtain ⟨trace', s', hrun, hempty, hlog⟩ := ReclaimState.exists_drained s
  have inv' : s'.Inv := hrun.invariant inv fun _ _ _ inv step => inv.step step
  refine ⟨trace', s', hrun, hempty, fun t ht e he => ?_⟩
  rw [inv'.ledger.count_effect (hlog ht) he, hempty, if_neg List.not_mem_nil]

/-- A sender holds a reference and enqueues one transaction. -/
def oneDelivered : ReclaimState := (ReclaimState.init 0).getRef.enqueue (oneWayOf 1 [])

/-- A second one of the same class waits on its node. -/
def oneWaiting : ReclaimState := oneDelivered.enqueue (oneWayOf 2 [])

/-- The probe for a third one unlinks it. -/
def oneUnlinked : ReclaimState :=
  oneWaiting.handler frozenEnv rkxInitFreeAsync true (oneWayOf 3 [])

/-- The work that frees it has run. -/
def oneReclaimed : ReclaimState :=
  oneUnlinked.rkxFreeTxnFunc ⟨oneWayOf 2 [], (oneWayOf 2 []).buffer⟩

theorem reclaim_accounting_oneReclaimed :
    Effect.unlinked (oneWayOf 2 []) ∈ oneReclaimed.log ∧
      oneReclaimed.log.count (.bufferReleased (oneWayOf 2 []) (oneWayOf 2 []).buffer) = 1 ∧
      oneReclaimed.log.count (.bufferFreed (oneWayOf 2 []) (oneWayOf 2 []).buffer) = 1 ∧
      oneReclaimed.log.count (.structFreed (oneWayOf 2 [])) = 1 ∧
      oneReclaimed.log.count (.statDeleted (oneWayOf 2 [])) = 1 ∧
      oneReclaimed.proc.outstandingTxns =
        (ReclaimState.outstandingOf oneReclaimed.log).card := by
  have hget : ReclaimStep (ReclaimState.init 0) .getRef (ReclaimState.init 0).getRef := ⟨rfl, rfl⟩
  have hfirst : ReclaimStep (ReclaimState.init 0).getRef (.enqueue (oneWayOf 1 [])) oneDelivered :=
    ⟨⟨by decide, rfl, by decide⟩, rfl⟩
  have hsecond : ReclaimStep oneDelivered (.enqueue (oneWayOf 2 [])) oneWaiting :=
    ⟨⟨by decide, rfl, by decide⟩, rfl⟩
  have hunlink : ReclaimStep oneWaiting
      (.handler frozenEnv rkxInitFreeAsync true (oneWayOf 3 [])) oneUnlinked :=
    ⟨⟨rfl, by decide⟩, rfl⟩
  have hfree : ReclaimStep oneUnlinked (.freeTxn ⟨oneWayOf 2 [], (oneWayOf 2 []).buffer⟩)
      oneReclaimed :=
    ⟨show (⟨oneWayOf 2 [], (oneWayOf 2 []).buffer⟩ : RkxFreeTxnWork) ∈ oneUnlinked.pending by
      decide, rfl⟩
  have hrun := ((((Run.nil.snoc hget).snoc hfirst).snoc hsecond).snoc hunlink).snoc hfree
  have hunlinked : Effect.unlinked (oneWayOf 2 []) ∈ oneReclaimed.log := by decide
  have hdone : (⟨oneWayOf 2 [], (oneWayOf 2 []).buffer⟩ : RkxFreeTxnWork) ∉
      oneReclaimed.pending := by decide
  obtain ⟨heffects, -, -, houtstanding, -⟩ := reclaim_accounting hrun
  have honce := (heffects _ hunlinked).2
  rw [if_neg hdone] at honce
  exact ⟨hunlinked, honce _ (by simp), honce _ (by simp), honce _ (by simp), honce _ (by simp),
    houtstanding⟩

end ReKernelX
