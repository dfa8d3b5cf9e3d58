import ReKernelX.Foundation.Threads
import ReKernelX.Module.Reclaim

/-!
# The probe, statement by statement

The accounting of transactions takes the probe and the freeing of a work item as
single steps. In the code they are not: the probe reads whether the task is frozen
and what the rules say, takes the node lock and later the inner lock, decides,
unlinks, gives both locks back and only then puts its work item on the queue; the
work item is freed in five steps, and on a kernel without `binder_proc_dec_tmpref` the
last of them takes the inner lock itself. Many probes run at once, with the work
queue and the driver in between.

This module is that code, as programs over single calls, and what the calls do in
a world with locks. A call that the code would not be allowed to make there, such as
reading a list without its lock, taking locks in the wrong order, unlinking what is
not in a list or using a freed process, is a fault. The three assignments under both
locks that unlink a transaction are one call: nobody else can look at what they change.

Two things of the code are not here. The probe clears `t_outdated->buffer` and
`buffer->transaction` before it queues its work, and the work frees itself with
`kfree(w)` at its end. All three are about memory that is only in the hands of that
thread, and the memory whose freeing is followed here is that of the process.
-/

set_option autoImplicit false

namespace ReKernelX

open Proc Bytes

/-! ### The code -/

/-- The single steps of the probe and of the work function. -/
inductive KpCall
  | isFrozen
  | hasEntries
  | lookupRcu (rpcName : CString) (code : Int32)
  | nodeLock (n : ℕ)
  | nodeUnlock (n : ℕ)
  | innerLock
  | innerUnlock
  | hasAsyncTransaction (n : ℕ)
  | deadOrFrozen
  | asyncTodo (n : ℕ)
  | kzalloc
  | unlink (n : ℕ) (t : BinderTransaction)
  | queueWork (w : RkxFreeTxnWork)
  /-- one of the things done to a work's transaction -/
  | reclaim (w : RkxFreeTxnWork) (e : Effect)
  /-- `binder_proc_dec_tmpref` of the driver -/
  | driverDecTmpref (w : RkxFreeTxnWork)
  /-- `proc->tmp_ref--` and the test after it -/
  | decTmpRef (w : RkxFreeTxnWork)
  | freeProc

def KpCall.Answer : KpCall → Type
  | .isFrozen | .hasEntries | .hasAsyncTransaction _ | .deadOrFrozen | .kzalloc
  | .decTmpRef _ => Bool
  | .lookupRcu _ _ => UInt8
  | .asyncTodo _ => List BinderWork
  | .nodeLock _ | .nodeUnlock _ | .innerLock | .innerUnlock | .unlink _ _ | .queueWork _
  | .reclaim _ _ | .driverDecTmpref _ | .freeProc => Unit

abbrev KpProc := Proc KpCall KpCall.Answer

namespace Kp

def isFrozen : KpProc Bool := perform KpCall.isFrozen
def hasEntries : KpProc Bool := perform KpCall.hasEntries
def lookupRcu (rpcName : CString) (code : Int32) : KpProc UInt8 :=
  perform (KpCall.lookupRcu rpcName code)
def rkBinderNodeLock (n : ℕ) : KpProc Unit := perform (KpCall.nodeLock n)
def rkBinderNodeUnlock (n : ℕ) : KpProc Unit := perform (KpCall.nodeUnlock n)
def rkBinderInnerProcLock : KpProc Unit := perform KpCall.innerLock
def rkBinderInnerProcUnlock : KpProc Unit := perform KpCall.innerUnlock
def hasAsyncTransaction (n : ℕ) : KpProc Bool := perform (KpCall.hasAsyncTransaction n)
def deadOrFrozen : KpProc Bool := perform KpCall.deadOrFrozen
def asyncTodo (n : ℕ) : KpProc (List BinderWork) := perform (KpCall.asyncTodo n)
def kzalloc : KpProc Bool := perform KpCall.kzalloc
def unlink (n : ℕ) (t : BinderTransaction) : KpProc Unit := perform (KpCall.unlink n t)
def rkxQueueFreeTxn (w : RkxFreeTxnWork) : KpProc Unit := perform (KpCall.queueWork w)
def rkBinderReleaseEntireBuffer (w : RkxFreeTxnWork) : KpProc Unit :=
  perform (KpCall.reclaim w (.bufferReleased w.t w.buffer))
def binderAllocFreeBuf (w : RkxFreeTxnWork) : KpProc Unit :=
  perform (KpCall.reclaim w (.bufferFreed w.t w.buffer))
def kfree (w : RkxFreeTxnWork) : KpProc Unit := perform (KpCall.reclaim w (.structFreed w.t))
def rkBinderStatsDeleted (w : RkxFreeTxnWork) : KpProc Unit :=
  perform (KpCall.reclaim w (.statDeleted w.t))
def driverDecTmpref (w : RkxFreeTxnWork) : KpProc Unit := perform (KpCall.driverDecTmpref w)
def decTmpRef (w : RkxFreeTxnWork) : KpProc Bool := perform (KpCall.decTmpRef w)
def freeProc : KpProc Unit := perform KpCall.freeProc

/-- The strategy for a transaction: the table is looked at once for whether it has
entries, and again by the lookup. -/
def strategyFor (env : KpEnv) (t : BinderTransaction) : KpProc UInt8 := do
  let entries ← hasEntries
  let parsed := rkxParseInterfaceToken env t.buffer rkxInterfacetokenBuffSize
  if entries && parsed.1 then lookupRcu parsed.2 t.code.toInt32
  else return rkxFreeAsyncByCode

/-- What happens to the outdated transaction under both locks, if there is one. -/
def takeOutdated (n : ℕ) : Option BinderTransaction → KpProc (Option RkxFreeTxnWork)
  | none => return none
  | some tOutdated => do
    let allocated ← kzalloc
    if allocated then
      unlink n tOutdated
      return some ⟨tOutdated, tOutdated.buffer⟩
    else return none

/-- The part of the probe under the inner lock. -/
def underInnerLock (env : KpEnv) (t : BinderTransaction) (strategy : UInt8) :
    KpProc (Option RkxFreeTxnWork) := do
  let gone ← deadOrFrozen
  if gone then return none
  else
    let todo ← asyncTodo t.buffer.targetNode.addr
    let tOutdated := rkBinderFindOutdatedTransactionIlocked env t strategy todo
    takeOutdated t.buffer.targetNode.addr tOutdated

/-- The part of the probe from the node lock on. -/
def underNodeLock (env : KpEnv) (t : BinderTransaction) (strategy : UInt8) : KpProc Unit := do
  rkBinderNodeLock t.buffer.targetNode.addr
  let async ← hasAsyncTransaction t.buffer.targetNode.addr
  if async then
    rkBinderInnerProcLock
    let outdated ← underInnerLock env t strategy
    rkBinderInnerProcUnlock
    rkBinderNodeUnlock t.buffer.targetNode.addr
    match outdated with
    | some w => rkxQueueFreeTxn w
    | none => return ()
  else rkBinderNodeUnlock t.buffer.targetNode.addr

/-- `rkx_binder_proc_transaction_pre` -/
def rkxBinderProcTransactionPre (env : KpEnv) (t : BinderTransaction) : KpProc Unit :=
  if t.flags &&& tfOneWay = 0 then return ()
  else do
    let frozen ← isFrozen
    if frozen then
      let strategy ← strategyFor env t
      if strategy = rkxFreeAsyncSkip then return ()
      else underNodeLock env t strategy
    else return ()

/-- `rk_binder_proc_dec_tmpref`; `direct` is that the driver's own function was found. -/
def rkBinderProcDecTmpref (direct : Bool) (w : RkxFreeTxnWork) : KpProc Unit :=
  if direct then driverDecTmpref w
  else do
    rkBinderInnerProcLock
    let last ← decTmpRef w
    rkBinderInnerProcUnlock
    -- with the lock given back, a process that nobody can reach any more
    if last then freeProc else return ()

/-- `rkx_free_txn_func` -/
def rkxFreeTxnFunc (direct : Bool) (w : RkxFreeTxnWork) : KpProc Unit := do
  rkBinderReleaseEntireBuffer w
  binderAllocFreeBuf w
  kfree w
  rkBinderStatsDeleted w
  rkBinderProcDecTmpref direct w

end Kp

/-! ### The world -/

/-- A work item that is not on the queue: a probe has just unlinked its transaction, or
the work queue is running it and has done some of what is to be done. -/
structure TxnInHand (T : Type) where
  owner : T
  work : RkxFreeTxnWork
  done : List Effect

/-- The process and the queue, the tasks and the rules, the locks with their owners, and
which threads are in a probe or in a work item. -/
structure KpWorld (T : Type) where
  mem : ReclaimState
  tasks : ℕ → TaskStruct
  rules : RkxFreeAsync
  nodeLock : ℕ → Option T
  innerLock : Option T
  probing : List T
  working : List T
  hand : List (TxnInHand T)
  /-- the thread that has found the process unreachable and is going to free it -/
  doomed : Option T
  ok : Bool

namespace KpWorld

variable {T : Type}

/-- A process that has just been opened, with the module loaded. -/
def init (tsk : ℕ) (tasks : ℕ → TaskStruct) (rules : RkxFreeAsync) : KpWorld T where
  mem := .init tsk
  tasks := tasks
  rules := rules
  nodeLock _ := none
  innerLock := none
  probing := []
  working := []
  hand := []
  doomed := none
  ok := true

def fault (s : KpWorld T) : KpWorld T := { s with ok := false }

/-- The thread has a lock. -/
def Holds (s : KpWorld T) (t : T) : Prop := s.innerLock = some t ∨ ∃ n, s.nodeLock n = some t

/-- The process with the accounting's view of it: works that are in hand count as pending,
and a process that is going to be freed as freed. -/
def atomic (s : KpWorld T) (pending : List RkxFreeTxnWork) (log : List Effect) : ReclaimState :=
  { s.mem with
    pending := pending
    log := log
    procFreed := s.mem.procFreed || s.doomed.isSome }

variable [DecidableEq T]

/-- What a thread has in hand. -/
def mine (s : KpWorld T) (t : T) : List (TxnInHand T) := s.hand.filter fun h => h.owner = t

/-- What the others have in hand. -/
def others (s : KpWorld T) (t : T) : List (TxnInHand T) := s.hand.filter fun h => h.owner ≠ t

/-- `proc->tmp_ref++`, `list_del_init` and `proc->outstanding_txns--` -/
def unlinked (s : KpWorld T) (t : T) (n : ℕ) (q : BinderTransaction) : KpWorld T :=
  { s with
    mem := { s.mem with
      proc := { s.mem.proc with
        tmpRef := s.mem.proc.tmpRef + 1
        outstandingTxns := s.mem.proc.outstandingTxns - 1 }
      nodes := Function.update s.mem.nodes n
        { s.mem.nodes n with asyncTodo := (s.mem.nodes n).asyncTodo.erase (.transaction q) }
      log := s.mem.log ++ [.unlinked q] }
    hand := s.hand ++ [⟨t, ⟨q, q.buffer⟩, []⟩] }

def queued (s : KpWorld T) (t : T) (w : RkxFreeTxnWork) : KpWorld T :=
  { s with
    mem := { s.mem with pending := s.mem.pending ++ [w] }
    hand := s.others t }

def reclaimed (s : KpWorld T) (t : T) (e : Effect) : KpWorld T :=
  { s with
    mem := { s.mem with log := s.mem.log ++ [e] }
    hand := s.hand.map fun h => if h.owner = t then { h with done := h.done ++ [e] } else h }

/-- `binder_proc_dec_tmpref` of the driver: the reference of a work item is dropped. -/
def dropped (s : KpWorld T) (t : T) : KpWorld T :=
  { s with mem := s.mem.rkBinderProcDecTmpref, hand := s.others t }

/-- The test after `proc->tmp_ref--`. -/
def lastRef (s : KpWorld T) : Bool :=
  s.mem.proc.isDead && s.mem.proc.threads == 0 && s.mem.proc.tmpRef - 1 == 0

/-- `proc->tmp_ref--` by the module itself. -/
def decremented (s : KpWorld T) (t : T) : KpWorld T :=
  { s with
    mem := { s.mem with proc := { s.mem.proc with tmpRef := s.mem.proc.tmpRef - 1 } }
    hand := s.others t
    doomed := if s.lastRef then some t else s.doomed }

end KpWorld

open KpWorld in
/-- What each call of a thread may answer and do. -/
def kpSem {T : Type} [DecidableEq T] (env : KpEnv) (t : T) :
    Sem KpCall KpCall.Answer (KpWorld T)
  | .isFrozen, s, r, s' => r = rkxIsFrozen (s.tasks s.mem.proc.tsk) ∧ s' = s
  | .hasEntries, s, r, s' => r = rkxFreeAsyncHasEntries s.rules ∧ s' = s
  | .lookupRcu rpcName code, s, r, s' =>
    r = ((rkxFreeAsyncLookupRcu env.jhash s.rules (some rpcName) code
      (some rkxFreeAsyncByCode)).2).getD rkxFreeAsyncByCode ∧ s' = s
  -- a lock is waited for, but never one that is already held or out of order
  | .nodeLock n, s, _, s' => Guarded s.fault s' (¬ s.Holds t ∧ s.mem.procFreed = false)
      (s.nodeLock n = none ∧ s' = { s with nodeLock := Function.update s.nodeLock n (some t) })
  | .nodeUnlock n, s, _, s' => Guarded s.fault s' (s.nodeLock n = some t ∧ s.mem.procFreed = false)
      (s' = { s with nodeLock := Function.update s.nodeLock n none })
  | .innerLock, s, _, s' => Guarded s.fault s' (s.innerLock ≠ some t ∧ s.mem.procFreed = false)
      (s.innerLock = none ∧ s' = { s with innerLock := some t })
  | .innerUnlock, s, _, s' => Guarded s.fault s' (s.innerLock = some t ∧ s.mem.procFreed = false)
      (s' = { s with innerLock := none })
  | .hasAsyncTransaction n, s, r, s' =>
    Guarded s.fault s' (s.nodeLock n = some t ∧ s.mem.procFreed = false)
      (r = (s.mem.nodes n).hasAsyncTransaction ∧ s' = s)
  | .deadOrFrozen, s, r, s' => Guarded s.fault s' (s.innerLock = some t ∧ s.mem.procFreed = false)
      (r = (s.mem.proc.isDead || s.mem.proc.isFrozen) ∧ s' = s)
  | .asyncTodo n, s, r, s' =>
    Guarded s.fault s' (s.innerLock = some t ∧ s.nodeLock n = some t ∧ s.mem.procFreed = false)
      (r = (s.mem.nodes n).asyncTodo ∧ s' = s)
  | .kzalloc, s, _, s' => s' = s
  | .unlink n q, s, _, s' =>
    Guarded s.fault s' (s.innerLock = some t ∧ s.nodeLock n = some t ∧ s.mem.procFreed = false ∧
        BinderWork.transaction q ∈ (s.mem.nodes n).asyncTodo)
      (s' = s.unlinked t n q)
  | .queueWork w, s, _, s' =>
    Guarded s.fault s' (s.mine t = [⟨t, w, []⟩] ∧ s.mem.wqAlive = true) (s' = s.queued t w)
  | .reclaim w e, s, _, s' =>
    Guarded s.fault s' ((∃ done, s.mine t = [⟨t, w, done⟩]) ∧ s.mem.procFreed = false)
      (s' = s.reclaimed t e)
  | .driverDecTmpref w, s, _, s' =>
    Guarded s.fault s' ((∃ done, s.mine t = [⟨t, w, done⟩]) ∧ s.innerLock ≠ some t ∧
        s.mem.procFreed = false)
      (s.innerLock = none ∧ s' = s.dropped t)
  | .decTmpRef w, s, last, s' =>
    Guarded s.fault s' ((∃ done, s.mine t = [⟨t, w, done⟩]) ∧ s.innerLock = some t ∧
        s.mem.procFreed = false)
      (last = s.lastRef ∧ s' = s.decremented t)
  | .freeProc, s, _, s' => Guarded s.fault s' (s.doomed = some t ∧ s.mem.procFreed = false)
      (s' = { s with mem := { s.mem with procFreed := true }, doomed := none })

/-! ### The rest of the world -/

/-- The steps of the driver. -/
def ReclaimLabel.Driver : ReclaimLabel → Prop
  | .handler _ _ _ _ | .freeTxn _ | .unregisterKprobe | .destroyWorkqueue => False
  | _ => True

/-- The node whose lock the driver takes for a step; it takes the inner lock for all. -/
def ReclaimLabel.lockedNode : ReclaimLabel → Option ℕ
  | .enqueue t => some t.buffer.targetNode.addr
  | .asyncDone n => some n
  | _ => none

variable {T : Type}

/-- The driver takes a step when it can have the locks, and keeps the reference of a send
whose probe is running. Removing the probe waits for the probes that run, destroying the queue
for the works. Tasks are frozen and rules changed at any time. -/
inductive KpEnvStep : KpWorld T → KpWorld T → Prop
  | driver {s : KpWorld T} {a : ReclaimLabel} (driver : a.Driver)
      (enabled : (s.atomic s.mem.pending s.mem.log).Enabled a)
      (inner : s.innerLock = none) (node : ∀ n, a.lockedNode = some n → s.nodeLock n = none)
      (sending : a = .putRef → s.probing.length < s.mem.driverRefs) :
      KpEnvStep s { s with mem := s.mem.next a }
  | unregisterKprobe {s : KpWorld T} (waited : s.probing = []) :
      KpEnvStep s { s with mem := { s.mem with kpRegistered := false } }
  | destroyWorkqueue {s : KpWorld T} (unregistered : s.mem.kpRegistered = false)
      (flushed : s.mem.pending = [] ∧ s.working = []) :
      KpEnvStep s { s with mem := { s.mem with wqAlive := false } }
  | surroundings {s : KpWorld T} (tasks : ℕ → TaskStruct) (rules : RkxFreeAsync) :
      KpEnvStep s { s with tasks := tasks, rules := rules }

/-- A thread enters the probe in the course of a send, or runs a work of the queue. It does
one thing at a time. -/
inductive KpStart (env : KpEnv) (direct : Bool) (t : T) :
    KpProc Unit → KpWorld T → KpWorld T → Prop
  | probe {s : KpWorld T} (incoming : BinderTransaction) (idle : t ∉ s.probing ∧ t ∉ s.working)
      (registered : s.mem.kpRegistered = true) (sending : s.probing.length < s.mem.driverRefs) :
      KpStart env direct t (Kp.rkxBinderProcTransactionPre env incoming) s
        { s with probing := t :: s.probing }
  | work {s : KpWorld T} (w : RkxFreeTxnWork) (idle : t ∉ s.probing ∧ t ∉ s.working)
      (queued : w ∈ s.mem.pending) :
      KpStart env direct t (Kp.rkxFreeTxnFunc direct w) s
        { s with
          mem := { s.mem with pending := s.mem.pending.erase w }
          working := t :: s.working
          hand := s.hand ++ [⟨t, w, []⟩] }

/-- Probes and works of all threads, with the driver in between. -/
def kpSystem (T : Type) [DecidableEq T] (env : KpEnv) (direct : Bool) :
    System T KpCall KpCall.Answer Unit (KpWorld T) where
  sem := kpSem env
  start := KpStart env direct
  finish t s s' := s' = { s with probing := s.probing.erase t, working := s.working.erase t }
  env := KpEnvStep

end ReKernelX
