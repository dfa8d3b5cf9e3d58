import ReKernelX.Module.FreeAsync

/-!
# Reclaiming an outdated transaction

`rkx_binder_kp.c` probes the entry of `binder_proc_transaction`. For a one-way
transaction to a frozen process the probe looks up a strategy for the incoming
transaction, searches the target node's `async_todo` for one queued transaction
that the new one replaces, and unlinks it under the node and process locks. The
memory of the unlinked transaction is handed to a work queue.

This module is the code: the chunked comparison of two buffers, the parser that
reads the interface name out of a parcel, the comparison of two transactions,
the search, and the probe. The driver's routine that copies bytes out of a
buffer, the hash function and the state of tasks are parameters (`KpEnv`).
-/

set_option autoImplicit false

namespace ReKernelX

open Bytes

/-! ### The driver's structures

Only the fields the module reads or writes. Pointers that are merely compared
are addresses. -/

/-- `TF_ONE_WAY` -/
def tfOneWay : UInt32 := 1

/-- A `struct binder_node *` with the two identifying fields the comparison reads. -/
structure BinderNodeRef where
  addr : ℕ
  ptr : UInt64
  cookie : UInt64
  deriving DecidableEq

/-- `struct binder_buffer`: its `data_size` bytes of data, the size of its
object offsets, the sender's pid and the target node. -/
structure BinderBuffer where
  data : List UInt8
  offsetsSize : ℕ
  pid : ℤ
  targetNode : BinderNodeRef
  deriving DecidableEq

/-- `buffer->data_size` -/
def BinderBuffer.dataSize (b : BinderBuffer) : ℕ := b.data.length

/-- `struct binder_transaction`. `toProc` is `to_proc->tsk` when `to_proc` is not
null, and `debugId` is the driver's own unique number for the transaction. -/
structure BinderTransaction where
  debugId : ℕ
  flags : UInt32
  code : UInt32
  toProc : Option ℕ
  buffer : BinderBuffer
  deriving DecidableEq

/-- An entry of a work list: a transaction or work of another type. -/
inductive BinderWork
  | transaction (t : BinderTransaction)
  | other (type : ℕ)
  deriving DecidableEq

/-- The part of `struct binder_node` guarded by the node lock. -/
structure BinderNode where
  hasAsyncTransaction : Bool
  asyncTodo : List BinderWork

/-- The part of `struct binder_proc` guarded by the inner lock. `threads` is the
number of nodes in its thread tree. -/
structure BinderProc where
  tsk : ℕ
  isDead : Bool
  isFrozen : Bool
  tmpRef : ℤ
  outstandingTxns : ℤ
  threads : ℕ

/-- `struct rkx_free_txn_work`: the transaction to free and the buffer taken off
it. The process it belongs to is the one whose queue it was on. -/
structure RkxFreeTxnWork where
  t : BinderTransaction
  buffer : BinderBuffer
  deriving DecidableEq

/-- What `rkx_is_frozen` reads of a task: its cgroup and job-control freeze
flags, and of its group leader whether its state is frozen or it is freezing. -/
structure TaskStruct where
  cgroupTaskFrozen : Bool
  jobctlFrozen : Bool
  groupLeader : Option (Bool × Bool)

/-- `rkx_is_frozen` -/
def rkxIsFrozen (task : TaskStruct) : Bool :=
  if task.cgroupTaskFrozen || task.jobctlFrozen then true
  else
    match task.groupLeader with
    | none => false
    | some (stateFrozen, freezing) => stateFrozen || freezing

/-- What the probe takes from the kernel around it. -/
structure KpEnv where
  /-- `jhash` with initial value zero -/
  jhash : List UInt8 → UInt32
  /-- `k_binder_alloc_copy_from_buffer`: the bytes copied from an offset, or
  `none` when it returns an error -/
  copyFromBuffer : BinderBuffer → ℕ → ℕ → Option (List UInt8)
  /-- the tasks, by address -/
  task : ℕ → TaskStruct

/-- The contract of the driver's copy on a buffer in use: an aligned copy that
stays inside the data succeeds with those bytes. -/
def KpEnv.Faithful (env : KpEnv) : Prop :=
  ∀ b offset bytes, offset % 4 = 0 → offset + bytes ≤ b.dataSize →
    env.copyFromBuffer b offset bytes = some ((b.data.drop offset).take bytes)

/-- A copy with the driver's bounds check and nothing else that can fail. -/
def checkedCopy (b : BinderBuffer) (offset bytes : ℕ) : Option (List UInt8) :=
  if offset % 4 = 0 ∧ offset + bytes ≤ b.dataSize then some ((b.data.drop offset).take bytes)
  else none

/-- The probe's surroundings with a constant hash, the checked copy and every
task frozen. -/
def frozenEnv : KpEnv where
  jhash _ := 0
  copyFromBuffer := checkedCopy
  task _ := ⟨true, false, none⟩

theorem frozenEnv_faithful : frozenEnv.Faithful :=
  fun _ _ _ haligned hfits => if_pos ⟨haligned, hfits⟩

variable (env : KpEnv)

/-! ### Comparing two buffers -/

/-- A call of the driver's copy. -/
structure CopyCall where
  buffer : BinderBuffer
  offset : ℕ
  bytes : ℕ

/-- The loop of `rkx_binder_buffer_data_equal`: its answer, and the copies it makes. -/
def dataEqualLoop (b1 b2 : BinderBuffer) (total pos : ℕ) : Bool × List CopyCall :=
  if pos < total then
    let chunk := min (total - pos) 64
    match env.copyFromBuffer b1 pos chunk with
    | none => (false, [⟨b1, pos, chunk⟩])
    | some c1 =>
      match env.copyFromBuffer b2 pos chunk with
      | none => (false, [⟨b1, pos, chunk⟩, ⟨b2, pos, chunk⟩])
      | some c2 =>
        -- `memcmp` over the two stack arrays
        if c1.take chunk ≠ c2.take chunk then (false, [⟨b1, pos, chunk⟩, ⟨b2, pos, chunk⟩])
        else
          let rest := dataEqualLoop b1 b2 total (pos + chunk)
          (rest.1, ⟨b1, pos, chunk⟩ :: ⟨b2, pos, chunk⟩ :: rest.2)
  else (true, [])
termination_by total - pos

/-- `rkx_binder_buffer_data_equal` with the copies it makes. -/
def dataEqualWithCopies (b1 b2 : BinderBuffer) : Bool × List CopyCall :=
  if b1.dataSize ≠ b2.dataSize then (false, [])
  else dataEqualLoop env b1 b2 b1.dataSize 0

/-- `rkx_binder_buffer_data_equal` -/
def rkxBinderBufferDataEqual (b1 b2 : BinderBuffer) : Bool := (dataEqualWithCopies env b1 b2).1

/-! ### Parsing the interface token -/

/-- The loop of `rkx_parse_interface_token`: the bytes it stores. `room` is how
many more stores `i + 1 < rpc_name_size` allows, `j` the index it tests against
`copy_size`, `p` the index it reads. -/
def tokenLoop (hdr : List UInt8) (copySize : ℕ) : ℕ → ℕ → ℕ → List UInt8
  | 0, _, _ => []
  | room + 1, j, p =>
    if j < copySize ∧ hdr.getD p 0 ≠ 0 then
      hdr.getD p 0 :: tokenLoop hdr copySize room (j + 2) (p + 2)
    else []

theorem zero_notMem_tokenLoop (hdr : List UInt8) (copySize room j p : ℕ) :
    0 ∉ tokenLoop hdr copySize room j p := by
  induction room generalizing j p with
  | zero => simp [tokenLoop]
  | succ room ih =>
    rw [tokenLoop]
    split_ifs with h
    · rw [List.mem_cons, not_or]
      exact ⟨fun h0 => h.2 h0.symm, ih (j + 2) (p + 2)⟩
    · simp

/-- `rkx_parse_interface_token`: the returned flag and the string left in
`rpc_name`. -/
def rkxParseInterfaceToken (buffer : BinderBuffer) (rpcNameSize : ℕ) : Bool × CString :=
  if rpcNameSize = 0 then (false, ⟨[], List.not_mem_nil⟩)
  else if buffer.dataSize ≤ rkxParcelOffset then (false, ⟨[], List.not_mem_nil⟩)
  else
    -- a parcel shorter than the array is copied whole, a longer one is cut
    let copySize := min buffer.dataSize rkxInterfacetokenBuffSize
    match env.copyFromBuffer buffer 0 copySize with
    | none => (false, ⟨[], List.not_mem_nil⟩)
    | some hdr =>
      let name := tokenLoop hdr copySize (rpcNameSize - 1) (rkxParcelOffset + 1) rkxParcelOffset
      (decide (0 < name.length), ⟨name, zero_notMem_tokenLoop _ _ _ _ _⟩)

/-! ### Comparing two transactions -/

/-- `rk_binder_can_update_transaction` -/
def rkBinderCanUpdateTransaction (t1 t2 : BinderTransaction) (strategy : UInt8) : Bool :=
  if t1.flags &&& t2.flags &&& tfOneWay ≠ tfOneWay ∨ t1.toProc = none ∨ t2.toProc = none then
    false
  else if t1.toProc = t2.toProc ∧ t1.code = t2.code ∧ t1.flags = t2.flags ∧
      t1.buffer.pid = t2.buffer.pid ∧
      t1.buffer.targetNode.ptr = t2.buffer.targetNode.ptr ∧
      t1.buffer.targetNode.cookie = t2.buffer.targetNode.cookie then
    if t1.buffer.offsetsSize ≠ 0 ∨ t2.buffer.offsetsSize ≠ 0 then false
    else if strategy = rkxFreeAsyncByCode then true
    else if strategy = rkxFreeAsyncByData then rkxBinderBufferDataEqual env t1.buffer t2.buffer
    else false
  else false

/-- `rk_binder_find_outdated_transaction_ilocked` -/
def rkBinderFindOutdatedTransactionIlocked (t : BinderTransaction) (strategy : UInt8) :
    List BinderWork → Option BinderTransaction
  | [] => none
  | .other _ :: rest => rkBinderFindOutdatedTransactionIlocked t strategy rest
  | .transaction tQueued :: rest =>
    if rkBinderCanUpdateTransaction env tQueued t strategy then some tQueued
    else rkBinderFindOutdatedTransactionIlocked t strategy rest

/-! ### The probe -/

/-- The strategy the probe settles on for an incoming transaction: the default,
unless the table has rules, the parcel has a token and a rule is found. -/
def freeAsyncStrategy (rules : RkxFreeAsync) (t : BinderTransaction) : UInt8 :=
  let parsed := rkxParseInterfaceToken env t.buffer rkxInterfacetokenBuffSize
  if rkxFreeAsyncHasEntries rules && parsed.1 then
    ((rkxFreeAsyncLookupRcu env.jhash rules (some parsed.2) t.code.toInt32
      (some rkxFreeAsyncByCode)).2).getD rkxFreeAsyncByCode
  else rkxFreeAsyncByCode

/-- `rkx_binder_proc_transaction_pre` on the target process and the target node
of `t`: both afterwards, and the work item it queues, if any. -/
def rkxBinderProcTransactionPre (rules : RkxFreeAsync) (kzallocOk : Bool)
    (t : BinderTransaction) (proc : BinderProc) (node : BinderNode) :
    BinderProc × BinderNode × Option RkxFreeTxnWork :=
  if t.flags &&& tfOneWay = 0 then (proc, node, none)
  else if rkxIsFrozen (env.task proc.tsk) then
    let strategy := freeAsyncStrategy env rules t
    if strategy = rkxFreeAsyncSkip then (proc, node, none)
    -- from here on under the node lock, and below under the inner lock as well
    else if node.hasAsyncTransaction = false then (proc, node, none)
    else if proc.isDead || proc.isFrozen then (proc, node, none)
    else
      match rkBinderFindOutdatedTransactionIlocked env t strategy node.asyncTodo with
      | none => (proc, node, none)
      | some tOutdated =>
        -- the work item is allocated before anything is unlinked
        if kzallocOk then
          ({ proc with tmpRef := proc.tmpRef + 1, outstandingTxns := proc.outstandingTxns - 1 },
            { node with asyncTodo := node.asyncTodo.erase (.transaction tOutdated) },
            some ⟨tOutdated, tOutdated.buffer⟩)
        else (proc, node, none)
  else (proc, node, none)

end ReKernelX
