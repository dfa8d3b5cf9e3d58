import ReKernelX.Module.Genl
import ReKernelX.Module.Transaction

/-!
# Reporting binder calls to frozen apps

`rkx_binder_trans_vh` runs for every transaction before it is sent. When the
target is a frozen app in another process, it reports the call. For a one-way
call the report carries the interface name, which the hook takes out of the
sender's parcel: sixteen header bytes, then UTF-16 units, of each of which it
keeps the first byte. It stops at a zero byte, at the end of the parcel, or at
the end of the 140 bytes it copies.
-/

set_option autoImplicit false

namespace ReKernelX

open Bytes

/-! ### The code -/

/-- What the hook reads of a task. -/
structure HookTask extends TaskStruct where
  tgid : Int32
  uid : UInt32

/-- What the hook reads of a `struct binder_proc`. -/
structure HookProc where
  pid : Int32
  tsk : Option HookTask

/-- `struct binder_transaction_data`: `buffer` is the memory of the sender that
`data.ptr.buffer` points to, of whatever size. -/
structure BinderTransactionData where
  flags : UInt32
  code : UInt32
  dataSize : ℕ
  buffer : ℕ → UInt8

/-- How a copy from the sender's memory turns out. That is not a property of the memory
alone: pages that are not resident fail the copy too where faults are disabled. -/
structure UserCopy where
  /-- the answer of `access_ok`, which is asked from 6.1 on; before that, true -/
  accessOk : Bool
  /-- no byte fails; it does not matter when there are none -/
  bytesOk : Bool

/-- Without bytes to copy, only `access_ok` can fail a copy. -/
def UserCopy.Succeeds (copy : UserCopy) (size : ℕ) : Prop :=
  copy.accessOk = true ∧ (size = 0 ∨ copy.bytesOk = true)

instance (copy : UserCopy) (size : ℕ) : Decidable (copy.Succeeds size) := by
  unfold UserCopy.Succeeds
  infer_instance

/-- What is outside the hook: whether a client is connected, and how the copy of the
sender's parcel turns out. -/
structure HookEnv where
  netlinkReady : Bool
  userCopy : UserCopy

/-- `rk_copy_from_user`: what it copies, unless it fails. -/
def rkCopyFromUser (env : HookEnv) (src : ℕ → UInt8) (size : ℕ) : Option (List UInt8) :=
  if env.userCopy.Succeeds size then some ((List.range size).map src) else none

/-- The condition that both halves of the hook test: the tasks of sender and target,
if the call is to be reported. -/
def reportedTasks (targetProc : Option HookProc) (proc : HookProc) :
    Option (HookTask × HookTask) := do
  let targetProc ← targetProc
  let target ← targetProc.tsk
  let sender ← proc.tsk
  if target.uid > rkxMinAppUid ∧ proc.pid ≠ targetProc.pid ∧ rkxIsFrozen target.toTaskStruct then
    return (sender, target)
  else none

/-- The array `rpc_name` after the loop over `buf_data`. It has been cleared, and the
loop stores into it until it is full. -/
def rpcNameArray (bufData : List UInt8) (bufDataSize : ℕ) : List UInt8 :=
  if bufDataSize > rkxParcelOffset then
    let stored := tokenLoop bufData bufDataSize rkxInterfacetokenBuffSize (rkxParcelOffset + 1)
      rkxParcelOffset
    let rpcName := stored ++ List.replicate (rkxInterfacetokenBuffSize - stored.length) 0
    if stored.length = rkxInterfacetokenBuffSize then rpcName.set (stored.length - 1) 0
    else rpcName
  else List.replicate rkxInterfacetokenBuffSize 0

/-- `"SYNC_BINDER"` -/
def syncBinder : CString where
  bytes := [83, 89, 78, 67, 95, 66, 73, 78, 68, 69, 82]
  nul_free := by decide

theorem strlen_strscpy_lt (s : CString) :
    (s.strscpy rkxInterfacetokenBuffSize).strlen < rkxInterfacetokenBuffSize := by
  rw [CString.strlen, CString.strscpy, List.length_take, rkxInterfacetokenBuffSize]
  omega

/-- The event of a synchronous call. -/
def syncEvent (sender target : HookTask) : RkxBinderEvent where
  binderType := rkxBinderTransaction
  oneway := 0
  fromPid := sender.tgid
  fromUid := sender.uid
  targetPid := target.tgid
  targetUid := target.uid
  code := -1
  rpcName := syncBinder
  terminated := by decide

/-- The event of a one-way call with the name in `rpcName`. -/
def asyncEvent (sender target : HookTask) (tr : BinderTransactionData) (rpcName : CString) :
    RkxBinderEvent where
  binderType := rkxBinderTransaction
  oneway := 1
  fromPid := sender.tgid
  fromUid := sender.uid
  targetPid := target.tgid
  targetUid := target.uid
  code := tr.code.toInt32
  rpcName := rpcName.strscpy rkxInterfacetokenBuffSize
  terminated := strlen_strscpy_lt rpcName

/-- The first half of `rkx_binder_trans_vh`. -/
def reportSync (env : HookEnv) (targetProc : Option HookProc) (proc : HookProc)
    (tr : BinderTransactionData) : List RkxEvent :=
  if tr.flags &&& tfOneWay = 0 then
    match reportedTasks targetProc proc with
    | some (sender, target) =>
      if env.netlinkReady then [.binder (syncEvent sender target)] else []
    | none => []
  else []

/-- The second half of `rkx_binder_trans_vh`. -/
def reportAsync (env : HookEnv) (targetProc : Option HookProc) (proc : HookProc)
    (tr : BinderTransactionData) : List RkxEvent :=
  if tr.flags &&& tfOneWay ≠ 0 then
    match reportedTasks targetProc proc with
    | some (sender, target) =>
      let bufDataSize := min tr.dataSize rkxInterfacetokenBuffSize
      match rkCopyFromUser env tr.buffer bufDataSize with
      | none => []
      | some bufData =>
        let rpcName := CString.ofArray (rpcNameArray bufData bufDataSize)
        if env.netlinkReady then [.binder (asyncEvent sender target tr rpcName)] else []
    | none => []
  else []

/-- `rkx_binder_trans_vh`: the events it hands to `rkx_send_message`. -/
def rkxBinderTransVh (env : HookEnv) (targetProc : Option HookProc) (proc : HookProc)
    (tr : BinderTransactionData) : List RkxEvent :=
  reportSync env targetProc proc tr ++ reportAsync env targetProc proc tr

/-! ### The name in the report -/

/-- The first bytes of the units behind the header, as far as both bytes of the unit
are among the bytes copied, and up to the first that is zero. -/
def tokenBytes (buffer : ℕ → UInt8) (dataSize : ℕ) : List UInt8 :=
  ((List.range ((min dataSize rkxInterfacetokenBuffSize - rkxParcelOffset) / 2)).map
    fun i => buffer (rkxParcelOffset + 2 * i)).takeWhile (· ≠ 0)

/-- What the loop stores, on bytes copied from `src`. -/
theorem tokenLoop_copied (src : ℕ → UInt8) (size room p : ℕ) :
    tokenLoop ((List.range size).map src) size room (p + 1) p =
      ((List.range (min room ((size - p) / 2))).map fun i => src (p + 2 * i)).takeWhile
        (· ≠ 0) := by
  induction room generalizing p with
  | zero => rw [Nat.zero_min]; rfl
  | succ room ih =>
    rw [tokenLoop]
    by_cases hcopied : p + 1 < size
    · have hread : ((List.range size).map src).getD p 0 = src p := by
        simp [List.getD_eq_getElem?_getD, List.getElem?_range (show p < size by omega)]
      have hcount : min (room + 1) ((size - p) / 2) = min room ((size - (p + 2)) / 2) + 1 := by
        omega
      rw [hread, hcount, List.range_succ_eq_map, List.map_cons, List.map_map]
      by_cases hzero : src p = 0
      · simp [hzero]
      · -- one unit further on, the indices are shifted by one
        have hshift : ((fun i => src (p + 2 * i)) ∘ Nat.succ) = fun i => src (p + 2 + 2 * i) := by
          funext i
          exact congrArg src (by simp only [Nat.succ_eq_add_one]; omega)
        rw [if_pos ⟨hcopied, hzero⟩, ih, hshift, List.takeWhile_cons_of_pos (by simpa using hzero)]
        rfl
    · have hcount : min (room + 1) ((size - p) / 2) = 0 := by omega
      rw [if_neg fun h => hcopied h.1, hcount]
      rfl

theorem length_tokenBytes_le (buffer : ℕ → UInt8) (dataSize : ℕ) :
    (tokenBytes buffer dataSize).length ≤ 62 := by
  have hcount : (min dataSize rkxInterfacetokenBuffSize - rkxParcelOffset) / 2 ≤ 62 := by
    rw [rkxInterfacetokenBuffSize, rkxParcelOffset]
    omega
  refine ((List.takeWhile_sublist _).length_le).trans ?_
  rw [List.length_map, List.length_range]
  exact hcount

theorem zero_notMem_tokenBytes (buffer : ℕ → UInt8) (dataSize : ℕ) :
    0 ∉ tokenBytes buffer dataSize := by
  intro hzero
  simpa using List.mem_takeWhile_imp hzero

/-- With room for 62 bytes or more, the loop stores the name of the parcel. -/
theorem tokenLoop_parcel (buffer : ℕ → UInt8) (dataSize : ℕ) {room : ℕ} (hroom : 62 ≤ room) :
    tokenLoop ((List.range (min dataSize rkxInterfacetokenBuffSize)).map buffer)
      (min dataSize rkxInterfacetokenBuffSize) room (rkxParcelOffset + 1) rkxParcelOffset =
        tokenBytes buffer dataSize := by
  have hcount : (min dataSize rkxInterfacetokenBuffSize - rkxParcelOffset) / 2 ≤ room := by
    rw [rkxInterfacetokenBuffSize, rkxParcelOffset]
    omega
  rw [tokenLoop_copied, Nat.min_eq_right hcount, tokenBytes]

/-- The name that a parcel carries for the hook. -/
def tokenName (buffer : ℕ → UInt8) (dataSize : ℕ) : CString :=
  ⟨tokenBytes buffer dataSize, zero_notMem_tokenBytes buffer dataSize⟩

/-- A parcel without a unit behind its header has no name. -/
theorem tokenBytes_of_le {buffer : ℕ → UInt8} {dataSize : ℕ}
    (short : min dataSize rkxInterfacetokenBuffSize ≤ rkxParcelOffset) :
    tokenBytes buffer dataSize = [] := by
  rw [tokenBytes, Nat.sub_eq_zero_of_le short]
  rfl

/-- The array ends up with the name: the loop never fills it. -/
theorem ofArray_rpcNameArray (buffer : ℕ → UInt8) (dataSize : ℕ) :
    CString.ofArray (rpcNameArray
      ((List.range (min dataSize rkxInterfacetokenBuffSize)).map buffer)
      (min dataSize rkxInterfacetokenBuffSize)) = tokenName buffer dataSize := by
  unfold rpcNameArray
  by_cases hlong : min dataSize rkxInterfacetokenBuffSize > rkxParcelOffset
  · have hstored := tokenLoop_parcel buffer dataSize
      (show 62 ≤ rkxInterfacetokenBuffSize by decide)
    have hlength : (tokenBytes buffer dataSize).length ≤ 62 := length_tokenBytes_le buffer dataSize
    -- at least one of the cleared bytes is left to terminate the name
    obtain ⟨left, hleft⟩ : ∃ left,
        rkxInterfacetokenBuffSize - (tokenBytes buffer dataSize).length = left + 1 :=
      ⟨139 - (tokenBytes buffer dataSize).length, by rw [rkxInterfacetokenBuffSize]; omega⟩
    have hnotFull : (tokenBytes buffer dataSize).length ≠ rkxInterfacetokenBuffSize := by
      rw [rkxInterfacetokenBuffSize]
      omega
    simp only [if_pos hlong, hstored, if_neg hnotFull, hleft, List.replicate_succ]
    exact (tokenName buffer dataSize).ofArray_append_zero (List.replicate left 0)
  · rw [if_neg hlong]
    apply CString.ext_bytes
    exact (tokenBytes_of_le (Nat.le_of_not_lt hlong)).symm

variable {env : HookEnv} {targetProc : Option HookProc} {proc : HookProc}
  {tr : BinderTransactionData} {event : RkxEvent}

/-- The copy of at most 140 bytes turns out as one of the whole parcel would. -/
theorem UserCopy.succeeds_min_iff {copy : UserCopy} {size : ℕ} :
    copy.Succeeds (min size rkxInterfacetokenBuffSize) ↔ copy.Succeeds size := by
  have hzero : min size rkxInterfacetokenBuffSize = 0 ↔ size = 0 := by
    rw [rkxInterfacetokenBuffSize]
    omega
  rw [UserCopy.Succeeds, UserCopy.Succeeds, hzero]

/-- What is reported of a one-way call. -/
theorem rkxBinderTransVh_oneWay (oneWay : tr.flags &&& tfOneWay ≠ 0) :
    rkxBinderTransVh env targetProc proc tr =
      match reportedTasks targetProc proc with
      | some (sender, target) =>
        if env.userCopy.Succeeds tr.dataSize ∧ env.netlinkReady then
          [.binder (asyncEvent sender target tr (tokenName tr.buffer tr.dataSize))]
        else []
      | none => [] := by
  rw [rkxBinderTransVh, reportSync, if_neg oneWay, List.nil_append, reportAsync, if_pos oneWay]
  cases reportedTasks targetProc proc with
  | none => rfl
  | some tasks =>
    by_cases hcopied : env.userCopy.Succeeds tr.dataSize
    · simp [rkCopyFromUser, UserCopy.succeeds_min_iff, hcopied, ofArray_rpcNameArray]
    · simp [rkCopyFromUser, UserCopy.succeeds_min_iff, hcopied]

theorem reported_oneWay (oneWay : tr.flags &&& tfOneWay ≠ 0)
    (reported : event ∈ rkxBinderTransVh env targetProc proc tr) :
    ∃ sender target,
      event = .binder (asyncEvent sender target tr (tokenName tr.buffer tr.dataSize)) := by
  rw [rkxBinderTransVh_oneWay oneWay] at reported
  cases htasks : reportedTasks targetProc proc with
  | none => simp [htasks] at reported
  | some tasks =>
    rw [htasks] at reported
    refine ⟨tasks.1, tasks.2, ?_⟩
    split_ifs at reported
    · exact List.mem_singleton.mp reported
    · exact absurd reported List.not_mem_nil

theorem rpcName_asyncEvent (sender target : HookTask) (tr : BinderTransactionData) :
    (asyncEvent sender target tr (tokenName tr.buffer tr.dataSize)).rpcName =
      tokenName tr.buffer tr.dataSize := by
  apply CString.strscpy_of_lt
  have hlength := length_tokenBytes_le tr.buffer tr.dataSize
  rw [CString.strlen, rkxInterfacetokenBuffSize]
  exact lt_of_le_of_lt hlength (by omega)

/-! ### Which calls are reported -/

/-- A call to a frozen app from another process: `sender` and `target` are the tasks of
the two processes. An app is what `rkx_nf_local_in` takes for one, a user id from
`RKX_MIN_APP_UID` on. -/
structure FrozenAppCall (targetProc : Option HookProc) (proc : HookProc)
    (sender target : HookTask) : Prop where
  targetTask : ∃ process, targetProc = some process ∧ process.tsk = some target ∧
    proc.pid ≠ process.pid
  senderTask : proc.tsk = some sender
  app : rkxMinAppUid ≤ target.uid
  frozen : rkxIsFrozen target.toTaskStruct = true

/-- The hook sends one event, a transaction between the two tasks. -/
def ReportedOnce (events : List RkxEvent) (tr : BinderTransactionData)
    (sender target : HookTask) : Prop :=
  ∃ event : RkxBinderEvent, events = [.binder event] ∧
    event.binderType = rkxBinderTransaction ∧
    (event.oneway = 1 ↔ tr.flags &&& tfOneWay ≠ 0) ∧
    event.fromPid = sender.tgid ∧ event.fromUid = sender.uid ∧
    event.targetPid = target.tgid ∧ event.targetUid = target.uid

/-- Calls to frozen apps are reported once while a client is connected, and nothing
else is reported. -/
def ReportsCalls (env : HookEnv) (targetProc : Option HookProc) (proc : HookProc)
    (tr : BinderTransactionData) : Prop :=
  (∀ sender target, FrozenAppCall targetProc proc sender target → env.netlinkReady = true →
    ReportedOnce (rkxBinderTransVh env targetProc proc tr) tr sender target) ∧
  ((∀ sender target, ¬ FrozenAppCall targetProc proc sender target) ∨ env.netlinkReady = false →
    rkxBinderTransVh env targetProc proc tr = [])

variable {sender target : HookTask}

theorem FrozenAppCall.unique (call : FrozenAppCall targetProc proc sender target)
    {sender' target' : HookTask} (call' : FrozenAppCall targetProc proc sender' target') :
    sender' = sender ∧ target' = target := by
  obtain ⟨process, hproc, htask, -⟩ := call.targetTask
  obtain ⟨process', hproc', htask', -⟩ := call'.targetTask
  obtain rfl : process = process' := Option.some.inj (hproc.symm.trans hproc')
  exact ⟨Option.some.inj (call'.senderTask.symm.trans call.senderTask),
    Option.some.inj (htask'.symm.trans htask)⟩

/-- The condition in the source leaves out the first of the app ids. -/
theorem reportedTasks_eq_some_iff :
    reportedTasks targetProc proc = some (sender, target) ↔
      FrozenAppCall targetProc proc sender target ∧ target.uid ≠ rkxMinAppUid := by
  constructor
  · intro h
    simp only [reportedTasks, Option.bind_eq_bind, Option.bind_eq_some_iff] at h
    obtain ⟨process, hproc, task, htask, task', htask', hif⟩ := h
    split_ifs at hif with hcond
    · simp only [pure, Option.some.injEq, Prod.mk.injEq] at hif
      obtain ⟨rfl, rfl⟩ := hif
      obtain ⟨huid, hpid, hfrozen⟩ := hcond
      exact ⟨⟨⟨process, hproc, htask, hpid⟩, htask', UInt32.le_of_lt huid, hfrozen⟩,
        (UInt32.ne_of_lt huid).symm⟩
  · rintro ⟨⟨⟨process, rfl, htask, hpid⟩, hsender, happ, hfrozen⟩, hne⟩
    have huid : target.uid > rkxMinAppUid := UInt32.lt_of_le_of_ne happ hne.symm
    simp [reportedTasks, htask, hsender, huid, hpid, hfrozen]

/-- What is reported of a synchronous call. -/
theorem rkxBinderTransVh_sync (sync : tr.flags &&& tfOneWay = 0) :
    rkxBinderTransVh env targetProc proc tr =
      match reportedTasks targetProc proc with
      | some (sender, target) =>
        if env.netlinkReady then [.binder (syncEvent sender target)] else []
      | none => [] := by
  rw [rkxBinderTransVh, reportAsync, if_neg (not_not_intro sync), List.append_nil, reportSync,
    if_pos sync]

theorem reports_nothing_of_none (none : reportedTasks targetProc proc = none) :
    rkxBinderTransVh env targetProc proc tr = [] := by
  by_cases sync : tr.flags &&& tfOneWay = 0
  · rw [rkxBinderTransVh_sync sync, none]
  · rw [rkxBinderTransVh_oneWay sync, none]

theorem reports_nothing_of_notReady (notReady : env.netlinkReady = false) :
    rkxBinderTransVh env targetProc proc tr = [] := by
  by_cases sync : tr.flags &&& tfOneWay = 0
  · rw [rkxBinderTransVh_sync sync]
    cases reportedTasks targetProc proc <;> simp [notReady]
  · rw [rkxBinderTransVh_oneWay sync]
    cases reportedTasks targetProc proc <;> simp [notReady]

/-- A one-way call whose parcel is not copied is dropped silently. -/
theorem reports_nothing_of_not_copied (oneWay : tr.flags &&& tfOneWay ≠ 0)
    (failed : ¬ env.userCopy.Succeeds tr.dataSize) :
    rkxBinderTransVh env targetProc proc tr = [] := by
  rw [rkxBinderTransVh_oneWay oneWay]
  cases reportedTasks targetProc proc <;> simp [failed]

theorem reportedOnce_of_some (ready : env.netlinkReady = true)
    (reported : reportedTasks targetProc proc = some (sender, target))
    (copied : tr.flags &&& tfOneWay ≠ 0 → env.userCopy.Succeeds tr.dataSize) :
    ReportedOnce (rkxBinderTransVh env targetProc proc tr) tr sender target := by
  by_cases sync : tr.flags &&& tfOneWay = 0
  · refine ⟨syncEvent sender target, ?_, rfl, ?_, rfl, rfl, rfl, rfl⟩
    · rw [rkxBinderTransVh_sync sync, reported]
      exact if_pos ready
    · exact iff_of_false (by simp [syncEvent]) (not_not_intro sync)
  · refine ⟨asyncEvent sender target tr (tokenName tr.buffer tr.dataSize), ?_, rfl, ?_, rfl, rfl,
      rfl, rfl⟩
    · rw [rkxBinderTransVh_oneWay sync, reported]
      exact if_pos ⟨copied sync, ready⟩
    · exact iff_of_true rfl sync

/-- The hook reports as it should exactly when the frozen app does not have the first of
the app ids and the parcel of a one-way call, if it has bytes, can be copied. -/
theorem reportsCalls_iff (env : HookEnv) (targetProc : Option HookProc) (proc : HookProc)
    (tr : BinderTransactionData) :
    ReportsCalls env targetProc proc tr ↔
      ∀ sender target, FrozenAppCall targetProc proc sender target → env.netlinkReady = true →
        target.uid ≠ rkxMinAppUid ∧ (tr.flags &&& tfOneWay ≠ 0 →
          env.userCopy.accessOk = true ∧ (tr.dataSize = 0 ∨ env.userCopy.bytesOk = true)) := by
  constructor
  · rintro ⟨honce, -⟩ sender target call ready
    obtain ⟨event, hevent, -⟩ := honce sender target call ready
    have hsent : rkxBinderTransVh env targetProc proc tr ≠ [] := by
      rw [hevent]
      exact List.cons_ne_nil _ _
    constructor
    · cases htasks : reportedTasks targetProc proc with
      | none => exact absurd (reports_nothing_of_none htasks) hsent
      | some tasks =>
        obtain ⟨call', hne⟩ := reportedTasks_eq_some_iff.mp htasks
        rwa [(call.unique call').2] at hne
    · intro oneWay
      by_contra failed
      exact hsent (reports_nothing_of_not_copied oneWay failed)
  · intro hholds
    refine ⟨fun sender target call ready => ?_, ?_⟩
    · obtain ⟨hne, copied⟩ := hholds sender target call ready
      exact reportedOnce_of_some ready (reportedTasks_eq_some_iff.mpr ⟨call, hne⟩) copied
    · rintro (hother | notReady)
      · apply reports_nothing_of_none
        rw [Option.eq_none_iff_forall_ne_some]
        rintro ⟨sender, target⟩ htasks
        exact hother sender target (reportedTasks_eq_some_iff.mp htasks).1
      · exact reports_nothing_of_notReady notReady

/-- A call with a parcel of `size` bytes, all of them zero. -/
def zeroCall (flags : UInt32) (size : ℕ) : BinderTransactionData := ⟨flags, 7, size, fun _ => 0⟩

def callerTask : HookTask := ⟨⟨false, false, none⟩, 1, 1000⟩

def calleeTask (uid : UInt32) : HookTask := ⟨⟨true, false, none⟩, 2, uid⟩

theorem frozenAppCall_callee {uid : UInt32} (app : rkxMinAppUid ≤ uid) :
    FrozenAppCall (some ⟨2, some (calleeTask uid)⟩) ⟨1, some callerTask⟩ callerTask
      (calleeTask uid) :=
  ⟨⟨_, rfl, rfl, show (1 : Int32) ≠ 2 by decide⟩, rfl, app, rfl⟩

/-- A synchronous call to the app with id 10000 is not reported, nor is a one-way call to
another app when the 20 bytes of its parcel cannot be copied. -/
theorem calls_missing_from_reports :
    ¬ ReportsCalls ⟨true, true, true⟩ (some ⟨2, some (calleeTask 10000)⟩) ⟨1, some callerTask⟩
      (zeroCall 0 0) ∧
    ¬ ReportsCalls ⟨true, true, false⟩ (some ⟨2, some (calleeTask 10001)⟩) ⟨1, some callerTask⟩
      (zeroCall tfOneWay 20) := by
  constructor
  · rintro ⟨honce, -⟩
    obtain ⟨event, hevent, -⟩ := honce _ _ (frozenAppCall_callee (by decide)) rfl
    have hsilent : rkxBinderTransVh ⟨true, true, true⟩ (some ⟨2, some (calleeTask 10000)⟩)
        ⟨1, some callerTask⟩ (zeroCall 0 0) = [] := reports_nothing_of_none rfl
    exact absurd (hsilent.symm.trans hevent) (List.cons_ne_nil _ _).symm
  · rintro ⟨honce, -⟩
    obtain ⟨event, hevent, -⟩ := honce _ _ (frozenAppCall_callee (by decide)) rfl
    have hsilent : rkxBinderTransVh ⟨true, true, false⟩ (some ⟨2, some (calleeTask 10001)⟩)
        ⟨1, some callerTask⟩ (zeroCall tfOneWay 20) = [] :=
      reports_nothing_of_not_copied (show tfOneWay &&& tfOneWay ≠ 0 by decide)
        (show ¬ (⟨true, false⟩ : UserCopy).Succeeds 20 by decide)
    exact absurd (hsilent.symm.trans hevent) (List.cons_ne_nil _ _).symm

end ReKernelX
