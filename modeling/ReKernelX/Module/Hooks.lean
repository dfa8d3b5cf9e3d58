import ReKernelX.Module.BinderHooks
import ReKernelX.Module.LocalIn

/-!
# The hooks that report

Five hooks hand events to `rkx_send_message`. Four of them run inside the kernel's
own work for a process that may be frozen: a signal is sent to it, a binder call or
the reply to one is about to reach it, or its binder buffer is filling up. The fifth
sees the packets that arrive for monitored apps.

The hooks are independent of each other and of what they reported before. What is
common to them is said here once: a call sends at most one event, none before the
family is registered, and every event names a process that is frozen or an app that is
monitored.
-/

set_option autoImplicit false

namespace ReKernelX

open Bytes

/-! ### The code -/

/-- `SIGQUIT` -/
def sigquit : Int32 := 3

/-- `SIGABRT` -/
def sigabrt : Int32 := 6

/-- `SIGKILL` -/
def sigkill : Int32 := 9

/-- `SIGTERM` -/
def sigterm : Int32 := 15

/-- `rkx_do_send_sig_info_vh` -/
def rkxDoSendSigInfoVh (netlinkReady : Bool) (sig : Int32) (killer dst : Option HookTask) :
    List RkxEvent :=
  match dst, killer with
  | some dst, some killer =>
    if rkxIsFrozen dst.toTaskStruct ∧
        (sig = sigkill ∨ sig = sigterm ∨ sig = sigabrt ∨ sig = sigquit) then
      if netlinkReady then [.signal ⟨sig, killer.tgid, killer.uid, dst.tgid, dst.uid⟩] else []
    else []
  | _, _ => []

/-- `"SYNC_BINDER_REPLY"` -/
def syncBinderReply : CString where
  bytes := [83, 89, 78, 67, 95, 66, 73, 78, 68, 69, 82, 95, 82, 69, 80, 76, 89]
  nul_free := by decide

/-- `"FREE_BUFFER_FULL"` -/
def freeBufferFull : CString where
  bytes := [70, 82, 69, 69, 95, 66, 85, 70, 70, 69, 82, 95, 70, 85, 76, 76]
  nul_free := by decide

/-- The event of a reply. -/
def replyEvent (sender target : HookTask) : RkxBinderEvent where
  binderType := rkxBinderReply
  oneway := 0
  fromPid := sender.tgid
  fromUid := sender.uid
  targetPid := target.tgid
  targetUid := target.uid
  code := -1
  rpcName := syncBinderReply
  terminated := by decide

/-- The event of a buffer that is filling up. -/
def bufferFullEvent (sender target : HookTask) : RkxBinderEvent where
  binderType := rkxBinderFreeBufferFull
  oneway := 1
  fromPid := sender.tgid
  fromUid := sender.uid
  targetPid := target.tgid
  targetUid := target.uid
  code := -1
  rpcName := freeBufferFull
  terminated := by decide

/-- The condition of `rkx_binder_reply_vh`: the tasks of the sender and of the process
that waits, if the reply is to be reported. Unlike a call, a reply is of interest when
it goes to a system process. -/
def repliedTasks (targetProc : Option HookProc) (proc : HookProc) :
    Option (HookTask × HookTask) := do
  let targetProc ← targetProc
  let target ← targetProc.tsk
  let sender ← proc.tsk
  if target.uid ≤ rkxMaxSystemUid ∧ proc.pid ≠ targetProc.pid ∧
      rkxIsFrozen target.toTaskStruct then
    return (sender, target)
  else none

/-- `rkx_binder_reply_vh` -/
def rkxBinderReplyVh (netlinkReady : Bool) (targetProc : Option HookProc) (proc : HookProc) :
    List RkxEvent :=
  match repliedTasks targetProc proc with
  | some (sender, target) => if netlinkReady then [.binder (replyEvent sender target)] else []
  | none => []

/-- What the hook reads of a `struct binder_alloc`: the space that is left for one-way
calls, and the task that `find_task_by_vpid` finds for its process. -/
structure HookAlloc where
  freeAsyncSpace : UInt64
  task : Option HookTask

/-- The space is running out, for three buffers of this size or in general. The product
is one of `size_t`. -/
def asyncSpaceLow (sizeofBuffer size freeAsyncSpace : UInt64) : Bool :=
  decide (freeAsyncSpace < 3 * (size + sizeofBuffer) ∨ freeAsyncSpace < rkxWarnAheadSpace)

/-- `rkx_binder_alloc_new_buf_locked_vh`, with the size of a `struct binder_buffer`. -/
def rkxBinderAllocNewBufLockedVh (netlinkReady : Bool) (sizeofBuffer : UInt64)
    (current : HookTask) (size : UInt64) (alloc : HookAlloc) (isAsync : Int32) : List RkxEvent :=
  if isAsync ≠ 0 ∧ asyncSpaceLow sizeofBuffer size alloc.freeAsyncSpace then
    match alloc.task with
    | some p =>
      if rkxIsFrozen p.toTaskStruct then
        if netlinkReady then [.binder (bufferFullEvent current p)] else []
      else []
    | none => []
  else []

/-! ### A call of any hook -/

/-- What the hooks depend on besides their arguments. -/
structure ModuleEnv extends NfEnv where
  sizeofBuffer : UInt64

/-- A call of one of the hooks. What a hook finds out about the world while it runs is
part of the call: the tasks, how the copy of the sender's parcel turns out, what is in
the packet. -/
inductive HookCall
  | sendSigInfo (sig : Int32) (killer dst : Option HookTask)
  | binderReply (targetProc : Option HookProc) (proc : HookProc)
  | binderAlloc (current : HookTask) (size : UInt64) (alloc : HookAlloc) (isAsync : Int32)
  | binderTrans (targetProc : Option HookProc) (proc : HookProc) (tr : BinderTransactionData)
      (userCopy : UserCopy)
  | localIn (skb : Option SkBuff) (state : Option NfHookState)

/-- The events a call hands to `rkx_send_message`. -/
def HookCall.events (env : ModuleEnv) : HookCall → List RkxEvent
  | .sendSigInfo sig killer dst => rkxDoSendSigInfoVh env.netlinkReady sig killer dst
  | .binderReply targetProc proc => rkxBinderReplyVh env.netlinkReady targetProc proc
  | .binderAlloc current size alloc isAsync =>
    rkxBinderAllocNewBufLockedVh env.netlinkReady env.sizeofBuffer current size alloc isAsync
  | .binderTrans targetProc proc tr userCopy =>
    rkxBinderTransVh ⟨env.netlinkReady, userCopy⟩ targetProc proc tr
  | .localIn skb state => (rkxNfLocalIn env.toNfEnv skb state).2

/-! ### What is reported -/

/-- The calls that are worth a report, and the report of each. -/
inductive HookCall.Noteworthy (env : ModuleEnv) : HookCall → RkxEvent → Prop
  /-- A signal that ends a frozen process. -/
  | signalled {sig : Int32} {killer dst : HookTask} (frozen : rkxIsFrozen dst.toTaskStruct = true)
      (fatal : sig = sigkill ∨ sig = sigterm ∨ sig = sigabrt ∨ sig = sigquit) :
      Noteworthy env (.sendSigInfo sig (some killer) (some dst))
        (.signal ⟨sig, killer.tgid, killer.uid, dst.tgid, dst.uid⟩)
  /-- A reply to a frozen system process. -/
  | replied {targetProc : Option HookProc} {proc : HookProc} {sender target : HookTask}
      (tasks : repliedTasks targetProc proc = some (sender, target)) :
      Noteworthy env (.binderReply targetProc proc) (.binder (replyEvent sender target))
  /-- A one-way call that a frozen process has little space left for. -/
  | filling {current p : HookTask} {size freeAsyncSpace : UInt64} {isAsync : Int32}
      (async : isAsync ≠ 0) (low : asyncSpaceLow env.sizeofBuffer size freeAsyncSpace = true)
      (frozen : rkxIsFrozen p.toTaskStruct = true) :
      Noteworthy env (.binderAlloc current size ⟨freeAsyncSpace, some p⟩ isAsync)
        (.binder (bufferFullEvent current p))
  /-- A synchronous call of a frozen app. -/
  | called {targetProc : Option HookProc} {proc : HookProc} {tr : BinderTransactionData}
      {userCopy : UserCopy} {sender target : HookTask} (sync : tr.flags &&& tfOneWay = 0)
      (tasks : reportedTasks targetProc proc = some (sender, target)) :
      Noteworthy env (.binderTrans targetProc proc tr userCopy)
        (.binder (syncEvent sender target))
  /-- A one-way call of a frozen app whose parcel can be copied. -/
  | calledOneWay {targetProc : Option HookProc} {proc : HookProc} {tr : BinderTransactionData}
      {userCopy : UserCopy} {sender target : HookTask} (oneWay : tr.flags &&& tfOneWay ≠ 0)
      (copied : userCopy.Succeeds tr.dataSize)
      (tasks : reportedTasks targetProc proc = some (sender, target)) :
      Noteworthy env (.binderTrans targetProc proc tr userCopy)
        (.binder (asyncEvent sender target tr (tokenName tr.buffer tr.dataSize)))
  /-- A segment for a monitored app that carries data or opens or ends a connection. -/
  | received {skb : SkBuff} {state : NfHookState} {uid : UInt32}
      (inspected : inspectedUid env.toNfEnv skb state = some uid)
      (parsed : ¬ (parseTcp env.ipv6 skb).rc < 0) :
      Noteworthy env (.localIn (some skb) (some state))
        (.network ⟨(parseTcp env.ipv6 skb).proto.getD 0, uid,
          (parseTcp env.ipv6 skb).dataLen.getD 0⟩)

/-- A list holds what a call sends: its report, if it is worth one and netlink is ready. -/
structure HookCall.Sends (env : ModuleEnv) (call : HookCall) (events : List RkxEvent) : Prop where
  mem_iff : ∀ event, event ∈ events ↔ env.netlinkReady = true ∧ call.Noteworthy env event
  atMostOne : events.length ≤ 1

variable {env : ModuleEnv} {call : HookCall} {event : RkxEvent}

theorem HookCall.Noteworthy.unique {event' : RkxEvent} (h : call.Noteworthy env event)
    (h' : call.Noteworthy env event') : event = event' := by
  cases h with
  | signalled frozen fatal =>
    cases h' with
    | signalled frozen' fatal' => rfl
  | replied tasks =>
    cases h' with
    | replied tasks' =>
      obtain ⟨rfl, rfl⟩ := Prod.mk.inj (Option.some.inj (tasks.symm.trans tasks'))
      rfl
  | filling async low frozen =>
    cases h' with
    | filling async' low' frozen' => rfl
  | called sync tasks =>
    cases h' with
    | called sync' tasks' =>
      obtain ⟨rfl, rfl⟩ := Prod.mk.inj (Option.some.inj (tasks.symm.trans tasks'))
      rfl
    | calledOneWay oneWay copied tasks' => exact absurd sync oneWay
  | calledOneWay oneWay copied tasks =>
    cases h' with
    | called sync tasks' => exact absurd sync oneWay
    | calledOneWay oneWay' copied' tasks' =>
      obtain ⟨rfl, rfl⟩ := Prod.mk.inj (Option.some.inj (tasks.symm.trans tasks'))
      rfl
  | received inspected parsed =>
    cases h' with
    | received inspected' parsed' =>
      obtain rfl := Option.some.inj (inspected.symm.trans inspected')
      rfl

/-- A call of no interest sends nothing, whether netlink is ready or not. -/
theorem HookCall.sends_nil (quiet : ∀ event, ¬ call.Noteworthy env event) : call.Sends env [] where
  mem_iff event := iff_of_false List.not_mem_nil fun h => quiet event h.2
  atMostOne := Nat.zero_le 1

/-- A call worth a report sends it if netlink is ready. -/
theorem HookCall.sends_report (noteworthy : call.Noteworthy env event) :
    call.Sends env (if env.netlinkReady then [event] else []) := by
  cases hready : env.netlinkReady with
  | false =>
    refine ⟨fun event' => iff_of_false List.not_mem_nil fun h => ?_, Nat.zero_le 1⟩
    exact Bool.false_ne_true (hready.symm.trans h.1)
  | true =>
    refine ⟨fun event' => ?_, le_refl 1⟩
    rw [if_pos rfl, List.mem_singleton]
    constructor
    · intro heq
      rw [heq]
      exact ⟨hready, noteworthy⟩
    · intro h
      exact h.2.unique noteworthy

theorem sends_sendSigInfo (sig : Int32) (killer dst : Option HookTask) :
    (HookCall.sendSigInfo sig killer dst).Sends env
      (rkxDoSendSigInfoVh env.netlinkReady sig killer dst) := by
  unfold rkxDoSendSigInfoVh
  split
  · next dst killer =>
    by_cases hcond : rkxIsFrozen dst.toTaskStruct ∧
        (sig = sigkill ∨ sig = sigterm ∨ sig = sigabrt ∨ sig = sigquit)
    · rw [if_pos hcond]
      exact HookCall.sends_report (.signalled hcond.1 hcond.2)
    · rw [if_neg hcond]
      refine HookCall.sends_nil fun event hnote => ?_
      cases hnote with
      | signalled frozen fatal => exact hcond ⟨frozen, fatal⟩
  · next hnone =>
    refine HookCall.sends_nil fun event hnote => ?_
    cases hnote with
    | signalled frozen fatal => exact hnone _ _ rfl rfl

theorem sends_binderReply (targetProc : Option HookProc) (proc : HookProc) :
    (HookCall.binderReply targetProc proc).Sends env
      (rkxBinderReplyVh env.netlinkReady targetProc proc) := by
  unfold rkxBinderReplyVh
  split
  · next sender target htasks => exact HookCall.sends_report (.replied htasks)
  · next hnone =>
    refine HookCall.sends_nil fun event hnote => ?_
    cases hnote with
    | replied tasks => exact absurd (hnone.symm.trans tasks) (Option.some_ne_none _).symm

theorem sends_binderAlloc (current : HookTask) (size : UInt64) (alloc : HookAlloc)
    (isAsync : Int32) :
    (HookCall.binderAlloc current size alloc isAsync).Sends env
      (rkxBinderAllocNewBufLockedVh env.netlinkReady env.sizeofBuffer current size alloc
        isAsync) := by
  obtain ⟨freeAsyncSpace, task⟩ := alloc
  unfold rkxBinderAllocNewBufLockedVh
  by_cases hcond : isAsync ≠ 0 ∧ asyncSpaceLow env.sizeofBuffer size freeAsyncSpace
  · rw [if_pos hcond]
    cases task with
    | none =>
      refine HookCall.sends_nil fun event hnote => ?_
      cases hnote
    | some p =>
      by_cases hfrozen : rkxIsFrozen p.toTaskStruct
      · simp only [if_pos hfrozen]
        exact HookCall.sends_report (.filling hcond.1 hcond.2 hfrozen)
      · simp only [if_neg hfrozen]
        refine HookCall.sends_nil fun event hnote => ?_
        cases hnote with
        | filling async low frozen => exact hfrozen frozen
  · rw [if_neg hcond]
    refine HookCall.sends_nil fun event hnote => ?_
    cases hnote with
    | filling async low frozen => exact hcond ⟨async, low⟩

theorem sends_binderTrans (targetProc : Option HookProc) (proc : HookProc)
    (tr : BinderTransactionData) (userCopy : UserCopy) :
    (HookCall.binderTrans targetProc proc tr userCopy).Sends env
      (rkxBinderTransVh ⟨env.netlinkReady, userCopy⟩ targetProc proc tr) := by
  cases htasks : reportedTasks targetProc proc with
  | none =>
    rw [reports_nothing_of_none htasks]
    refine HookCall.sends_nil fun event hnote => ?_
    cases hnote with
    | called sync tasks => exact absurd (htasks.symm.trans tasks) (Option.some_ne_none _).symm
    | calledOneWay oneWay copied tasks =>
      exact absurd (htasks.symm.trans tasks) (Option.some_ne_none _).symm
  | some tasks =>
    obtain ⟨sender, target⟩ := tasks
    -- the two halves of the hook exclude each other
    by_cases sync : tr.flags &&& tfOneWay = 0
    · rw [rkxBinderTransVh_sync sync, htasks]
      exact HookCall.sends_report (.called sync htasks)
    · by_cases hcopied : userCopy.Succeeds tr.dataSize
      · rw [rkxBinderTransVh_oneWay sync, htasks]
        simp only [hcopied, true_and]
        exact HookCall.sends_report (.calledOneWay sync hcopied htasks)
      · rw [reports_nothing_of_not_copied sync hcopied]
        refine HookCall.sends_nil fun event hnote => ?_
        cases hnote with
        | called sync' tasks => exact sync sync'
        | calledOneWay oneWay copied tasks => exact hcopied copied

theorem sends_localIn (skb : Option SkBuff) (state : Option NfHookState) :
    (HookCall.localIn skb state).Sends env (rkxNfLocalIn env.toNfEnv skb state).2 := by
  unfold rkxNfLocalIn
  cases skb with
  | none =>
    refine HookCall.sends_nil fun event hnote => ?_
    cases hnote
  | some skb =>
    cases state with
    | none =>
      refine HookCall.sends_nil fun event hnote => ?_
      cases hnote
    | some state =>
      simp only [Option.bind_some]
      cases huid : inspectedUid env.toNfEnv skb state with
      | none =>
        refine HookCall.sends_nil fun event hnote => ?_
        cases hnote with
        | received inspected parsed =>
          exact absurd (huid.symm.trans inspected) (Option.some_ne_none _).symm
      | some uid =>
        simp only [Option.map_some, Option.getD_some, reportPacket]
        by_cases hparse : (parseTcp env.ipv6 skb).rc < 0
        · rw [if_pos hparse]
          refine HookCall.sends_nil fun event hnote => ?_
          cases hnote with
          | received inspected parsed => exact parsed hparse
        · rw [if_neg hparse]
          exact HookCall.sends_report (.received huid hparse)

/-- What each hook does with a call. -/
theorem HookCall.sends_events (env : ModuleEnv) (call : HookCall) :
    call.Sends env (call.events env) := by
  cases call with
  | sendSigInfo sig killer dst => exact sends_sendSigInfo sig killer dst
  | binderReply targetProc proc => exact sends_binderReply targetProc proc
  | binderAlloc current size alloc isAsync => exact sends_binderAlloc current size alloc isAsync
  | binderTrans targetProc proc tr userCopy => exact sends_binderTrans targetProc proc tr userCopy
  | localIn skb state => exact sends_localIn skb state

theorem HookCall.mem_events_iff :
    event ∈ call.events env ↔ env.netlinkReady = true ∧ call.Noteworthy env event :=
  (call.sends_events env).mem_iff event

theorem HookCall.events_cases (env : ModuleEnv) (call : HookCall) :
    call.events env = [] ∨ ∃ event, call.events env = [event] ∧ env.netlinkReady = true ∧
      call.Noteworthy env event := by
  cases hevents : call.events env with
  | nil => exact Or.inl rfl
  | cons event rest =>
    have hlength := (call.sends_events env).atMostOne
    rw [hevents, List.length_cons] at hlength
    obtain rfl := List.length_eq_zero_iff.mp (show rest.length = 0 by omega)
    have hmem : event ∈ call.events env := by
      rw [hevents]
      exact List.mem_cons_self
    exact Or.inr ⟨event, rfl, mem_events_iff.mp hmem⟩

/-! ### Whom a report is about -/

/-- The process on whose behalf a hook runs, if the hook looks at one. -/
def HookCall.subject : HookCall → Option HookTask
  | .sendSigInfo _ _ dst => dst
  | .binderReply targetProc _ => targetProc.bind HookProc.tsk
  | .binderAlloc _ _ alloc _ => alloc.task
  | .binderTrans targetProc _ _ _ => targetProc.bind HookProc.tsk
  | .localIn _ _ => none

/-- The process an event names: the target of a call or of a signal. -/
def RkxEvent.subject : RkxEvent → Option (Int32 × UInt32)
  | .binder b => some (b.targetPid, b.targetUid)
  | .signal s => some (s.dstPid, s.dstUid)
  | .network _ => none
  | .other _ => none

/-- An event is about a frozen process, or about an app in a set of user ids. -/
inductive RkxEvent.Grounded (monitored : Set UInt32) (call : HookCall) : RkxEvent → Prop
  | frozen {event : RkxEvent} {task : HookTask} (subject : call.subject = some task)
      (frozen : rkxIsFrozen task.toTaskStruct = true)
      (named : event.subject = some (task.tgid, task.uid)) : Grounded monitored call event
  | packet {n : RkxNetworkEvent} (app : rkxMinAppUid ≤ n.targetUid)
      (mem : n.targetUid ∈ monitored) : Grounded monitored call (.network n)

theorem subject_of_repliedTasks {targetProc : Option HookProc} {proc : HookProc}
    {sender target : HookTask} (tasks : repliedTasks targetProc proc = some (sender, target)) :
    targetProc.bind HookProc.tsk = some target ∧ rkxIsFrozen target.toTaskStruct = true := by
  simp only [repliedTasks, Option.bind_eq_bind, Option.bind_eq_some_iff] at tasks
  obtain ⟨process, rfl, task, htask, task', -, hif⟩ := tasks
  split_ifs at hif with hcond
  simp only [pure, Option.some.injEq, Prod.mk.injEq] at hif
  obtain ⟨-, rfl⟩ := hif
  exact ⟨htask, hcond.2.2⟩

theorem subject_of_reportedTasks {targetProc : Option HookProc} {proc : HookProc}
    {sender target : HookTask} (tasks : reportedTasks targetProc proc = some (sender, target)) :
    targetProc.bind HookProc.tsk = some target ∧ rkxIsFrozen target.toTaskStruct = true := by
  obtain ⟨call, -⟩ := reportedTasks_eq_some_iff.mp tasks
  obtain ⟨process, rfl, htask, -⟩ := call.targetTask
  exact ⟨htask, call.frozen⟩

theorem inspectedUid_eq_some {nf : NfEnv} {skb : SkBuff} {state : NfHookState} {uid : UInt32}
    (inspected : inspectedUid nf skb state = some uid) :
    rkxMinAppUid ≤ uid ∧ rkxNetUidMonitoredRcu nf.hash nf.netUid uid = true := by
  unfold inspectedUid at inspected
  split_ifs at inspected with hempty hstate
  obtain ⟨sk, -, hsk⟩ := Option.bind_eq_some_iff.mp inspected
  dsimp only at hsk
  split_ifs at hsk with hfull hsystem hother
  obtain rfl := Option.some.inj hsk
  exact ⟨UInt32.not_lt.mp hsystem, Bool.eq_true_of_not_eq_false hother⟩

/-- Every event is about a frozen process or a monitored app. -/
theorem HookCall.Noteworthy.grounded (h : call.Noteworthy env event) :
    event.Grounded {uid | rkxNetUidMonitoredRcu env.hash env.netUid uid = true} call := by
  cases h with
  | signalled frozen fatal => exact .frozen rfl frozen rfl
  | replied tasks =>
    obtain ⟨hsubject, hfrozen⟩ := subject_of_repliedTasks tasks
    exact .frozen hsubject hfrozen rfl
  | filling async low frozen => exact .frozen rfl frozen rfl
  | called sync tasks =>
    obtain ⟨hsubject, hfrozen⟩ := subject_of_reportedTasks tasks
    exact .frozen hsubject hfrozen rfl
  | calledOneWay oneWay copied tasks =>
    obtain ⟨hsubject, hfrozen⟩ := subject_of_reportedTasks tasks
    exact .frozen hsubject hfrozen rfl
  | received inspected parsed =>
    obtain ⟨happ, hmonitored⟩ := inspectedUid_eq_some inspected
    exact .packet happ hmonitored

end ReKernelX
