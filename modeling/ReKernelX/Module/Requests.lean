import ReKernelX.Foundation.Genetlink
import ReKernelX.Module.FreeAsync
import ReKernelX.Module.Genl
import ReKernelX.Module.NetUid

/-!
# Requests to the module

The four commands of the generic netlink family. Generic netlink validates the
attributes against `rkx_genl_policy` and calls the handler of the command; a
handler checks that its attributes are there and calls the table it is for.

Whether a command worked is reported by its return value. The rule table
returns an error when an allocation fails; adding a user id does not, so
`rkx_genl_monitor_net` reports success for an id that is not monitored. That is
the only way in which a return value is wrong.
-/

set_option autoImplicit false

namespace ReKernelX

open Bytes Netlink

/-! ### The code -/

/-- `rkx_genl_policy` -/
def rkxGenlPolicy (number : ℕ) : NlaPolicy :=
  if number = rkxAEvent then .nested
  else if number = rkxAUid then .u32
  else if number = rkxAFreeAsyncStrategy then .u8
  else if number = rkxAFreeAsyncRpcName then .nulString (rkxInterfacetokenBuffSize - 1)
  else if number = rkxAFreeAsyncCode then .s32
  else .unspec

/-- `rkx_genl_family`, with the id that registration assigned. -/
def rkxGenlFamily (family : FamilyId) : GenlFamily := ⟨family.id, rkxAMax, rkxGenlPolicy⟩

/-- `info->attrs` -/
abbrev GenlInfo := AttrTable rkxGenlPolicy

/-- The tables a command can change. -/
structure RkxTables where
  netUid : RkxNetUid
  freeAsync : RkxFreeAsync

/-- `nla_get_u8` -/
def nlaGetU8 (payload : List UInt8) : UInt8 := UInt8.ofNat (ofLE (payload.take 1))

/-- `nla_get_u32` -/
def nlaGetU32 (payload : List UInt8) : UInt32 := UInt32.ofNat (ofLE (payload.take 4))

/-- `nla_get_s32` -/
def nlaGetS32 (payload : List UInt8) : Int32 := (nlaGetU32 payload).toInt32

section Code

variable (jhash : List UInt8 → UInt32) (hash : UInt32 → Fin 64)

/-- `rkx_genl_monitor_net` -/
def rkxGenlMonitorNet (info : GenlInfo) (kmallocOk : Bool) (s : RkxTables) : ℤ × RkxTables :=
  match info.payload rkxAUid with
  | some uid => (0, { s with netUid := rkxAddNetUid hash s.netUid (nlaGetU32 uid) kmallocOk })
  | none => (-einval, s)

/-- `rkx_genl_del_monitor_net` -/
def rkxGenlDelMonitorNet (info : GenlInfo) (s : RkxTables) : ℤ × RkxTables :=
  match info.payload rkxAUid with
  | some uid => (0, { s with netUid := rkxDelNetUid hash s.netUid (nlaGetU32 uid) })
  | none => (-einval, s)

/-- `rkx_genl_add_free_async` -/
def rkxGenlAddFreeAsync (info : GenlInfo) (kmallocOk : Bool) (s : RkxTables) : ℤ × RkxTables :=
  match info.payload rkxAFreeAsyncRpcName, info.payload rkxAFreeAsyncCode,
      info.payload rkxAFreeAsyncStrategy with
  | some rpcName, some code, some strategy =>
    let added := rkxAddFreeAsync jhash s.freeAsync (some (CString.ofArray rpcName))
      (nlaGetS32 code) (nlaGetU8 strategy) kmallocOk
    (added.1, { s with freeAsync := added.2 })
  | _, _, _ => (-einval, s)

/-- `rkx_genl_del_free_async` -/
def rkxGenlDelFreeAsync (info : GenlInfo) (s : RkxTables) : ℤ × RkxTables :=
  match info.payload rkxAFreeAsyncRpcName, info.payload rkxAFreeAsyncCode with
  | some rpcName, some code =>
    let deleted := rkxDelFreeAsync jhash s.freeAsync (some (CString.ofArray rpcName))
      (nlaGetS32 code)
    (deleted.1, { s with freeAsync := deleted.2 })
  | _, _ => (-einval, s)

/-- The `doit` members of `rkx_genl_ops`. -/
inductive Handler
  | monitorNet
  | delMonitorNet
  | addFreeAsync
  | delFreeAsync
  deriving DecidableEq

/-- Run a handler: its return value and the tables afterwards, given whether its
`kmalloc` would succeed. -/
def Handler.run (info : GenlInfo) (kmallocOk : Bool) (s : RkxTables) : Handler → ℤ × RkxTables
  | .monitorNet => rkxGenlMonitorNet hash info kmallocOk s
  | .delMonitorNet => rkxGenlDelMonitorNet hash info s
  | .addFreeAsync => rkxGenlAddFreeAsync jhash info kmallocOk s
  | .delFreeAsync => rkxGenlDelFreeAsync jhash info s

/-- `rkx_genl_ops` -/
def rkxGenlOps (cmd : UInt8) : Option Handler :=
  if cmd = rkxCAddMonitorNet then some .monitorNet
  else if cmd = rkxCDelMonitorNet then some .delMonitorNet
  else if cmd = rkxCAddFreeAsync then some .addFreeAsync
  else if cmd = rkxCDelFreeAsync then some .delFreeAsync
  else none

/-- What becomes of a datagram: the handler's return value, or `none` when
generic netlink refuses it, and the tables. -/
def receiveRequest (family : FamilyId) (datagram : List UInt8) (kmallocOk : Bool)
    (s : RkxTables) : Option ℤ × RkxTables :=
  match (rkxGenlFamily family).receive datagram with
  | none => (none, s)
  | some (cmd, info) =>
    match rkxGenlOps cmd with
    | none => (none, s)
    | some handler =>
      let handled := handler.run jhash hash info kmallocOk s
      (some handled.1, handled.2)

/-- A change of the tables: a command that reached its handler, or the module
emptying them. -/
inductive TableCall
  | handle (handler : Handler) (info : GenlInfo) (kmallocOk : Bool)
  | destroy

/-- The tables a call leaves behind. -/
def TableCall.run (s : RkxTables) : TableCall → RkxTables
  | .handle handler info kmallocOk => (handler.run jhash hash info kmallocOk s).2
  | .destroy => ⟨rkxDestroyNetUid s.netUid, rkxDestroyFreeAsync s.freeAsync⟩

/-- The tables after their initialisation and a sequence of calls. -/
def tablesAfter (calls : List TableCall) : RkxTables :=
  calls.foldl (TableCall.run jhash hash) ⟨rkxInitNetUid, rkxInitFreeAsync⟩

end Code

/-! ### The invariant of both tables -/

variable {jhash : List UInt8 → UInt32} {hash : UInt32 → Fin 64} {s : RkxTables}

/-- Both tables are well formed. -/
structure RkxTables.Inv (jhash : List UInt8 → UInt32) (hash : UInt32 → Fin 64) (s : RkxTables) :
    Prop where
  netUid : RkxNetUid.Inv hash s.netUid
  freeAsync : RkxFreeAsync.Inv jhash s.freeAsync

namespace RkxTables

theorem inv_init : Inv jhash hash ⟨rkxInitNetUid, rkxInitFreeAsync⟩ :=
  ⟨RkxNetUid.inv_init, RkxFreeAsync.inv_init⟩

theorem Inv.handle (inv : Inv jhash hash s) (handler : Handler) (info : GenlInfo)
    (kmallocOk : Bool) : Inv jhash hash (handler.run jhash hash info kmallocOk s).2 := by
  cases handler with
  | monitorNet =>
    rw [Handler.run, rkxGenlMonitorNet]
    split
    · exact ⟨RkxNetUid.Inv.add inv.netUid _ _, inv.freeAsync⟩
    · exact inv
  | delMonitorNet =>
    rw [Handler.run, rkxGenlDelMonitorNet]
    split
    · exact ⟨RkxNetUid.Inv.del inv.netUid _, inv.freeAsync⟩
    · exact inv
  | addFreeAsync =>
    rw [Handler.run, rkxGenlAddFreeAsync]
    split
    · exact ⟨inv.netUid, inv.freeAsync.add _ _ _ _⟩
    · exact inv
  | delFreeAsync =>
    rw [Handler.run, rkxGenlDelFreeAsync]
    split
    · exact ⟨inv.netUid, inv.freeAsync.del _ _⟩
    · exact inv

theorem Inv.call (inv : Inv jhash hash s) (call : TableCall) :
    Inv jhash hash (call.run jhash hash s) := by
  cases call with
  | handle handler info kmallocOk => exact inv.handle handler info kmallocOk
  | destroy =>
    rw [TableCall.run, RkxNetUid.rkxDestroyNetUid_eq_init, RkxFreeAsync.rkxDestroyFreeAsync_eq_init]
    exact inv_init

/-- The invariant holds after every sequence of calls. -/
theorem inv_after (calls : List TableCall) : Inv jhash hash (tablesAfter jhash hash calls) :=
  Transition.invariant_foldl (fun _ call inv => inv.call call) inv_init calls

end RkxTables

/-! ### What a return value says -/

/-- The effect each command is for. -/
def Handler.TookEffect (hash : UInt32 → Fin 64) (info : GenlInfo) (s : RkxTables) :
    Handler → Prop
  | .monitorNet => ∃ uid, info.payload rkxAUid = some uid ∧
      rkxNetUidMonitoredRcu hash s.netUid (nlaGetU32 uid) = true
  | .delMonitorNet => ∃ uid, info.payload rkxAUid = some uid ∧
      rkxNetUidMonitoredRcu hash s.netUid (nlaGetU32 uid) = false
  | .addFreeAsync => ∃ rpcName code strategy,
      info.payload rkxAFreeAsyncRpcName = some rpcName ∧
      info.payload rkxAFreeAsyncCode = some code ∧
      info.payload rkxAFreeAsyncStrategy = some strategy ∧
      s.freeAsync.contents.lookup (CString.ofArray rpcName, nlaGetS32 code) =
        some (nlaGetU8 strategy)
  | .delFreeAsync => ∃ rpcName code,
      info.payload rkxAFreeAsyncRpcName = some rpcName ∧
      info.payload rkxAFreeAsyncCode = some code ∧
      (CString.ofArray rpcName, nlaGetS32 code) ∉ s.freeAsync.contents

/-- Success means that the command took effect, an error that nothing changed. -/
def Handler.Truthful (jhash : List UInt8 → UInt32) (hash : UInt32 → Fin 64) (info : GenlInfo)
    (kmallocOk : Bool) (s : RkxTables) (handler : Handler) : Prop :=
  ((handler.run jhash hash info kmallocOk s).1 = 0 →
    handler.TookEffect hash info (handler.run jhash hash info kmallocOk s).2) ∧
  ((handler.run jhash hash info kmallocOk s).1 ≠ 0 →
    (handler.run jhash hash info kmallocOk s).2 = s)

variable {info : GenlInfo} {kmallocOk : Bool}

theorem truthful_monitorNet_iff :
    Handler.monitorNet.Truthful jhash hash info kmallocOk s ↔
      ¬ (kmallocOk = false ∧ ∃ uid, info.payload rkxAUid = some uid ∧
        rkxNetUidMonitoredRcu hash s.netUid (nlaGetU32 uid) = false) := by
  rw [Handler.Truthful, Handler.run, rkxGenlMonitorNet]
  cases huid : info.payload rkxAUid with
  | none => simp [einval]
  | some uid =>
    simp only [Handler.TookEffect, huid, Option.some.injEq, exists_eq_left',
      RkxNetUid.monitored_add]
    cases kmallocOk <;> simp

theorem truthful_delMonitorNet (inv : s.Inv jhash hash) :
    Handler.delMonitorNet.Truthful jhash hash info kmallocOk s := by
  rw [Handler.Truthful, Handler.run, rkxGenlDelMonitorNet]
  cases huid : info.payload rkxAUid with
  | none => simp [einval]
  | some uid =>
    refine ⟨fun _ => ⟨uid, huid, ?_⟩, fun herror => absurd rfl herror⟩
    rw [RkxNetUid.Inv.monitored_del inv.netUid]
    simp

theorem truthful_addFreeAsync (inv : s.Inv jhash hash) :
    Handler.addFreeAsync.Truthful jhash hash info kmallocOk s := by
  rw [Handler.Truthful, Handler.run, rkxGenlAddFreeAsync]
  split
  · next rpcName code strategy hname hcode hstrategy =>
    refine ⟨fun hzero => ⟨rpcName, code, strategy, hname, hcode, hstrategy, ?_⟩, fun herror => ?_⟩
    · exact inv.freeAsync.lookup_of_add hzero
    · exact congrArg (RkxTables.mk s.netUid) (RkxFreeAsync.add_unchanged herror)
  · simp [einval]

theorem truthful_delFreeAsync (inv : s.Inv jhash hash) :
    Handler.delFreeAsync.Truthful jhash hash info kmallocOk s := by
  rw [Handler.Truthful, Handler.run, rkxGenlDelFreeAsync]
  split
  · next rpcName code hname hcode =>
    refine ⟨fun hzero => ⟨rpcName, code, hname, hcode, ?_⟩, fun herror => ?_⟩
    · exact inv.freeAsync.notMem_of_del hzero
    · exact congrArg (RkxTables.mk s.netUid) (RkxFreeAsync.del_unchanged herror)
  · simp [einval]

/-- **What the module answers is what happened, except when a user id finds no
memory.** After any sequence of commands, for each handler, all valid attributes
and either outcome of `kmalloc`: success means that the command took effect and an
error that no table changed, if and only if the command is not the addition of a
user id that is not monitored yet while `kmalloc` fails. -/
theorem handler_truthful_iff (jhash : List UInt8 → UInt32) (hash : UInt32 → Fin 64)
    (calls : List TableCall) (handler : Handler) (info : GenlInfo) (kmallocOk : Bool) :
    handler.Truthful jhash hash info kmallocOk (tablesAfter jhash hash calls) ↔
      ¬ (handler = .monitorNet ∧ kmallocOk = false ∧ ∃ uid, info.payload rkxAUid = some uid ∧
        rkxNetUidMonitoredRcu hash (tablesAfter jhash hash calls).netUid (nlaGetU32 uid) =
          false) := by
  have inv : (tablesAfter jhash hash calls).Inv jhash hash := RkxTables.inv_after calls
  cases handler with
  | monitorNet => simpa using truthful_monitorNet_iff
  | delMonitorNet => simpa using truthful_delMonitorNet inv
  | addFreeAsync => simpa using truthful_addFreeAsync inv
  | delFreeAsync => simpa using truthful_delFreeAsync inv

/-- The attributes of a request about one user id. -/
def uidInfo (uid : UInt32) : GenlInfo where
  payload number := if number = rkxAUid then some (leBytes 4 uid.toNat) else none
  valid number bytes h := by
    split_ifs at h with hnumber
    obtain rfl := Option.some.inj h
    exact ⟨rkxAUid, by rw [hnumber]; rfl, by simp [hnumber, rkxGenlPolicy, rkxAEvent, rkxAUid,
      NlaPolicy.accepts, nlaFNested]⟩

/-- The first user id of an application, and no memory for it: the handler returns
0 and the id is not monitored. -/
theorem monitorNet_lies_without_memory :
    let handled := Handler.monitorNet.run (fun _ => 0) (fun _ => 0) (uidInfo 10000) false
      (tablesAfter (fun _ => 0) (fun _ => 0) [])
    handled.1 = 0 ∧ rkxNetUidMonitoredRcu (fun _ => 0) handled.2.netUid 10000 = false := by
  decide

end ReKernelX
