import ReKernelX.Foundation.ModifiedUtf8
import ReKernelX.Module.BinderHooks
import ReKernelX.EventPath

/-!
# Interface names from a parcel to Java

The name in the report of a one-way call comes from the sender's parcel and ends
in a call of `NewStringUTF`, which takes Modified UTF-8. Nothing on the way looks
at its bytes: the hook keeps the first byte of each UTF-16 unit, and from there
on the name is copied. So the virtual machine is handed whatever bytes the sender
chose, and the string is well formed only if those bytes are.
-/

set_option autoImplicit false

namespace ReKernelX

open Bytes Netlink ModifiedUtf8

/-- The string a callback passes to `NewStringUTF`, if it passes one. -/
def Client.Callback.rpcName : Client.Callback → Option CString
  | .binder _ _ _ _ _ _ rpcName _ => some rpcName
  | .signal _ _ _ _ _ | .network _ _ _ => none

variable {env : HookEnv} {targetProc : Option HookProc} {proc : HookProc}
  {tr : BinderTransactionData} {event : RkxEvent}

/-- The report of a one-way call reaches Java with the name in the parcel. -/
theorem oneWay_reaches_callback (family : FamilyId) (spare : ℕ) (multicast : List UInt8 → ℤ)
    (oneWay : tr.flags &&& tfOneWay ≠ 0)
    (reported : event ∈ rkxBinderTransVh env targetProc proc tr) :
    ∃ message,
      rkxSendMessage ⟨family, some spare, multicast⟩ event =
        .multicast message (multicast message) ∧
      ∀ (m : Memory) (nlh : ℕ), Holds m nlh message →
        ∃ call, Client.handleEvent family.id m nlh = some [call] ∧
          call.rpcName = some (tokenName tr.buffer tr.dataSize) := by
  obtain ⟨sender, target, rfl⟩ := reported_oneWay oneWay reported
  refine ⟨_, rkxSendMessage_eq rfl family spare multicast, ?_⟩
  intro m nlh hmessage
  have hhandled := @handleEvent_eventMessage m
    (.binder (asyncEvent sender target tr (tokenName tr.buffer tr.dataSize))) _ nlh family rfl
    hmessage
  exact ⟨_, hhandled, congrArg some (rpcName_asyncEvent sender target tr)⟩

/-- The string passed to `NewStringUTF` for a reported one-way call is well formed if
and only if in the parcel, among the first bytes of the units behind the header,
every byte is in its place. -/
theorem reported_name_wellFormed_iff (family : FamilyId) (spare : ℕ)
    (multicast : List UInt8 → ℤ) (env : HookEnv) (targetProc : Option HookProc) (proc : HookProc)
    (tr : BinderTransactionData) (oneWay : tr.flags &&& tfOneWay ≠ 0) (event : RkxEvent)
    (reported : event ∈ rkxBinderTransVh env targetProc proc tr) :
    ∃ message,
      rkxSendMessage ⟨family, some spare, multicast⟩ event =
        .multicast message (multicast message) ∧
      ∀ (m : Memory) (nlh : ℕ), Holds m nlh message →
        ∃ call name, Client.handleEvent family.id m nlh = some [call] ∧
          call.rpcName = some name ∧
          (WellFormed name.bytes ↔ ∀ i < (tokenBytes tr.buffer tr.dataSize).length,
            InPlace (tokenBytes tr.buffer tr.dataSize) i) := by
  obtain ⟨message, hsent, hhandled⟩ :=
    oneWay_reaches_callback family spare multicast oneWay reported
  refine ⟨message, hsent, ?_⟩
  intro m nlh hmessage
  obtain ⟨call, hcall, hname⟩ := hhandled m nlh hmessage
  exact ⟨call, _, hcall, hname, wellFormed_iff⟩

/-! ### A parcel with one unit -/

/-- An app in a frozen cgroup. -/
def frozenApp : HookTask := ⟨⟨true, false, none⟩, 2, 10001⟩

/-- A system process. -/
def systemTask : HookTask := ⟨⟨false, false, none⟩, 1, 1000⟩

/-- A one-way call with a single unit behind the header, and zeros. -/
def callWithUnit (unit : UInt8) : BinderTransactionData where
  flags := tfOneWay
  code := 7
  dataSize := 20
  buffer i := if i = 16 then unit else 0

/-- The report of such a call. -/
def reportOfUnit (unit : UInt8) : RkxEvent :=
  .binder (asyncEvent systemTask frozenApp (callWithUnit unit)
    (tokenName (callWithUnit unit).buffer (callWithUnit unit).dataSize))

theorem callWithUnit_oneWay (unit : UInt8) : (callWithUnit unit).flags &&& tfOneWay ≠ 0 :=
  show tfOneWay &&& tfOneWay ≠ 0 by decide

theorem reportOfUnit_mem (unit : UInt8) :
    reportOfUnit unit ∈ rkxBinderTransVh ⟨true, true, true⟩ (some ⟨2, some frozenApp⟩)
      ⟨1, some systemTask⟩ (callWithUnit unit) := by
  rw [rkxBinderTransVh_oneWay (callWithUnit_oneWay unit)]
  exact List.mem_singleton_self _

/-- The letter "a" is delivered as a string of one character. -/
theorem reported_name_wellFormed_a :
    ∃ message,
      rkxSendMessage ⟨⟨16, by decide⟩, some 0, fun _ => 0⟩ (reportOfUnit 97) =
        .multicast message 0 ∧
      ∃ call name, Client.handleEvent 16 (Memory.ofList message) 0 = some [call] ∧
        call.rpcName = some name ∧ WellFormed name.bytes := by
  obtain ⟨message, hsent, hhandled⟩ := reported_name_wellFormed_iff ⟨16, by decide⟩ 0 (fun _ => 0)
    _ _ _ _ (callWithUnit_oneWay 97) _ (reportOfUnit_mem 97)
  obtain ⟨call, name, hcall, hname, hiff⟩ := hhandled _ 0 (holds_ofList [] message)
  refine ⟨message, hsent, call, name, hcall, hname, hiff.mpr ?_⟩
  intro i hi
  have hbytes : tokenBytes (callWithUnit 97).buffer (callWithUnit 97).dataSize = [97] := rfl
  rw [hbytes, List.length_singleton] at hi
  rw [hbytes, Nat.lt_one_iff.mp hi]
  trivial

/-- The letter "é" is delivered as the first byte of a sequence of three, without the
other two. -/
theorem reported_name_malformed_e_acute :
    reportOfUnit 0xE9 ∈ rkxBinderTransVh ⟨true, true, true⟩ (some ⟨2, some frozenApp⟩)
      ⟨1, some systemTask⟩ (callWithUnit 0xE9) ∧
    ∃ message,
      rkxSendMessage ⟨⟨16, by decide⟩, some 0, fun _ => 0⟩ (reportOfUnit 0xE9) =
        .multicast message 0 ∧
      ∃ call name, Client.handleEvent 16 (Memory.ofList message) 0 = some [call] ∧
        call.rpcName = some name ∧ ¬ WellFormed name.bytes := by
  obtain ⟨message, hsent, hhandled⟩ := oneWay_reaches_callback ⟨16, by decide⟩ 0 (fun _ => 0)
    (callWithUnit_oneWay 0xE9) (reportOfUnit_mem 0xE9)
  obtain ⟨call, hcall, hname⟩ := hhandled _ 0 (holds_ofList [] message)
  refine ⟨reportOfUnit_mem 0xE9, message, hsent, call, _, hcall, hname, ?_⟩
  have hbytes : tokenBytes (callWithUnit 0xE9).buffer (callWithUnit 0xE9).dataSize = [0xE9] := rfl
  intro hwell
  change WellFormed (tokenBytes _ _) at hwell
  rw [hbytes] at hwell
  cases hwell with
  | one ha _ => exact absurd ha (by decide)

end ReKernelX
