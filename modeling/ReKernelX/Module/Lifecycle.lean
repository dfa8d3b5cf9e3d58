import Mathlib.Data.Fintype.Defs
import ReKernelX.Foundation.Ledger
import ReKernelX.Foundation.Procedure
import ReKernelX.Module.Requests

/-!
# Loading and unloading the module

`rkx_init` registers one thing after another and takes everything back when one
of them fails; `rkx_exit` takes everything back. Most registrations have a flag
that says whether there is something to take back, and some of the functions
called on the way have already rolled back on their own when the common error
path runs. From the moment the generic netlink family is registered, commands
may arrive between any two steps.

The registrations that succeeded are recorded in a ledger with what was undone.
At every point of the program the flags and the ledger agree on a set of
registrations, which the commands cannot change, and the family is in it as long
as anything is.
-/

set_option autoImplicit false

namespace ReKernelX

open Proc Ledger

/-! ### The code -/

/-- What the module registers with the kernel, or creates. -/
inductive Resource
  | genl
  | allocBuf
  | reply
  | trans
  | signal
  /-- The hooks in all namespaces, as one unit. -/
  | netfilter
  | workqueue
  /-- The probe that is only there to learn an address. -/
  | kallsymsProbe
  | transactionProbe
  deriving DecidableEq

/-- What `rkx_register_binder_kp` looks up in the kernel's symbol table. -/
inductive Symbol
  | binderTransactionBufferRelease
  | binderAllocFreeBuf
  | binderAllocCopyFromBuffer
  | binderStats
  | binderProcDecTmpref
  | binderFreeProc
  deriving DecidableEq

/-- The two facts about the kernel that `LINUX_VERSION_CODE` is compared for. -/
structure KernelVersion where
  below6_0 : Bool
  below5_15 : Bool

/-- The steps of loading and unloading. -/
inductive ModCall
  | register (r : Resource)
  | unregister (r : Resource)
  | getFlag (r : Resource)
  | setFlag (r : Resource) (value : Bool)
  | kallsymsLookupName (symbol : Symbol)
  | flushWorkqueue
  | synchronize
  | initNetUid
  | initFreeAsync
  | destroyNetUid
  | destroyFreeAsync

/-- A registration tells whether it succeeded, a lookup whether the symbol is there. -/
def ModCall.Answer : ModCall → Type
  | .register _ | .getFlag _ | .kallsymsLookupName _ => Bool
  | .unregister _ | .setFlag _ _ | .flushWorkqueue | .synchronize | .initNetUid | .initFreeAsync
  | .destroyNetUid | .destroyFreeAsync => Unit

abbrev ModProc := Proc ModCall ModCall.Answer

namespace Mod

def register (r : Resource) : ModProc Bool := perform (ModCall.register r)
def unregister (r : Resource) : ModProc Unit := perform (ModCall.unregister r)
def getFlag (r : Resource) : ModProc Bool := perform (ModCall.getFlag r)
def setFlag (r : Resource) (value : Bool) : ModProc Unit := perform (ModCall.setFlag r value)
def kallsymsLookupName (symbol : Symbol) : ModProc Bool :=
  perform (ModCall.kallsymsLookupName symbol)
def flushWorkqueue : ModProc Unit := perform ModCall.flushWorkqueue
def synchronize : ModProc Unit := perform ModCall.synchronize
def initNetUid : ModProc Unit := perform ModCall.initNetUid
def initFreeAsync : ModProc Unit := perform ModCall.initFreeAsync
def destroyNetUid : ModProc Unit := perform ModCall.destroyNetUid
def destroyFreeAsync : ModProc Unit := perform ModCall.destroyFreeAsync

end Mod

/-- Register, and set the flag on success. -/
def registerFlagged (r : Resource) : ModProc Bool := do
  let ok ← Mod.register r
  if ok then
    Mod.setFlag r true
    return true
  else return false

/-- Undo what the flag says there is to undo. -/
def unregisterFlagged (r : Resource) : ModProc Unit := do
  let hooked ← Mod.getFlag r
  if hooked then
    Mod.unregister r
    Mod.setFlag r false
  else return ()

/-- `rkx_register_genl` -/
def rkxRegisterGenl : ModProc Bool := registerFlagged .genl

/-- `rkx_unregister_genl` -/
def rkxUnregisterGenl : ModProc Unit := unregisterFlagged .genl

/-- `rkx_register_signal` -/
def rkxRegisterSignal : ModProc Bool := registerFlagged .signal

/-- `rkx_unregister_signal` -/
def rkxUnregisterSignal : ModProc Unit := unregisterFlagged .signal

/-- `rkx_register_netfilter`, whose own rollback is inside the registration. -/
def rkxRegisterNetfilter : ModProc Bool := registerFlagged .netfilter

/-- `rkx_unregister_netfilter` -/
def rkxUnregisterNetfilter : ModProc Unit := unregisterFlagged .netfilter

/-- `rkx_unregister_binder` -/
def rkxUnregisterBinder : ModProc Unit := do
  unregisterFlagged .trans
  unregisterFlagged .reply
  unregisterFlagged .allocBuf

/-- The label `err` of `rkx_register_binder`. -/
def rkxRegisterBinderErr : ModProc Bool := do
  rkxUnregisterBinder
  return false

/-- `rkx_register_binder` -/
def rkxRegisterBinder : ModProc Bool := do
  let allocBuf ← registerFlagged .allocBuf
  if allocBuf then
    let reply ← registerFlagged .reply
    if reply then
      let trans ← registerFlagged .trans
      if trans then return true else rkxRegisterBinderErr
    else rkxRegisterBinderErr
  else rkxRegisterBinderErr

/-- `rkx_unregister_binder_kp`; the flag of the queue is that `rkx_free_wq` is not
null. -/
def rkxUnregisterBinderKp : ModProc Unit := do
  unregisterFlagged .transactionProbe
  let wq ← Mod.getFlag .workqueue
  if wq then
    -- work that is queued has to run before the queue is destroyed
    Mod.flushWorkqueue
    Mod.unregister .workqueue
    Mod.setFlag .workqueue false
  else return ()

/-- An old kernel does not export it; the module has a copy. -/
def lookupCopyFromBuffer (version : KernelVersion) : ModProc Bool :=
  if version.below6_0 then return true
  else Mod.kallsymsLookupName .binderAllocCopyFromBuffer

/-- Only an old kernel has it; elsewhere the pointer stays null. -/
def lookupFreeProc (version : KernelVersion) : ModProc Bool :=
  if version.below5_15 then Mod.kallsymsLookupName .binderFreeProc
  else return false

/-- The lookups of `rkx_register_binder_kp` and the test after them: whether the
symbols it cannot do without are there. -/
def resolveBinderSymbols (version : KernelVersion) : ModProc Bool := do
  let bufferRelease ← Mod.kallsymsLookupName .binderTransactionBufferRelease
  let allocFreeBuf ← Mod.kallsymsLookupName .binderAllocFreeBuf
  let allocCopyFromBuffer ← lookupCopyFromBuffer version
  let stats ← Mod.kallsymsLookupName .binderStats
  let procDecTmpref ← Mod.kallsymsLookupName .binderProcDecTmpref
  let freeProc ← lookupFreeProc version
  return bufferRelease && allocFreeBuf && allocCopyFromBuffer && stats &&
    (procDecTmpref || freeProc)

/-- `rkx_register_binder_kp`. It reports nothing: without it the module works, only
without reclaiming. -/
def rkxRegisterBinderKp (version : KernelVersion) : ModProc Unit := do
  let wq ← registerFlagged .workqueue
  if wq then
    -- a probe on `kallsyms_lookup_name`, registered only to learn its address
    let probed ← Mod.register .kallsymsProbe
    if probed then
      Mod.unregister .kallsymsProbe
      let resolved ← resolveBinderSymbols version
      if resolved then
        let hooked ← registerFlagged .transactionProbe
        if hooked then return () else rkxUnregisterBinderKp
      else rkxUnregisterBinderKp
    else rkxUnregisterBinderKp
  else rkxUnregisterBinderKp

/-- `rkx_exit` -/
def rkxExit : ModProc Unit := do
  rkxUnregisterBinderKp
  rkxUnregisterNetfilter
  rkxUnregisterSignal
  rkxUnregisterBinder
  -- the hooks use the family, so it goes when none of them runs any more
  Mod.synchronize
  rkxUnregisterGenl
  Mod.destroyFreeAsync
  Mod.destroyNetUid

/-- The label `err` of `rkx_init`: the statements of `rkx_exit`. -/
def rkxInitErr : ModProc Bool := do
  rkxExit
  return false

/-- `rkx_init`: whether it returned `RKX_SUCCESS`. -/
def rkxInit (version : KernelVersion) : ModProc Bool := do
  Mod.initNetUid
  Mod.initFreeAsync
  let genl ← rkxRegisterGenl
  if genl then
    let binder ← rkxRegisterBinder
    if binder then
      let signal ← rkxRegisterSignal
      if signal then
        let netfilter ← rkxRegisterNetfilter
        if netfilter then
          rkxRegisterBinderKp version
          return true
        else rkxInitErr
      else rkxInitErr
    else rkxInitErr
  else rkxInitErr

/-- The life of the module: a module whose `rkx_init` failed is not loaded. -/
def rkxModule (version : KernelVersion) : ModProc Unit := do
  let loaded ← rkxInit version
  if loaded then rkxExit else return ()

/-! ### What the steps do -/

/-- The flags, the tables, and the ledger of registrations. -/
structure ModWorld where
  flag : Resource → Bool
  tables : RkxTables
  log : List (Entry Resource)

/-- What each step may answer and do. Any registration may fail. -/
def modSem : Sem ModCall ModCall.Answer ModWorld
  | .register r, w, ok, w' =>
    (ok = true ∧ w' = { w with log := .acquire r :: w.log }) ∨ (ok = false ∧ w' = w)
  | .unregister r, w, _, w' => w' = { w with log := .release r :: w.log }
  | .getFlag r, w, value, w' => value = w.flag r ∧ w' = w
  | .setFlag r value, w, _, w' => w' = { w with flag := Function.update w.flag r value }
  | .kallsymsLookupName _, w, _, w' | .flushWorkqueue, w, _, w' | .synchronize, w, _, w' => w' = w
  | .initNetUid, w, _, w' =>
    w' = { w with tables := { w.tables with netUid := rkxInitNetUid } }
  | .initFreeAsync, w, _, w' =>
    w' = { w with tables := { w.tables with freeAsync := rkxInitFreeAsync } }
  | .destroyNetUid, w, _, w' =>
    w' = { w with tables := { w.tables with netUid := rkxDestroyNetUid w.tables.netUid } }
  | .destroyFreeAsync, w, _, w' =>
    w' = { w with tables := { w.tables with freeAsync := rkxDestroyFreeAsync w.tables.freeAsync } }

/-- The step when everything can be had except the things in `fails`. -/
def modOracle (fails : Resource → Bool) : (i : ModCall) → ModWorld → i.Answer × ModWorld
  | .register r, w => if fails r then (false, w) else (true, { w with log := .acquire r :: w.log })
  | .unregister r, w => ((), { w with log := .release r :: w.log })
  | .getFlag r, w => (w.flag r, w)
  | .setFlag r value, w => ((), { w with flag := Function.update w.flag r value })
  | .kallsymsLookupName _, w => (true, w)
  | .flushWorkqueue, w | .synchronize, w => ((), w)
  | .initNetUid, w => ((), { w with tables := { w.tables with netUid := rkxInitNetUid } })
  | .initFreeAsync, w => ((), { w with tables := { w.tables with freeAsync := rkxInitFreeAsync } })
  | .destroyNetUid, w =>
    ((), { w with tables := { w.tables with netUid := rkxDestroyNetUid w.tables.netUid } })
  | .destroyFreeAsync, w =>
    ((), { w with tables := { w.tables with freeAsync := rkxDestroyFreeAsync w.tables.freeAsync } })

theorem modSem_modOracle (fails : Resource → Bool) (i : ModCall) (w : ModWorld) :
    modSem i w (modOracle fails i w).1 (modOracle fails i w).2 := by
  cases i with
  | register r =>
    by_cases hr : fails r
    · have hfailed : modOracle fails (.register r) w = (false, w) := if_pos hr
      rw [hfailed]
      exact .inr ⟨rfl, rfl⟩
    · have hdone : modOracle fails (.register r) w =
          (true, { w with log := .acquire r :: w.log }) := if_neg hr
      rw [hdone]
      exact .inl ⟨rfl, rfl⟩
  | getFlag r => exact ⟨rfl, rfl⟩
  | _ => rfl

/-- A command arrives while the family is registered. -/
def Command (jhash : List UInt8 → UInt32) (hash : UInt32 → Fin 64) (w w' : ModWorld) : Prop :=
  Resource.genl ∈ held w.log ∧ ∃ (handler : Handler) (info : GenlInfo) (kmallocOk : Bool),
    w' = { w with tables := (handler.run jhash hash info kmallocOk w.tables).2 }

/-! ### Stages -/

namespace ModWorld

/-- The module when `rkx_init` is called. -/
def loaded (tables : RkxTables) : ModWorld := ⟨fun _ => false, tables, []⟩

/-- What holds at every moment: every undoing undoes something, and nothing is
registered without the family. -/
structure Sound (w : ModWorld) : Prop where
  balanced : Balanced w.log
  genl : ∀ r ∈ held w.log, Resource.genl ∈ held w.log

/-- The flags of `F` are set and the things of `R` are registered. -/
structure Stage (F R : Finset Resource) (w : ModWorld) : Prop where
  flag : ∀ r, w.flag r = decide (r ∈ F)
  held : held w.log = R
  balanced : Balanced w.log
  genl : ∀ r ∈ R, Resource.genl ∈ R

variable {F R : Finset Resource} {w : ModWorld} {r : Resource}

theorem Stage.sound (h : Stage F R w) : w.Sound where
  balanced := h.balanced
  genl r hr := by
    rw [h.held] at hr ⊢
    exact h.genl r hr

theorem stage_loaded (tables : RkxTables) : Stage ∅ ∅ (loaded tables) where
  flag _ := rfl
  held := by
    rw [loaded, held_nil, Finset.coe_empty]
  balanced := balanced_nil
  genl _ hr := absurd hr (Finset.notMem_empty _)

theorem Stage.register (h : Stage F R w) (free : r ∉ R) (needs : r = .genl ∨ .genl ∈ R) :
    Stage F (insert r R) { w with log := .acquire r :: w.log } where
  flag := h.flag
  held := by
    rw [held_acquire, h.held, Finset.coe_insert]
  balanced := by
    apply h.balanced.acquire
    rw [h.held]
    exact free
  genl _ _ := by
    rcases needs with rfl | hgenl
    · exact Finset.mem_insert_self _ R
    · exact Finset.mem_insert_of_mem hgenl

/-- The family is unregistered last. -/
theorem Stage.unregister (h : Stage F R w) (registered : r ∈ R)
    (last : r = .genl → ∀ r' ∈ R, r' = .genl) :
    Stage F (R.erase r) { w with log := .release r :: w.log } where
  flag := h.flag
  held := by
    rw [held_release, h.held, Finset.coe_erase]
  balanced := by
    apply h.balanced.release
    rw [h.held]
    exact registered
  genl r' hr' := by
    obtain ⟨hne, hmem⟩ := Finset.mem_erase.mp hr'
    apply Finset.mem_erase_of_ne_of_mem
    · intro hgenl
      exact hne ((last hgenl.symm r' hmem).trans hgenl)
    · exact h.genl r' hmem

theorem Stage.setFlag (h : Stage F R w) (r : Resource) :
    Stage (insert r F) R { w with flag := Function.update w.flag r true } where
  flag r' := by
    change Function.update w.flag r true r' = _
    by_cases hr : r' = r
    · rw [hr, Function.update_self, decide_eq_true (Finset.mem_insert_self r F)]
    · rw [Function.update_of_ne hr, h.flag]
      exact decide_eq_decide.mpr (by rw [Finset.mem_insert, or_iff_right hr])
  held := h.held
  balanced := h.balanced
  genl := h.genl

theorem Stage.clearFlag (h : Stage F R w) (r : Resource) :
    Stage (F.erase r) R { w with flag := Function.update w.flag r false } where
  flag r' := by
    change Function.update w.flag r false r' = _
    by_cases hr : r' = r
    · rw [hr, Function.update_self, decide_eq_false (Finset.notMem_erase r F)]
    · rw [Function.update_of_ne hr, h.flag]
      exact decide_eq_decide.mpr (by rw [Finset.mem_erase, and_iff_right hr])
  held := h.held
  balanced := h.balanced
  genl := h.genl

/-- Commands change the tables only. -/
theorem Stage.stable (jhash : List UInt8 → UInt32) (hash : UInt32 → Fin 64) :
    Stable (Command jhash hash) (Stage F R) := by
  rintro w w' h ⟨-, handler, info, kmallocOk, rfl⟩
  exact ⟨h.flag, h.held, h.balanced, h.genl⟩

/-- With nothing registered, nothing happens to the tables. -/
theorem Stage.stable_tables (jhash : List UInt8 → UInt32) (hash : UInt32 → Fin 64)
    (P : RkxTables → Prop) :
    Stable (Command jhash hash) fun w => Stage F ∅ w ∧ P w.tables := by
  rintro w w' ⟨h, -⟩ ⟨registered, -⟩
  rw [h.held] at registered
  exact absurd (Finset.mem_coe.mp registered) (Finset.notMem_empty _)

end ModWorld

/-! ### The steps, stage by stage -/

section Stages

open ModWorld

variable {jhash : List UInt8 → UInt32} {hash : UInt32 → Fin 64} {α : Type}
  {F R : Finset Resource} {w : ModWorld} {Q : α → ModWorld → Prop} {r : Resource}

/-- The weakest precondition of a part of the module's life, with commands arriving
in between. -/
abbrev mwp (jhash : List UInt8 → UInt32) (hash : UInt32 → Fin 64) (p : ModProc α)
    (Q : α → ModWorld → Prop) (w : ModWorld) : Prop :=
  p.wp modSem (Command jhash hash) Sound Q w

theorem mwp_return {a : α} (h : Stage F R w) (post : ∀ w', Stage F R w' → Q a w') :
    mwp jhash hash (pure a) Q w :=
  wp_ret (Stage.stable jhash hash) (fun w' h' => ⟨h'.sound, post w' h'⟩) h

theorem mwp_register {k : Bool → ModProc α} (h : Stage F R w) (free : r ∉ R)
    (needs : r = .genl ∨ .genl ∈ R)
    (done : ∀ w', Stage F (insert r R) w' → mwp jhash hash (k true) Q w')
    (failed : ∀ w', Stage F R w' → mwp jhash hash (k false) Q w') :
    mwp jhash hash (Mod.register r >>= k) Q w := by
  apply wp_call (Stage.stable jhash hash) (fun _ h' => h'.sound) _ h
  rintro w₁ ok w' h₁ (⟨rfl, rfl⟩ | ⟨rfl, rfl⟩)
  · exact done _ (h₁.register free needs)
  · exact failed _ h₁

theorem mwp_unregister (r : Resource) {k : Unit → ModProc α} (h : Stage F R w)
    (registered : r ∈ R)
    (last : r = .genl → ∀ r' ∈ R, r' = .genl)
    (next : ∀ w', Stage F (R.erase r) w' → mwp jhash hash (k ()) Q w') :
    mwp jhash hash (Mod.unregister r >>= k) Q w := by
  apply wp_call (Stage.stable jhash hash) (fun _ h' => h'.sound) _ h
  rintro w₁ ⟨⟩ w' h₁ rfl
  exact next _ (h₁.unregister registered last)

theorem mwp_getFlag {k : Bool → ModProc α} (h : Stage F R w)
    (next : ∀ w', Stage F R w' → mwp jhash hash (k (decide (r ∈ F))) Q w') :
    mwp jhash hash (Mod.getFlag r >>= k) Q w := by
  apply wp_call (Stage.stable jhash hash) (fun _ h' => h'.sound) _ h
  rintro w₁ value w' h₁ ⟨rfl, rfl⟩
  rw [h₁.flag]
  exact next _ h₁

theorem mwp_setFlag {k : Unit → ModProc α} (h : Stage F R w)
    (next : ∀ w', Stage (insert r F) R w' → mwp jhash hash (k ()) Q w') :
    mwp jhash hash (Mod.setFlag r true >>= k) Q w := by
  apply wp_call (Stage.stable jhash hash) (fun _ h' => h'.sound) _ h
  rintro w₁ ⟨⟩ w' h₁ rfl
  exact next _ (h₁.setFlag r)

/-- Clearing a flag is the last thing its function does. -/
theorem mwp_clearFlag {Q : Unit → ModWorld → Prop} (h : Stage F R w)
    (post : ∀ w', Stage (F.erase r) R w' → Q () w') :
    mwp jhash hash (Mod.setFlag r false) Q w := by
  apply wp_call (Stage.stable jhash hash) (fun _ h' => h'.sound) _ h
  rintro w₁ ⟨⟩ w' h₁ rfl
  exact mwp_return (h₁.clearFlag r) post

/-- A call that concerns neither the flags nor what is registered. -/
def ModCall.Unrelated : ModCall → Prop
  | .register _ | .unregister _ | .setFlag _ _ => False
  | _ => True

theorem modSem_unrelated {i : ModCall} (unrelated : i.Unrelated) {a : i.Answer} {w' : ModWorld}
    (answered : modSem i w a w') : w'.flag = w.flag ∧ w'.log = w.log := by
  cases i with
  | register r => exact unrelated.elim
  | unregister r => exact unrelated.elim
  | setFlag r value => exact unrelated.elim
  | getFlag r =>
    obtain ⟨-, rfl⟩ := answered
    exact ⟨rfl, rfl⟩
  | _ =>
    obtain rfl := answered
    exact ⟨rfl, rfl⟩

theorem mwp_unrelated (i : ModCall) {k : i.Answer → ModProc α} (h : Stage F R w)
    (unrelated : i.Unrelated) (next : ∀ a w', Stage F R w' → mwp jhash hash (k a) Q w') :
    mwp jhash hash (perform i >>= k) Q w := by
  apply wp_call (Stage.stable jhash hash) (fun _ h' => h'.sound) _ h
  intro w₁ a w' h₁ answered
  obtain ⟨hflag, hlog⟩ := modSem_unrelated unrelated answered
  refine next a w' ⟨?_, ?_, ?_, h₁.genl⟩
  · rw [hflag]
    exact h₁.flag
  · rw [hlog]
    exact h₁.held
  · rw [hlog]
    exact h₁.balanced

theorem mwp_registerFlagged (h : Stage R R w) (free : r ∉ R) (needs : r = .genl ∨ .genl ∈ R) :
    mwp jhash hash (registerFlagged r)
      (fun ok w' => if ok then Stage (insert r R) (insert r R) w' else Stage R R w') w := by
  apply mwp_register h free needs
  · intro w₁ h₁
    apply mwp_setFlag h₁
    intro w₂ h₂
    exact mwp_return h₂ fun _ h' => h'
  · intro w₁ h₁
    exact mwp_return h₁ fun _ h' => h'

/-- What the flag says is undone, and nothing is when there is nothing to undo. -/
theorem mwp_unregisterFlagged (r : Resource) (h : Stage R R w)
    (last : r = .genl → ∀ r' ∈ R, r' = .genl) :
    mwp jhash hash (unregisterFlagged r) (fun _ => Stage (R.erase r) (R.erase r)) w := by
  apply mwp_getFlag h
  intro w₁ h₁
  by_cases hr : r ∈ R
  · rw [decide_eq_true hr]
    apply mwp_unregister r h₁ hr last
    intro w₂ h₂
    exact mwp_clearFlag h₂ fun _ h' => h'
  · rw [decide_eq_false hr, Finset.erase_eq_of_notMem hr]
    exact mwp_return h₁ fun _ h' => h'

theorem mwp_rkxUnregisterBinder (h : Stage R R w) :
    mwp jhash hash rkxUnregisterBinder
      (fun _ => Stage (((R.erase .trans).erase .reply).erase .allocBuf)
        (((R.erase .trans).erase .reply).erase .allocBuf)) w := by
  apply wp_bind (mwp_unregisterFlagged .trans h nofun)
  intro _ w₁ h₁
  apply wp_bind (mwp_unregisterFlagged .reply h₁ nofun)
  intro _ w₂ h₂
  exact mwp_unregisterFlagged .allocBuf h₂ nofun

theorem mwp_rkxUnregisterBinderKp (h : Stage R R w) :
    mwp jhash hash rkxUnregisterBinderKp
      (fun _ => Stage ((R.erase .transactionProbe).erase .workqueue)
        ((R.erase .transactionProbe).erase .workqueue)) w := by
  apply wp_bind (mwp_unregisterFlagged .transactionProbe h nofun)
  intro _ w₁ h₁
  apply mwp_getFlag h₁
  intro w₂ h₂
  by_cases hwq : Resource.workqueue ∈ R.erase .transactionProbe
  · rw [decide_eq_true hwq]
    apply mwp_unrelated .flushWorkqueue h₂ trivial
    intro _ w₃ h₃
    apply mwp_unregister .workqueue h₃ hwq nofun
    intro w₄ h₄
    exact mwp_clearFlag h₄ fun _ h' => h'
  · rw [decide_eq_false hwq, Finset.erase_eq_of_notMem hwq]
    exact mwp_return h₂ fun _ h' => h'

/-- The flags say what there is to undo. The probe without a flag is not among it. -/
def ModWorld.Undoable (w : ModWorld) : Prop :=
  ∃ R : Finset Resource, Resource.kallsymsProbe ∉ R ∧ Stage R R w

/-- Nothing is registered and both tables are empty. -/
def ModWorld.Unloaded (w : ModWorld) : Prop :=
  Stage ∅ ∅ w ∧ w.tables = ⟨rkxInitNetUid, rkxInitFreeAsync⟩

theorem mwp_unloaded {a : α} (h : w.Unloaded) (post : ∀ w', w'.Unloaded → Q a w') :
    mwp jhash hash (pure a) Q w :=
  wp_ret (Stage.stable_tables jhash hash fun t => t = ⟨rkxInitNetUid, rkxInitFreeAsync⟩)
    (fun w' h' => ⟨h'.1.sound, post w' h'⟩) h

/-- The tables are emptied when no command can arrive any more. -/
theorem mwp_destroyTables (h : Stage ∅ ∅ w) :
    mwp jhash hash (do Mod.destroyFreeAsync; Mod.destroyNetUid) (fun _ => Unloaded) w := by
  apply wp_call (Stage.stable jhash hash) (fun _ h' => h'.sound) _ h
  rintro w₁ ⟨⟩ w' h₁ rfl
  have hfree : Stage ∅ ∅ { w₁ with
      tables := { w₁.tables with freeAsync := rkxDestroyFreeAsync w₁.tables.freeAsync } } ∧
      rkxDestroyFreeAsync w₁.tables.freeAsync = rkxInitFreeAsync :=
    ⟨⟨h₁.flag, h₁.held, h₁.balanced, h₁.genl⟩,
      RkxFreeAsync.rkxDestroyFreeAsync_eq_init w₁.tables.freeAsync⟩
  apply wp_call (Stage.stable_tables jhash hash fun t => t.freeAsync = rkxInitFreeAsync)
    (fun _ h' => h'.1.sound) _ hfree
  -- no command can fill the first table again before the second is emptied
  rintro w₂ ⟨⟩ w' ⟨h₂, hempty⟩ rfl
  have hboth : Unloaded { w₂ with
      tables := { w₂.tables with netUid := rkxDestroyNetUid w₂.tables.netUid } } := by
    refine ⟨⟨h₂.flag, h₂.held, h₂.balanced, h₂.genl⟩, ?_⟩
    change RkxTables.mk (rkxDestroyNetUid w₂.tables.netUid) w₂.tables.freeAsync = _
    rw [RkxNetUid.rkxDestroyNetUid_eq_init, hempty]
  exact mwp_unloaded hboth fun _ h' => h'

/-- `rkx_exit` undoes whatever there is to undo. -/
theorem mwp_rkxExit (h : w.Undoable) : mwp jhash hash rkxExit (fun _ => Unloaded) w := by
  obtain ⟨R, hprobe, h⟩ := h
  apply wp_bind (mwp_rkxUnregisterBinderKp h)
  intro _ w₁ h₁
  apply wp_bind (mwp_unregisterFlagged .netfilter h₁ nofun)
  intro _ w₂ h₂
  apply wp_bind (mwp_unregisterFlagged .signal h₂ nofun)
  intro _ w₃ h₃
  apply wp_bind (mwp_rkxUnregisterBinder h₃)
  intro _ w₄ h₄
  apply mwp_unrelated .synchronize h₄ trivial
  intro _ w₅ h₅
  -- by now only the family can be left
  have hlast : ∀ r ∈ ((((((R.erase .transactionProbe).erase .workqueue).erase .netfilter).erase
      .signal).erase .trans).erase .reply).erase .allocBuf, r = Resource.genl := by
    intro r hr
    cases r <;> simp [hprobe] at hr ⊢
  apply wp_bind (mwp_unregisterFlagged .genl h₅ fun _ => hlast)
  intro _ w₆ h₆
  have hnone : (((((((R.erase .transactionProbe).erase .workqueue).erase .netfilter).erase
      .signal).erase .trans).erase .reply).erase .allocBuf).erase Resource.genl = ∅ := by
    apply Finset.eq_empty_of_forall_notMem
    intro r hr
    exact Finset.ne_of_mem_erase hr (hlast r (Finset.mem_of_mem_erase hr))
  rw [hnone] at h₆
  exact mwp_destroyTables h₆

theorem mwp_rkxInitErr {Q : Bool → ModWorld → Prop} (h : w.Undoable)
    (post : ∀ w', w'.Unloaded → Q false w') : mwp jhash hash rkxInitErr Q w := by
  apply wp_bind (mwp_rkxExit h)
  intro _ w₁ h₁
  exact mwp_unloaded h₁ post

/-- The rollback of `rkx_register_binder` takes part of it back; the error path of
`rkx_init`, which runs the same functions again, finds what is left. -/
theorem mwp_rkxRegisterBinderErr {Q : Bool → ModWorld → Prop} (h : w.Undoable)
    (post : ∀ w', w'.Undoable → Q false w') : mwp jhash hash rkxRegisterBinderErr Q w := by
  obtain ⟨R, hprobe, h⟩ := h
  apply wp_bind (mwp_rkxUnregisterBinder h)
  intro _ w₁ h₁
  apply mwp_return h₁
  intro w₂ h₂
  apply post w₂
  refine ⟨_, ?_, h₂⟩
  intro hmem
  exact hprobe (Finset.mem_of_mem_erase (Finset.mem_of_mem_erase (Finset.mem_of_mem_erase hmem)))

theorem mwp_rkxRegisterBinder (h : Stage {.genl} {.genl} w) :
    mwp jhash hash rkxRegisterBinder
      (fun ok w' => if ok then
          Stage {.trans, .reply, .allocBuf, .genl} {.trans, .reply, .allocBuf, .genl} w'
        else w'.Undoable) w := by
  -- after each failure the flags cover what was registered so far
  apply wp_bind (mwp_registerFlagged h (by simp) (.inr (by simp)))
  rintro (_ | _) w₁ h₁
  · exact mwp_rkxRegisterBinderErr ⟨_, by simp, h₁⟩ fun _ h' => h'
  apply wp_bind (mwp_registerFlagged h₁ (by simp) (.inr (by simp)))
  rintro (_ | _) w₂ h₂
  · exact mwp_rkxRegisterBinderErr ⟨_, by simp, h₂⟩ fun _ h' => h'
  apply wp_bind (mwp_registerFlagged h₂ (by simp) (.inr (by simp)))
  rintro (_ | _) w₃ h₃
  · exact mwp_rkxRegisterBinderErr ⟨_, by simp, h₃⟩ fun _ h' => h'
  exact mwp_return h₃ fun _ h' => h'

/-- The symbol lookups concern nothing that is registered. -/
theorem mwp_resolveBinderSymbols (version : KernelVersion) (h : Stage F R w) :
    mwp jhash hash (resolveBinderSymbols version) (fun _ => Stage F R) w := by
  have lookup : ∀ {symbol : Symbol} {w' : ModWorld}, Stage F R w' →
      mwp jhash hash (Mod.kallsymsLookupName symbol) (fun _ => Stage F R) w' := by
    intro symbol w' h'
    apply mwp_unrelated (.kallsymsLookupName symbol) h' trivial
    intro _ w₁ h₁
    exact mwp_return h₁ fun _ h'' => h''
  apply wp_bind (lookup h)
  intro _ w₁ h₁
  apply wp_bind (lookup h₁)
  intro _ w₂ h₂
  have copy : mwp jhash hash (lookupCopyFromBuffer version) (fun _ => Stage F R) w₂ := by
    unfold lookupCopyFromBuffer
    split
    · exact mwp_return h₂ fun _ h' => h'
    · exact lookup h₂
  apply wp_bind copy
  intro _ w₃ h₃
  apply wp_bind (lookup h₃)
  intro _ w₄ h₄
  apply wp_bind (lookup h₄)
  intro _ w₅ h₅
  have freeProc : mwp jhash hash (lookupFreeProc version) (fun _ => Stage F R) w₅ := by
    unfold lookupFreeProc
    split
    · exact lookup h₅
    · exact mwp_return h₅ fun _ h' => h'
  apply wp_bind freeProc
  intro _ w₆ h₆
  exact mwp_return h₆ fun _ h' => h'

/-- After `rkx_unregister_binder_kp` there is less to undo. -/
theorem mwp_undoBinderKp (h : w.Undoable) :
    mwp jhash hash rkxUnregisterBinderKp (fun _ => Undoable) w := by
  obtain ⟨R, hprobe, h⟩ := h
  apply wp_mono (mwp_rkxUnregisterBinderKp h)
  intro _ w' h'
  refine ⟨_, ?_, h'⟩
  intro hmem
  exact hprobe (Finset.mem_of_mem_erase (Finset.mem_of_mem_erase hmem))

theorem mwp_rkxRegisterBinderKp (version : KernelVersion)
    (h : Stage {.netfilter, .signal, .trans, .reply, .allocBuf, .genl}
      {.netfilter, .signal, .trans, .reply, .allocBuf, .genl} w) :
    mwp jhash hash (rkxRegisterBinderKp version) (fun _ => Undoable) w := by
  apply wp_bind (mwp_registerFlagged h (by simp) (.inr (by simp)))
  rintro (_ | _) w₁ h₁
  · exact mwp_undoBinderKp ⟨_, by simp, h₁⟩
  apply mwp_register h₁ (by simp) (.inr (by simp))
  case failed =>
    intro w₂ h₂
    exact mwp_undoBinderKp ⟨_, by simp, h₂⟩
  intro w₂ h₂
  -- the address is known, the probe has no further use
  apply mwp_unregister .kallsymsProbe h₂ (by simp) nofun
  rw [Finset.erase_insert (by simp)]
  intro w₃ h₃
  apply wp_bind (mwp_resolveBinderSymbols version h₃)
  rintro (_ | _) w₄ h₄
  · exact mwp_undoBinderKp ⟨_, by simp, h₄⟩
  apply wp_bind (mwp_registerFlagged h₄ (by simp) (.inr (by simp)))
  rintro (_ | _) w₅ h₅
  · exact mwp_undoBinderKp ⟨_, by simp, h₅⟩
  exact mwp_return h₅ fun _ h' => ⟨_, by simp, h'⟩

theorem mwp_rkxInit (version : KernelVersion) (h : Stage ∅ ∅ w) :
    mwp jhash hash (rkxInit version)
      (fun ok w' => if ok then w'.Undoable else w'.Unloaded) w := by
  apply mwp_unrelated .initNetUid h trivial
  intro _ w₁ h₁
  apply mwp_unrelated .initFreeAsync h₁ trivial
  intro _ w₂ h₂
  apply wp_bind (mwp_registerFlagged h₂ (by simp) (.inl rfl))
  rintro (_ | _) w₃ h₃
  · exact mwp_rkxInitErr ⟨_, by simp, h₃⟩ fun _ h' => h'
  -- from here on commands arrive, and each failure leaves something to undo
  apply wp_bind (mwp_rkxRegisterBinder h₃)
  rintro (_ | _) w₄ h₄
  · exact mwp_rkxInitErr h₄ fun _ h' => h'
  apply wp_bind (mwp_registerFlagged h₄ (by simp) (.inr (by simp)))
  rintro (_ | _) w₅ h₅
  · exact mwp_rkxInitErr ⟨_, by simp, h₅⟩ fun _ h' => h'
  apply wp_bind (mwp_registerFlagged h₅ (by simp) (.inr (by simp)))
  rintro (_ | _) w₆ h₆
  · exact mwp_rkxInitErr ⟨_, by simp, h₆⟩ fun _ h' => h'
  apply wp_bind (mwp_rkxRegisterBinderKp version h₆)
  rintro _ w₇ ⟨R, hprobe, h₇⟩
  exact mwp_return h₇ fun _ h' => ⟨R, hprobe, h'⟩

/-- Loaded or not, in the end nothing is left. -/
theorem mwp_rkxModule (version : KernelVersion) (h : Stage ∅ ∅ w) :
    mwp jhash hash (rkxModule version) (fun _ => Unloaded) w := by
  apply wp_bind (mwp_rkxInit version h)
  rintro (_ | _) w₁ h₁
  · exact mwp_unloaded h₁ fun _ h' => h'
  · exact mwp_rkxExit h₁

end Stages

/-- In every run, whatever fails and whenever commands arrive: nothing is undone that
is not registered and nothing is registered twice; nothing is registered without
the family; the run can be completed; and when it is, everything that was
registered has been undone as often as it was registered, and both tables are
empty. -/
theorem lifecycle_undone (jhash : List UInt8 → UInt32) (hash : UInt32 → Fin 64)
    (version : KernelVersion) (tables : RkxTables) {rest : ModProc Unit} {w : ModWorld}
    (steps : Steps modSem (Command jhash hash) (rkxModule version, .loaded tables) (rest, w)) :
    Balanced w.log ∧
      (∀ r ∈ held w.log, Resource.genl ∈ held w.log) ∧
      (∃ w', Steps modSem (Command jhash hash) (rest, w) (ret (), w')) ∧
      (rest = ret () →
        held w.log = ∅ ∧
        (∀ r, w.log.count (.acquire r) = w.log.count (.release r)) ∧
        w.tables = ⟨rkxInitNetUid, rkxInitFreeAsync⟩) := by
  have hwp : mwp jhash hash rest (fun _ => ModWorld.Unloaded) w :=
    wp_steps (mwp_rkxModule version (ModWorld.stage_loaded tables)) steps
  have hsound : w.Sound := wp_inside hwp
  -- if every registration succeeds from here on, the program ends
  have hfinish : Steps modSem (Command jhash hash) (rest, w) _ :=
    steps_run (modSem_modOracle fun _ => false) rest w
  refine ⟨hsound.balanced, hsound.genl, ⟨_, hfinish⟩, ?_⟩
  rintro rfl
  obtain ⟨hstage, htables⟩ := wp_returned hwp
  have hnone : held w.log = ∅ := by
    rw [hstage.held, Finset.coe_empty]
  refine ⟨hnone, fun r => ?_, htables⟩
  apply hsound.balanced.count_eq_of_not_held
  rw [hnone]
  exact Set.notMem_empty r

/-- What an attempt to load leaves when the signal hook cannot be registered. -/
def signalFails : ModWorld :=
  ((rkxModule ⟨false, false⟩).run (modOracle fun r => decide (r = .signal))
    (.loaded ⟨rkxInitNetUid, rkxInitFreeAsync⟩)).2

/-- The family and the three binder hooks, registered before, are undone. -/
theorem lifecycle_undone_signalFails :
    signalFails.log = [.release .genl, .release .allocBuf, .release .reply, .release .trans,
      .acquire .trans, .acquire .reply, .acquire .allocBuf, .acquire .genl] ∧
    held signalFails.log = ∅ ∧
    signalFails.tables = ⟨rkxInitNetUid, rkxInitFreeAsync⟩ := by
  have hundone := lifecycle_undone (fun _ => 0) (fun _ => 0) ⟨false, false⟩
    ⟨rkxInitNetUid, rkxInitFreeAsync⟩
    (steps_run (modSem_modOracle fun r => decide (r = .signal)) _ _)
  obtain ⟨-, -, -, hend⟩ := hundone
  exact ⟨rfl, (hend rfl).1, (hend rfl).2.2⟩

end ReKernelX
