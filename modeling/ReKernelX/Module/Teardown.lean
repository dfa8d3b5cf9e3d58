import ReKernelX.Module.Lifecycle

/-!
# Unloading while the module's code runs

A registration lets the kernel call into the module, and undoing it does not
stop the calls that are under way: a tracepoint or packet hook that was entered
before it was removed runs on, a handler of the transaction probe may still put
work on the queue, a command may still be changing a table. All of that code
uses things that `rkx_exit` takes away: every hook reports through the netlink
family, the packet hook and the probe read the tables, and the probe needs its
queue.

The same program as in the life of the module is run here in a world that knows
which calls are under way and what is queued. What the module gets from the kernel
is when a call returns: removing a probe or the family, when none of its
handlers runs; `tracepoint_synchronize_unregister`, when no hook runs any more that
is not registered; flushing the queue, when it is empty. The order of `rkx_exit`
does the rest: nothing of the module runs without what it uses, and when the
program has returned nothing of it runs at all.
-/

set_option autoImplicit false

namespace ReKernelX

open Proc Ledger ModWorld

/-! ### Code under way -/

/-- Hooks that are removed without waiting for those that run. -/
def Resource.Hook : Resource → Prop
  | .allocBuf | .reply | .trans | .signal | .netfilter => True
  | .genl | .workqueue | .kallsymsProbe | .transactionProbe => False

/-- What the kernel calls into the module for. The probe on `kallsyms_lookup_name` has no
handler, and the queue runs what is put on it. -/
def Resource.Runs (r : Resource) : Prop := r ≠ .workqueue ∧ r ≠ .kallsymsProbe

/-- Which tables are initialised. -/
structure Ready where
  netUid : Bool
  freeAsync : Bool

/-- The module, the calls into it that are under way, by what they were made for,
and the number of works on `rkx_free_wq`. -/
structure LiveWorld where
  mod : ModWorld
  running : List Resource
  queued : ℕ
  ready : Ready

namespace LiveWorld

/-- The module when `rkx_init` is called. -/
def loaded (tables : RkxTables) : LiveWorld := ⟨ModWorld.loaded tables, [], 0, ⟨false, false⟩⟩

/-- What is registered. -/
def registered (w : LiveWorld) : Set Resource := held w.mod.log

end LiveWorld

namespace ModCall

/-- What has to be the case before a step returns. -/
def Waited (w : LiveWorld) : ModCall → Prop
  | .unregister r => r.Hook ∨ r ∉ w.running
  | .flushWorkqueue => w.queued = 0
  | .synchronize => ∀ r ∈ w.running, r.Hook → r ∈ w.registered
  | _ => True

/-- The packet hooks are registered in one namespace after the other, so some may be
running before it is known that all of them can be had. -/
def started (n : ℕ) : ModCall → List Resource
  | .register .netfilter => List.replicate n .netfilter
  | _ => []

def readyAfter (ready : Ready) : ModCall → Ready
  | .initNetUid => { ready with netUid := true }
  | .initFreeAsync => { ready with freeAsync := true }
  | .destroyNetUid => { ready with netUid := false }
  | .destroyFreeAsync => { ready with freeAsync := false }
  | _ => ready

end ModCall

/-- The steps of loading and unloading, with what they wait for. -/
def liveSem : Sem ModCall ModCall.Answer LiveWorld := fun i w a w' =>
  i.Waited w ∧ ∃ mod' n, modSem i w.mod a mod' ∧
    w' = ⟨mod', i.started n ++ w.running, w.queued, i.readyAfter w.ready⟩

/-- What the rest of the kernel does with the module in the meantime. -/
inductive Activity (jhash : List UInt8 → UInt32) (hash : UInt32 → Fin 64) :
    LiveWorld → LiveWorld → Prop
  /-- A hook, a probe or a command handler is entered. -/
  | start {w : LiveWorld} {r : Resource} (registered : r ∈ w.registered) (runs : r.Runs) :
      Activity jhash hash w { w with running := r :: w.running }
  | finish {w : LiveWorld} {r : Resource} (running : r ∈ w.running) :
      Activity jhash hash w { w with running := w.running.erase r }
  /-- A command handler does its work. -/
  | command {w : LiveWorld} (running : Resource.genl ∈ w.running) (handler : Handler)
      (info : GenlInfo) (kmallocOk : Bool) :
      Activity jhash hash w { w with mod := { w.mod with
        tables := (handler.run jhash hash info kmallocOk w.mod.tables).2 } }
  /-- The transaction probe queues what it took off. -/
  | queue {w : LiveWorld} (running : Resource.transactionProbe ∈ w.running) :
      Activity jhash hash w { w with queued := w.queued + 1 }
  /-- The queue runs a work. -/
  | work {w : LiveWorld} {n : ℕ} (queued : w.queued = n + 1) :
      Activity jhash hash w { w with queued := n }

namespace LiveWorld

/-- What runs has what it uses. -/
structure Safe (w : LiveWorld) : Prop where
  family : ∀ r ∈ w.running, Resource.genl ∈ w.registered
  ready : ∀ r ∈ w.running, w.ready = ⟨true, true⟩
  queue : 0 < w.queued ∨ Resource.transactionProbe ∈ w.running → Resource.workqueue ∈ w.registered

/-- Between the initialisation of the tables and their end: only hooks run that are
no longer registered, and the probe is not there without its queue. -/
structure Orderly (w : LiveWorld) : Prop where
  ready : w.ready = ⟨true, true⟩
  running : ∀ r ∈ w.running, r ∈ w.registered ∨ r.Hook
  family : ∀ r ∈ w.running, Resource.genl ∈ w.registered
  probe : Resource.transactionProbe ∈ w.registered → Resource.workqueue ∈ w.registered
  queue : 0 < w.queued → Resource.workqueue ∈ w.registered

/-- Nothing runs and nothing can be started. -/
structure Idle (w : LiveWorld) : Prop where
  registered : w.registered = ∅
  running : w.running = []
  queued : w.queued = 0

variable {jhash : List UInt8 → UInt32} {hash : UInt32 → Fin 64} {w w' : LiveWorld} {r : Resource}

theorem Orderly.registered_of_running (h : w.Orderly) (running : r ∈ w.running) (hook : ¬ r.Hook) :
    r ∈ w.registered := (h.running r running).resolve_right hook

theorem Orderly.safe (h : w.Orderly) : w.Safe where
  family := h.family
  ready _ _ := h.ready
  queue := by
    intro hqueue
    rcases hqueue with hqueued | hprobe
    · exact h.queue hqueued
    · exact h.probe (h.registered_of_running hprobe not_false)

theorem Idle.safe (h : w.Idle) : w.Safe := by
  refine ⟨?_, ?_, ?_⟩ <;> simp [h.running, h.queued]

/-- Only what runs or is registered can do anything. -/
theorem Idle.no_activity (h : w.Idle) : ¬ Activity jhash hash w w' := by
  intro activity
  cases activity with
  | start registered _ =>
    rw [h.registered] at registered
    exact registered
  | finish running | command running _ _ _ | queue running =>
    rw [h.running] at running
    exact List.not_mem_nil running
  | work queued =>
    rw [h.queued] at queued
    exact absurd queued (Nat.succ_ne_zero _).symm

/-- What is registered does not depend on what runs. -/
theorem registered_of_activity (activity : Activity jhash hash w w') :
    w'.registered = w.registered := by
  cases activity <;> rfl

theorem Orderly.activity (h : w.Orderly) (sound : w.mod.Sound)
    (activity : Activity jhash hash w w') : w'.Orderly := by
  cases activity with
  | @start r registered runs =>
    refine { h with running := ?_, family := ?_ }
    · intro r' hr'
      rcases List.mem_cons.mp hr' with rfl | hr'
      · exact .inl registered
      · exact h.running r' hr'
    · intro _ _
      exact sound.genl r registered
  | finish _ =>
    exact { h with
      running := fun r' hr' => h.running r' (List.mem_of_mem_erase hr')
      family := fun r' hr' => h.family r' (List.mem_of_mem_erase hr') }
  | command _ handler info kmallocOk => exact ⟨h.ready, h.running, h.family, h.probe, h.queue⟩
  | queue running =>
    -- the probe waits for its handlers when it is removed, so it is registered
    have hprobe := h.registered_of_running running not_false
    exact { h with queue := fun _ => h.probe hprobe }
  | @work n queued =>
    exact { h with queue := fun _ => h.queue (queued ▸ Nat.succ_pos n) }

/-- More may be registered, and packet hooks may be entered while the family is there. -/
theorem Orderly.grow (h : w.Orderly) (ready : w'.ready = w.ready) (queued : w'.queued = w.queued)
    (more : w.registered ⊆ w'.registered)
    (running : ∀ r ∈ w'.running, r ∈ w.running ∨ r = .netfilter ∧ Resource.genl ∈ w.registered)
    (probe : Resource.transactionProbe ∈ w'.registered →
      Resource.transactionProbe ∈ w.registered ∨ Resource.workqueue ∈ w.registered) :
    w'.Orderly where
  ready := ready.trans h.ready
  running r hr := by
    rcases running r hr with hr | ⟨rfl, -⟩
    · exact (h.running r hr).imp_left fun hreg => more hreg
    · exact .inr trivial
  family r hr := by
    rcases running r hr with hr | ⟨-, hgenl⟩
    · exact more (h.family r hr)
    · exact more hgenl
  probe hprobe := by
    rcases probe hprobe with hprobe | hqueue
    · exact more (h.probe hprobe)
    · exact more hqueue
  queue hqueued := more (h.queue (queued ▸ hqueued))

/-- Undoing a registration other than the family's, and the queue's only when it is not
needed. What is waited for is that only hooks run on. -/
theorem Orderly.unregister (h : w.Orderly) (ready : w'.ready = w.ready)
    (queued : w'.queued = w.queued) (running : w'.running = w.running)
    (registered : w'.registered = w.registered \ {r}) (waited : r.Hook ∨ r ∉ w.running)
    (family : r ≠ .genl)
    (queue : r = .workqueue → Resource.transactionProbe ∉ w.registered ∧ w.queued = 0) :
    w'.Orderly where
  ready := ready.trans h.ready
  running r' hr' := by
    rw [running] at hr'
    by_cases heq : r' = r
    · rw [heq] at hr' ⊢
      exact .inr (waited.resolve_right (not_not_intro hr'))
    · rw [registered]
      exact (h.running r' hr').imp_left fun hreg => ⟨hreg, heq⟩
  family r' hr' := by
    rw [running] at hr'
    rw [registered]
    exact ⟨h.family r' hr', family.symm⟩
  probe hprobe := by
    rw [registered] at hprobe ⊢
    exact ⟨h.probe hprobe.1, fun heq => (queue heq.symm).1 hprobe.1⟩
  queue hqueued := by
    rw [queued] at hqueued
    rw [registered]
    exact ⟨h.queue hqueued, fun heq => hqueued.ne' (queue heq.symm).2⟩

end LiveWorld

/-! ### What was proved without the code under way -/

/-- The steps that keep order, when the things in `B` are registered. -/
def ModCall.Allowed (B : Finset Resource) : ModCall → Prop
  | .register r => (r = .transactionProbe → Resource.workqueue ∈ B) ∧
      (r = .netfilter → Resource.genl ∈ B)
  | .unregister r => r ≠ .genl ∧ r ≠ .workqueue ∧ r ∉ B
  | .getFlag _ | .setFlag _ _ | .kallsymsLookupName _ | .flushWorkqueue | .synchronize => True
  | .initNetUid | .initFreeAsync | .destroyNetUid | .destroyFreeAsync => False

section Lifting

variable {jhash : List UInt8 → UInt32} {hash : UInt32 → Fin 64} {w w' : LiveWorld}
  {B : Finset Resource}

theorem command_of_activity (h : w.Orderly) (activity : Activity jhash hash w w') :
    Relation.ReflTransGen (Command jhash hash) w.mod w'.mod := by
  cases activity with
  | command running handler info kmallocOk =>
    -- the family waits for its handlers when it is removed, so it is registered
    exact .single ⟨h.registered_of_running running not_false, handler, info, kmallocOk, rfl⟩
  | _ => exact .refl

theorem started_cases {i : ModCall} {n : ℕ} {r : Resource} (h : r ∈ i.started n ++ w.running) :
    r ∈ w.running ∨ r = .netfilter ∧ i = .register .netfilter := by
  rcases List.mem_append.mp h with hr | hr
  · unfold ModCall.started at hr
    split at hr
    · exact .inr ⟨List.eq_of_mem_replicate hr, rfl⟩
    · exact absurd hr List.not_mem_nil
  · exact .inl hr

/-- What an allowed step does to the things that are registered. -/
theorem orderly_call {i : ModCall} {a : i.Answer} (allowed : i.Allowed B) (h : w.Orderly)
    (base : ∀ r ∈ B, r ∈ w.registered) (answered : liveSem i w a w') :
    w'.Orderly ∧ ∀ r ∈ B, r ∈ w'.registered := by
  obtain ⟨waited, mod', n, hmod, rfl⟩ := answered
  have hrunning : ∀ r ∈ i.started n ++ w.running,
      r ∈ w.running ∨ r = .netfilter ∧ i = .register .netfilter := fun r hr => started_cases hr
  cases i with
  | register r =>
    have hfamily : ∀ r' ∈ (ModCall.register r).started n ++ w.running,
        r' ∈ w.running ∨ r' = .netfilter ∧ Resource.genl ∈ w.registered := by
      intro r' hr'
      refine (hrunning r' hr').imp_right fun hnet => ⟨hnet.1, ?_⟩
      exact base _ (allowed.2 (ModCall.register.inj hnet.2))
    rcases hmod with ⟨-, rfl⟩ | ⟨-, rfl⟩
    · have hmore : w.registered ⊆ insert r w.registered := Set.subset_insert r _
      refine ⟨h.grow rfl rfl hmore hfamily ?_, fun r' hr' => hmore (base r' hr')⟩
      intro hprobe
      rcases hprobe with heq | hprobe
      · exact .inr (base _ (allowed.1 heq.symm))
      · exact .inl hprobe
    · exact ⟨h.grow rfl rfl subset_rfl hfamily .inl, base⟩
  | unregister r =>
    obtain rfl := hmod
    refine ⟨h.unregister rfl rfl rfl rfl waited allowed.1 fun heq => absurd heq allowed.2.1, ?_⟩
    intro r' hr'
    exact ⟨base r' hr', fun heq => allowed.2.2 (heq ▸ hr')⟩
  | setFlag r value =>
    obtain rfl := hmod
    exact ⟨⟨h.ready, h.running, h.family, h.probe, h.queue⟩, base⟩
  | getFlag r =>
    obtain ⟨-, rfl⟩ := hmod
    exact ⟨h, base⟩
  | kallsymsLookupName _ | flushWorkqueue | synchronize =>
    obtain rfl := hmod
    exact ⟨h, base⟩
  | initNetUid | initFreeAsync | destroyNetUid | destroyFreeAsync => exact allowed.elim

/-- What was proved with only commands between the steps holds with all the code that
may be under way, and order is kept with it. -/
theorem orderly_lift (B : Finset Resource) :
    Lift modSem (Command jhash hash) Sound liveSem (Activity jhash hash) LiveWorld.mod
      (ModCall.Allowed B) (fun w => w.Orderly ∧ ∀ r ∈ B, r ∈ w.registered) where
  call := by
    intro i w a w' answered
    obtain ⟨-, mod', n, hmod, rfl⟩ := answered
    exact hmod
  move h activity := command_of_activity h.1 activity
  keeps_call allowed _ h answered := orderly_call allowed h.1 h.2 answered
  keeps_move sound h activity := by
    refine ⟨h.1.activity sound activity, ?_⟩
    rw [LiveWorld.registered_of_activity activity]
    exact h.2

end Lifting

/-! ### The stages, with the code under way -/

section Stages

variable {jhash : List UInt8 → UInt32} {hash : UInt32 → Fin 64} {α : Type}
  {F R : Finset Resource} {w : LiveWorld} {r : Resource}

/-- The weakest precondition of a part of the module's life, with its code under way. -/
abbrev lwp (jhash : List UInt8 → UInt32) (hash : UInt32 → Fin 64) (p : ModProc α)
    (Q : α → LiveWorld → Prop) (w : LiveWorld) : Prop :=
  p.wp liveSem (Activity jhash hash) (fun w => w.mod.Sound ∧ w.Safe) Q w

/-- A stage of the program, in order. -/
structure LiveStage (F R : Finset Resource) (w : LiveWorld) : Prop where
  stage : Stage F R w.mod
  orderly : w.Orderly

theorem LiveStage.mem_registered_iff (h : LiveStage F R w) : r ∈ w.registered ↔ r ∈ R := by
  rw [LiveWorld.registered, h.stage.held, Finset.mem_coe]

theorem LiveStage.inside (h : LiveStage F R w) : w.mod.Sound ∧ w.Safe :=
  ⟨h.stage.sound, h.orderly.safe⟩

theorem LiveStage.stable (F R : Finset Resource) :
    Stable (Activity jhash hash) (LiveStage F R) := by
  intro w w' h activity
  exact ⟨(Stage.stable jhash hash).of_steps h.stage (command_of_activity h.orderly activity),
    h.orderly.activity h.stage.sound activity⟩

/-- A part of the program whose steps keep order. -/
theorem lwp_of_mwp (B : Finset Resource) {p : ModProc α} {Q : α → ModWorld → Prop}
    (uses : p.Uses (ModCall.Allowed B)) (h : mwp jhash hash p Q w.mod) (orderly : w.Orderly)
    (base : ∀ r ∈ B, r ∈ w.registered) :
    lwp jhash hash p (fun a w' => Q a w'.mod ∧ w'.Orderly) w := by
  have lifted := (orderly_lift B).wp uses h ⟨orderly, base⟩
  apply wp_weaken (wp_mono lifted fun a w' h' => ⟨h'.1, h'.2.1⟩)
  intro w' h'
  exact ⟨h'.1, h'.2.1.safe⟩

theorem uses_registerFlagged {B : Finset Resource} (h : (ModCall.register r).Allowed B) :
    (registerFlagged r).Uses (ModCall.Allowed B) := by
  apply Uses.bind (Uses.perform h)
  intro ok
  cases ok with
  | false => trivial
  | true => exact ⟨trivial, fun _ => trivial⟩

theorem uses_unregisterFlagged {B : Finset Resource} (h : (ModCall.unregister r).Allowed B) :
    (unregisterFlagged r).Uses (ModCall.Allowed B) := by
  apply Uses.bind (Uses.perform trivial)
  intro hooked
  cases hooked with
  | false => trivial
  | true => exact Uses.bind (Uses.perform h) fun _ => Uses.perform trivial

theorem lwp_registerFlagged (h : LiveStage R R w) (free : r ∉ R) (needs : r = .genl ∨ .genl ∈ R)
    (queue : r = .transactionProbe → Resource.workqueue ∈ R) :
    lwp jhash hash (registerFlagged r)
      (fun ok w' => if ok then LiveStage (insert r R) (insert r R) w' else LiveStage R R w') w := by
  have hfamily : r = .netfilter → Resource.genl ∈ R := by
    intro hr
    exact needs.resolve_left fun hgenl => by simp [hr] at hgenl
  apply wp_mono (lwp_of_mwp R (uses_registerFlagged ⟨queue, hfamily⟩)
    (mwp_registerFlagged h.stage free needs) h.orderly fun r' hr' => h.mem_registered_iff.mpr hr')
  intro ok w' h'
  cases ok with
  | false => exact ⟨h'.1, h'.2⟩
  | true => exact ⟨h'.1, h'.2⟩

theorem lwp_unregisterFlagged (r : Resource) (h : LiveStage R R w) (family : r ≠ .genl)
    (queue : r ≠ .workqueue) :
    lwp jhash hash (unregisterFlagged r) (fun _ => LiveStage (R.erase r) (R.erase r)) w := by
  have allowed : (ModCall.unregister r).Allowed ∅ := ⟨family, queue, Finset.notMem_empty r⟩
  apply wp_mono (lwp_of_mwp ∅ (uses_unregisterFlagged allowed)
    (mwp_unregisterFlagged r h.stage fun hr => absurd hr family) h.orderly (by simp))
  intro _ w' h'
  exact ⟨h'.1, h'.2⟩

theorem lwp_clearFlag (h : LiveStage F R w) :
    lwp jhash hash (Mod.setFlag r false) (fun _ => LiveStage (F.erase r) R) w := by
  have uses : (Mod.setFlag r false).Uses (ModCall.Allowed ∅) := ⟨trivial, fun _ => trivial⟩
  have hclear : mwp jhash hash (Mod.setFlag r false) (fun _ => Stage (F.erase r) R) w.mod :=
    mwp_clearFlag h.stage fun _ h' => h'
  apply wp_mono (lwp_of_mwp ∅ uses hclear h.orderly (by simp))
  intro _ w' h'
  exact ⟨h'.1, h'.2⟩

theorem lwp_return {a : α} {Q : α → LiveWorld → Prop} (h : LiveStage F R w)
    (post : ∀ w', LiveStage F R w' → Q a w') : lwp jhash hash (pure a) Q w :=
  wp_ret (LiveStage.stable F R) (fun w' h' => ⟨h'.inside, post w' h'⟩) h

theorem lwp_getFlag {k : Bool → ModProc α} {Q : α → LiveWorld → Prop} (h : LiveStage F R w)
    (next : ∀ w', LiveStage F R w' → lwp jhash hash (k (decide (r ∈ F))) Q w') :
    lwp jhash hash (Mod.getFlag r >>= k) Q w := by
  apply wp_call (LiveStage.stable F R) (fun _ h' => h'.inside) _ h
  rintro w₁ value w' h₁ ⟨-, mod', n, ⟨rfl, rfl⟩, rfl⟩
  rw [h₁.stage.flag]
  exact next _ ⟨h₁.stage, h₁.orderly⟩

/-- Without the probe, a queue that has been flushed stays empty. -/
theorem stable_flushed (probe : Resource.transactionProbe ∉ R) :
    Stable (Activity jhash hash) fun w => LiveStage F R w ∧ w.queued = 0 := by
  intro w w' h activity
  refine ⟨LiveStage.stable F R w w' h.1 activity, ?_⟩
  cases activity with
  | queue running =>
    have hprobe := h.1.orderly.registered_of_running running not_false
    exact absurd (h.1.mem_registered_iff.mp hprobe) probe
  | work queued => exact absurd (h.2.symm.trans queued) (Nat.succ_ne_zero _).symm
  | _ => exact h.2

/-- The queue is destroyed when the probe has gone and what it queued has run. -/
theorem lwp_rkxUnregisterBinderKp (h : LiveStage R R w) :
    lwp jhash hash rkxUnregisterBinderKp
      (fun _ => LiveStage ((R.erase .transactionProbe).erase .workqueue)
        ((R.erase .transactionProbe).erase .workqueue)) w := by
  apply wp_bind (lwp_unregisterFlagged .transactionProbe h (by simp) (by simp))
  intro _ w₁ h₁
  apply lwp_getFlag h₁
  intro w₂ h₂
  by_cases hwq : Resource.workqueue ∈ R.erase .transactionProbe
  · rw [decide_eq_true hwq]
    apply wp_call (LiveStage.stable _ _) (fun _ h' => h'.inside) _ h₂
    rintro w₃ ⟨⟩ w' h₃ ⟨hempty, mod', n, rfl, rfl⟩
    have hprobe : Resource.transactionProbe ∉ R.erase .transactionProbe := Finset.notMem_erase _ _
    have hflushed : LiveStage (R.erase .transactionProbe) (R.erase .transactionProbe) w₃ ∧
      w₃.queued = 0 := ⟨h₃, hempty⟩
    apply wp_call (stable_flushed hprobe) (fun _ h' => h'.1.inside) _ hflushed
    rintro w₄ ⟨⟩ w' ⟨h₄, hempty⟩ ⟨waited, mod', n, rfl, rfl⟩
    apply lwp_clearFlag
    refine ⟨h₄.stage.unregister hwq (by simp), ?_⟩
    refine h₄.orderly.unregister rfl rfl rfl rfl waited (by simp) fun _ => ⟨?_, hempty⟩
    rw [h₄.mem_registered_iff]
    exact hprobe
  · rw [decide_eq_false hwq, Finset.erase_eq_of_notMem hwq]
    exact lwp_return h₂ fun _ h' => h'

theorem uses_rkxUnregisterBinder : rkxUnregisterBinder.Uses (ModCall.Allowed ∅) := by
  have flagged : ∀ r : Resource, r ≠ .genl → r ≠ .workqueue →
      (unregisterFlagged r).Uses (ModCall.Allowed ∅) :=
    fun r family queue => uses_unregisterFlagged ⟨family, queue, Finset.notMem_empty r⟩
  apply Uses.bind (flagged .trans (by simp) (by simp))
  intro _
  apply Uses.bind (flagged .reply (by simp) (by simp))
  intro _
  exact flagged .allocBuf (by simp) (by simp)

theorem lwp_rkxUnregisterBinder (h : LiveStage R R w) :
    lwp jhash hash rkxUnregisterBinder
      (fun _ => LiveStage (((R.erase .trans).erase .reply).erase .allocBuf)
        (((R.erase .trans).erase .reply).erase .allocBuf)) w := by
  apply wp_mono (lwp_of_mwp ∅ uses_rkxUnregisterBinder (mwp_rkxUnregisterBinder h.stage) h.orderly
    (by simp))
  intro _ w' h'
  exact ⟨h'.1, h'.2⟩

/-- All that runs is registered, once the hooks that were removed have been waited for. -/
theorem stable_synchronized :
    Stable (Activity jhash hash) fun w =>
      LiveStage F R w ∧ ∀ r ∈ w.running, r ∈ w.registered := by
  intro w w' h activity
  refine ⟨LiveStage.stable F R w w' h.1 activity, ?_⟩
  cases activity with
  | start registered _ =>
    intro r' hr'
    rcases List.mem_cons.mp hr' with rfl | hr'
    · exact registered
    · exact h.2 r' hr'
  | finish _ => exact fun r' hr' => h.2 r' (List.mem_of_mem_erase hr')
  | _ => exact h.2

theorem stable_idle (P : LiveWorld → Prop) :
    Stable (Activity jhash hash) fun w => w.Idle ∧ P w :=
  fun _ _ h activity => absurd activity h.1.no_activity

theorem inside_of_idle (h : w.Idle) (stage : Stage F R w.mod) : w.mod.Sound ∧ w.Safe :=
  ⟨stage.sound, h.safe⟩

/-- With the family as the last thing registered, and all that runs registered, nothing
runs when the family has gone. -/
theorem idle_of_synchronized {w' : LiveWorld} (h : LiveStage F R w)
    (synchronized : ∀ r ∈ w.running, r ∈ w.registered) (last : ∀ r ∈ R, r = Resource.genl)
    (waited : Resource.genl ∉ w.running) (registered : w'.registered = ∅)
    (running : w'.running = w.running) (queued : w'.queued = w.queued) : w'.Idle where
  registered := registered
  running := by
    rw [running]
    apply List.eq_nil_iff_forall_not_mem.mpr
    intro r hr
    have hgenl := last r (h.mem_registered_iff.mp (synchronized r hr))
    exact waited (hgenl ▸ hr)
  queued := by
    rw [queued]
    apply Nat.eq_zero_of_not_pos
    intro hpos
    have hqueue := last _ (h.mem_registered_iff.mp (h.orderly.queue hpos))
    simp at hqueue

/-- With nothing left to run, clearing the flag is undisturbed. -/
theorem lwp_clearGenl (none : R.erase .genl = ∅) (idle : w.Idle) (stage : Stage R ∅ w.mod) :
    lwp jhash hash (Mod.setFlag .genl false) (fun _ w' => w'.Idle ∧ Stage ∅ ∅ w'.mod) w := by
  have start : w.Idle ∧ Stage R ∅ w.mod := ⟨idle, stage⟩
  apply wp_call (stable_idle fun w => Stage R ∅ w.mod) (fun _ h' => inside_of_idle h'.1 h'.2) _
    start
  rintro w₁ ⟨⟩ w' ⟨hidle, h₁⟩ ⟨-, mod', n, rfl, rfl⟩
  have hclear := h₁.clearFlag .genl
  rw [none] at hclear
  apply wp_ret (stable_idle fun w => Stage ∅ ∅ w.mod) (fun _ h' => ⟨inside_of_idle h'.1 h'.2, h'⟩)
  exact ⟨⟨hidle.registered, hidle.running, hidle.queued⟩, hclear⟩

theorem lwp_rkxUnregisterGenl (h : LiveStage R R w)
    (synchronized : ∀ r ∈ w.running, r ∈ w.registered) (last : ∀ r ∈ R, r = Resource.genl) :
    lwp jhash hash rkxUnregisterGenl (fun _ w' => w'.Idle ∧ Stage ∅ ∅ w'.mod) w := by
  have start : LiveStage R R w ∧ ∀ r ∈ w.running, r ∈ w.registered := ⟨h, synchronized⟩
  apply wp_call stable_synchronized (fun _ h' => h'.1.inside) _ start
  rintro w₁ _ w' ⟨h₁, hsync₁⟩ ⟨-, mod', n, ⟨rfl, rfl⟩, rfl⟩
  have hnone : R.erase .genl = ∅ := by
    apply Finset.eq_empty_of_forall_notMem
    intro r hr
    exact Finset.ne_of_mem_erase hr (last r (Finset.mem_of_mem_erase hr))
  rw [h₁.stage.flag]
  by_cases hgenl : Resource.genl ∈ R
  · rw [decide_eq_true hgenl]
    have again : LiveStage R R w₁ ∧ ∀ r ∈ w₁.running, r ∈ w₁.registered := ⟨h₁, hsync₁⟩
    apply wp_call stable_synchronized (fun _ h' => h'.1.inside) _ again
    rintro w₂ ⟨⟩ w' ⟨h₂, hsync₂⟩ ⟨waited, mod', n, rfl, rfl⟩
    have hstage := h₂.stage.unregister hgenl fun _ => last
    rw [hnone] at hstage
    refine lwp_clearGenl hnone (idle_of_synchronized h₂ hsync₂ last ?_ ?_ rfl rfl) hstage
    · exact waited.resolve_left not_false
    · exact hstage.held.trans Finset.coe_empty
  · rw [decide_eq_false hgenl]
    have hempty : R = ∅ := (Finset.erase_eq_of_notMem hgenl).symm.trans hnone
    have hwaited : Resource.genl ∉ w₁.running := fun hr =>
      hgenl (h₁.mem_registered_iff.mp (hsync₁ _ hr))
    have hidle := idle_of_synchronized h₁ hsync₁ last hwaited
      (h₁.stage.held.trans (by rw [hempty, Finset.coe_empty])) rfl rfl
    have hstage := h₁.stage
    rw [hempty] at hstage
    exact wp_ret (stable_idle fun w => Stage ∅ ∅ w.mod)
      (fun _ h' => ⟨inside_of_idle h'.1 h'.2, h'⟩) ⟨hidle, hstage⟩

/-- Emptying the tables. -/
def ModCall.Destroys : ModCall → Prop
  | .destroyNetUid | .destroyFreeAsync => True
  | _ => False

/-- When nothing runs, nothing is started by emptying a table. -/
theorem idle_lift : Lift modSem (Command jhash hash) Sound liveSem (Activity jhash hash)
    LiveWorld.mod ModCall.Destroys LiveWorld.Idle where
  call := by
    intro i w a w' answered
    obtain ⟨-, mod', n, hmod, rfl⟩ := answered
    exact hmod
  move h activity := absurd activity h.no_activity
  keeps_call := by
    intro i w a w' destroys _ h answered
    obtain ⟨-, mod', n, hmod, rfl⟩ := answered
    cases i with
    | destroyNetUid | destroyFreeAsync =>
      obtain rfl := hmod
      exact ⟨h.registered, h.running, h.queued⟩
    | _ => exact destroys.elim
  keeps_move _ h activity := absurd activity h.no_activity

theorem lwp_destroyTables (h : w.Idle) (stage : Stage ∅ ∅ w.mod) :
    lwp jhash hash (do Mod.destroyFreeAsync; Mod.destroyNetUid)
      (fun _ w' => w'.mod.Unloaded ∧ w'.Idle) w := by
  have uses : (do Mod.destroyFreeAsync; Mod.destroyNetUid).Uses ModCall.Destroys :=
    Uses.bind (Uses.perform trivial) fun _ => Uses.perform trivial
  apply wp_weaken (idle_lift.wp uses (mwp_destroyTables stage) h)
  intro w' h'
  exact ⟨h'.1, h'.2.safe⟩

/-- `rkx_exit` ends with nothing of the module running. -/
theorem lwp_rkxExit (h : w.mod.Undoable) (orderly : w.Orderly) :
    lwp jhash hash rkxExit (fun _ w' => w'.mod.Unloaded ∧ w'.Idle) w := by
  obtain ⟨R, hprobe, h⟩ := h
  apply wp_bind (lwp_rkxUnregisterBinderKp ⟨h, orderly⟩)
  intro _ w₁ h₁
  apply wp_bind (lwp_unregisterFlagged .netfilter h₁ (by simp) (by simp))
  intro _ w₂ h₂
  apply wp_bind (lwp_unregisterFlagged .signal h₂ (by simp) (by simp))
  intro _ w₃ h₃
  apply wp_bind (lwp_rkxUnregisterBinder h₃)
  intro _ w₄ h₄
  apply wp_call (LiveStage.stable _ _) (fun _ h' => h'.inside) _ h₄
  rintro w₅ ⟨⟩ w' h₅ ⟨waited, mod', n, rfl, rfl⟩
  -- the hooks were waited for, and the others never outlive their registration
  have hsync : ∀ r ∈ w₅.running, r ∈ w₅.registered := by
    intro r hr
    rcases h₅.orderly.running r hr with hregistered | hhook
    · exact hregistered
    · exact waited r hr hhook
  have hlast : ∀ r ∈ ((((((R.erase .transactionProbe).erase .workqueue).erase .netfilter).erase
      .signal).erase .trans).erase .reply).erase .allocBuf, r = Resource.genl := by
    intro r hr
    cases r <;> simp [hprobe] at hr ⊢
  apply wp_bind (lwp_rkxUnregisterGenl ⟨h₅.stage, h₅.orderly⟩ hsync hlast)
  intro _ w₆ h₆
  exact lwp_destroyTables h₆.1 h₆.2

theorem lwp_unloaded {a : α} {Q : α → LiveWorld → Prop} (h : w.mod.Unloaded ∧ w.Idle)
    (post : ∀ w', w'.mod.Unloaded ∧ w'.Idle → Q a w') : lwp jhash hash (pure a) Q w :=
  wp_ret (stable_idle fun w => w.mod.Unloaded)
    (fun w' h' => ⟨inside_of_idle h'.1 h'.2.1, post w' h'.symm⟩) h.symm

theorem lwp_rkxInitErr {Q : Bool → LiveWorld → Prop} (h : w.mod.Undoable) (orderly : w.Orderly)
    (post : ∀ w', w'.mod.Unloaded ∧ w'.Idle → Q false w') : lwp jhash hash rkxInitErr Q w := by
  apply wp_bind (lwp_rkxExit h orderly)
  intro _ w₁ h₁
  exact lwp_unloaded h₁ post

theorem uses_rkxRegisterBinder : rkxRegisterBinder.Uses (ModCall.Allowed ∅) := by
  have flagged : ∀ r : Resource, r ≠ .transactionProbe → r ≠ .netfilter →
      (registerFlagged r).Uses (ModCall.Allowed ∅) := fun r probe netfilter =>
    uses_registerFlagged ⟨fun hr => absurd hr probe, fun hr => absurd hr netfilter⟩
  have err : rkxRegisterBinderErr.Uses (ModCall.Allowed ∅) :=
    Uses.bind uses_rkxUnregisterBinder fun _ => trivial
  apply Uses.bind (flagged .allocBuf (by simp) (by simp))
  rintro (_ | _)
  · exact err
  apply Uses.bind (flagged .reply (by simp) (by simp))
  rintro (_ | _)
  · exact err
  apply Uses.bind (flagged .trans (by simp) (by simp))
  rintro (_ | _)
  · exact err
  · trivial

theorem uses_resolveBinderSymbols (version : KernelVersion) :
    (resolveBinderSymbols version).Uses (ModCall.Allowed ∅) := by
  have lookup : ∀ symbol : Symbol, (Mod.kallsymsLookupName symbol).Uses (ModCall.Allowed ∅) :=
    fun _ => ⟨trivial, fun _ => trivial⟩
  have copy : (lookupCopyFromBuffer version).Uses (ModCall.Allowed ∅) := by
    unfold lookupCopyFromBuffer
    split
    · trivial
    · exact lookup _
  have freeProc : (lookupFreeProc version).Uses (ModCall.Allowed ∅) := by
    unfold lookupFreeProc
    split
    · exact lookup _
    · trivial
  apply Uses.bind (lookup _)
  intro _
  apply Uses.bind (lookup _)
  intro _
  apply Uses.bind copy
  intro _
  apply Uses.bind (lookup _)
  intro _
  apply Uses.bind (lookup _)
  intro _
  exact Uses.bind freeProc fun _ => trivial

theorem lwp_undoBinderKp (h : w.mod.Undoable) (orderly : w.Orderly) :
    lwp jhash hash rkxUnregisterBinderKp (fun _ w' => w'.mod.Undoable ∧ w'.Orderly) w := by
  obtain ⟨R, hprobe, h⟩ := h
  apply wp_mono (lwp_rkxUnregisterBinderKp ⟨h, orderly⟩)
  intro _ w' h'
  refine ⟨⟨_, ?_, h'.stage⟩, h'.orderly⟩
  intro hmem
  exact hprobe (Finset.mem_of_mem_erase (Finset.mem_of_mem_erase hmem))

/-- The probe is registered after its queue. -/
theorem lwp_rkxRegisterBinderKp (version : KernelVersion)
    (h : LiveStage {.netfilter, .signal, .trans, .reply, .allocBuf, .genl}
      {.netfilter, .signal, .trans, .reply, .allocBuf, .genl} w) :
    lwp jhash hash (rkxRegisterBinderKp version) (fun _ w' => w'.mod.Undoable ∧ w'.Orderly) w := by
  apply wp_bind (lwp_registerFlagged h (by simp) (.inr (by simp)) (by simp))
  rintro (_ | _) w₁ h₁
  · exact lwp_undoBinderKp ⟨_, by simp, h₁.stage⟩ h₁.orderly
  have hregister : mwp jhash hash (Mod.register .kallsymsProbe) (fun ok w' => if ok then
      Stage _ (insert .kallsymsProbe _) w' else Stage _ _ w') w₁.mod :=
    mwp_register h₁.stage (by simp) (.inr (by simp))
      (fun _ h' => mwp_return h' fun _ h'' => h'') (fun _ h' => mwp_return h' fun _ h'' => h'')
  apply wp_bind (lwp_of_mwp ∅ (Uses.perform (by simp [ModCall.Allowed])) hregister h₁.orderly
    (by simp))
  rintro (_ | _) w₂ ⟨h₂, ho₂⟩
  · exact lwp_undoBinderKp ⟨_, by simp, h₂⟩ ho₂
  have hunregister : mwp jhash hash (Mod.unregister .kallsymsProbe) (fun _ => Stage _ _) w₂.mod :=
    mwp_unregister .kallsymsProbe h₂ (by simp) (by simp) fun _ h' => mwp_return h' fun _ h'' => h''
  rw [Finset.erase_insert (by simp)] at hunregister
  apply wp_bind (lwp_of_mwp ∅ (Uses.perform (by simp [ModCall.Allowed])) hunregister ho₂ (by simp))
  rintro _ w₃ ⟨h₃, ho₃⟩
  apply wp_bind (lwp_of_mwp ∅ (uses_resolveBinderSymbols version)
    (mwp_resolveBinderSymbols version h₃) ho₃ (by simp))
  rintro (_ | _) w₄ ⟨h₄, ho₄⟩
  · exact lwp_undoBinderKp ⟨_, by simp, h₄⟩ ho₄
  apply wp_bind (lwp_registerFlagged ⟨h₄, ho₄⟩ (by simp) (.inr (by simp)) (by simp))
  rintro (_ | _) w₅ h₅
  · exact lwp_undoBinderKp ⟨_, by simp, h₅.stage⟩ h₅.orderly
  exact lwp_return h₅ fun _ h' => ⟨⟨_, by simp, h'.stage⟩, h'.orderly⟩

/-- The tables are initialised before anything can use them. -/
theorem lwp_initTables {p : ModProc α} {Q : α → LiveWorld → Prop} (h : w.Idle)
    (stage : Stage ∅ ∅ w.mod) (next : ∀ w', LiveStage ∅ ∅ w' → lwp jhash hash p Q w') :
    lwp jhash hash (do Mod.initNetUid; Mod.initFreeAsync; p) Q w := by
  have start : w.Idle ∧ Stage ∅ ∅ w.mod := ⟨h, stage⟩
  apply wp_call (stable_idle fun w => Stage ∅ ∅ w.mod) (fun _ h' => inside_of_idle h'.1 h'.2) _
    start
  rintro w₁ ⟨⟩ w' ⟨hidle₁, h₁⟩ ⟨-, mod', n, rfl, rfl⟩
  apply wp_call (stable_idle fun w => Stage ∅ ∅ w.mod ∧ w.ready.netUid = true)
    (fun _ h' => inside_of_idle h'.1 h'.2.1)
  case h =>
    exact ⟨⟨hidle₁.registered, hidle₁.running, hidle₁.queued⟩,
      ⟨h₁.flag, h₁.held, h₁.balanced, h₁.genl⟩, rfl⟩
  rintro w₂ ⟨⟩ w' ⟨hidle₂, h₂, hready⟩ ⟨-, mod', n, rfl, rfl⟩
  apply next
  refine ⟨⟨h₂.flag, h₂.held, h₂.balanced, h₂.genl⟩, ?_, ?_, ?_, ?_, ?_⟩
  · change Ready.mk w₂.ready.netUid true = _
    rw [hready]
  all_goals simp [ModCall.started, hidle₂.running, hidle₂.queued]
  -- nothing is registered
  intro hprobe
  have hnone : Resource.transactionProbe ∈ w₂.registered := hprobe
  rw [hidle₂.registered] at hnone
  exact hnone.elim

theorem lwp_rkxInit (version : KernelVersion) (h : w.Idle) (stage : Stage ∅ ∅ w.mod) :
    lwp jhash hash (rkxInit version)
      (fun ok w' => if ok then w'.mod.Undoable ∧ w'.Orderly else w'.mod.Unloaded ∧ w'.Idle) w := by
  apply lwp_initTables h stage
  intro w₂ h₂
  apply wp_bind (lwp_registerFlagged h₂ (by simp) (.inl rfl) (by simp))
  rintro (_ | _) w₃ h₃
  · exact lwp_rkxInitErr ⟨_, by simp, h₃.stage⟩ h₃.orderly fun _ h' => h'
  apply wp_bind (lwp_of_mwp ∅ uses_rkxRegisterBinder (mwp_rkxRegisterBinder h₃.stage) h₃.orderly
    (by simp))
  rintro (_ | _) w₄ ⟨h₄, ho₄⟩
  · exact lwp_rkxInitErr h₄ ho₄ fun _ h' => h'
  apply wp_bind (lwp_registerFlagged ⟨h₄, ho₄⟩ (by simp) (.inr (by simp)) (by simp))
  rintro (_ | _) w₅ h₅
  · exact lwp_rkxInitErr ⟨_, by simp, h₅.stage⟩ h₅.orderly fun _ h' => h'
  apply wp_bind (lwp_registerFlagged h₅ (by simp) (.inr (by simp)) (by simp))
  rintro (_ | _) w₆ h₆
  -- packet hooks that were entered before one failed may still be running here
  · exact lwp_rkxInitErr ⟨_, by simp, h₆.stage⟩ h₆.orderly fun _ h' => h'
  apply wp_bind (lwp_rkxRegisterBinderKp version h₆)
  rintro _ w₇ ⟨⟨R, hprobe, h₇⟩, ho₇⟩
  exact lwp_return ⟨h₇, ho₇⟩ fun _ h' => ⟨⟨R, hprobe, h'.stage⟩, h'.orderly⟩

theorem lwp_rkxModule (version : KernelVersion) (h : w.Idle) (stage : Stage ∅ ∅ w.mod) :
    lwp jhash hash (rkxModule version) (fun _ w' => w'.mod.Unloaded ∧ w'.Idle) w := by
  apply wp_bind (lwp_rkxInit version h stage)
  rintro (_ | _) w₁ h₁
  · exact lwp_unloaded h₁ fun _ h' => h'
  · exact lwp_rkxExit h₁.1 h₁.2

end Stages

/-! ### Whole runs -/

section Runs

variable (jhash : List UInt8 → UInt32) (hash : UInt32 → Fin 64)

theorem LiveWorld.idle_loaded (tables : RkxTables) : (LiveWorld.loaded tables).Idle :=
  ⟨held_nil, rfl, rfl⟩

/-- What is under way can run to its end. -/
theorem exists_drained (w : LiveWorld) :
    ∃ w', Relation.ReflTransGen (Activity jhash hash) w w' ∧ w'.running = [] ∧ w'.queued = 0 := by
  obtain ⟨mod, running, queued, ready⟩ := w
  induction running with
  | nil =>
    induction queued with
    | zero => exact ⟨_, .refl, rfl, rfl⟩
    | succ n ih =>
      obtain ⟨w', steps, hdrained⟩ := ih
      exact ⟨w', steps.head (.work rfl), hdrained⟩
  | cons r running ih =>
    obtain ⟨w', steps, hdrained⟩ := ih
    have finish : Activity jhash hash ⟨mod, r :: running, queued, ready⟩
        ⟨mod, (r :: running).erase r, queued, ready⟩ := .finish List.mem_cons_self
    rw [List.erase_cons_head] at finish
    exact ⟨w', steps.head finish, hdrained⟩

/-- The answers when every registration succeeds. -/
def liveOracle (i : ModCall) (w : LiveWorld) : i.Answer × LiveWorld :=
  ((modOracle (fun _ => false) i w.mod).1,
    ⟨(modOracle (fun _ => false) i w.mod).2, w.running, w.queued, i.readyAfter w.ready⟩)

/-- Nothing has to be waited for when nothing is under way. -/
theorem liveSem_liveOracle (i : ModCall) {w : LiveWorld} (running : w.running = [])
    (queued : w.queued = 0) : liveSem i w (liveOracle i w).1 (liveOracle i w).2 := by
  refine ⟨?_, _, 0, modSem_modOracle (fun _ => false) i w.mod, ?_⟩
  · cases i with
    | unregister r => exact .inr (by simp [running])
    | flushWorkqueue => exact queued
    | synchronize => simp [ModCall.Waited, running]
    | _ => trivial
  · have hstarted : i.started 0 = [] := by
      unfold ModCall.started
      split <;> rfl
    rw [hstarted]
    rfl

theorem steps_liveOracle {α : Type} (p : ModProc α) {w : LiveWorld} (running : w.running = [])
    (queued : w.queued = 0) :
    Steps liveSem (Activity jhash hash) (p, w)
      (ret (p.run liveOracle w).1, (p.run liveOracle w).2) :=
  steps_run_of (J := fun w : LiveWorld => w.running = [] ∧ w.queued = 0)
    (fun i _ h => liveSem_liveOracle i h.1 h.2) (fun _ _ h => h) p ⟨running, queued⟩

/-- Whatever is under way, the rest of the program can be run to its end. -/
theorem exists_completed (p : ModProc Unit) (w : LiveWorld) :
    ∃ w', Steps liveSem (Activity jhash hash) (p, w) (ret (), w') := by
  obtain ⟨w₁, drained, hrunning, hqueued⟩ := exists_drained jhash hash w
  have wait : Steps liveSem (Activity jhash hash) (p, w) (p, w₁) :=
    Relation.ReflTransGen.lift (fun w => (p, w)) (fun _ _ moved => .env moved) _ _ drained
  exact ⟨_, wait.trans (steps_liveOracle jhash hash p hrunning hqueued)⟩

/-- In every run, whatever fails, whenever the kernel calls into the module and however
long these calls take: what runs has the family and both initialised tables, and a
probe that runs or work that waits has the queue; the run can be completed; and
when it is, nothing of the module runs and nothing is queued. -/
theorem nothing_runs_past_teardown (version : KernelVersion) (tables : RkxTables)
    {rest : ModProc Unit} {w : LiveWorld}
    (steps : Steps liveSem (Activity jhash hash) (rkxModule version, .loaded tables) (rest, w)) :
    (∀ r ∈ w.running, Resource.genl ∈ held w.mod.log ∧ w.ready = ⟨true, true⟩) ∧
      (0 < w.queued ∨ Resource.transactionProbe ∈ w.running →
        Resource.workqueue ∈ held w.mod.log) ∧
      (∃ w', Steps liveSem (Activity jhash hash) (rest, w) (ret (), w')) ∧
      (rest = ret () → w.running = [] ∧ w.queued = 0 ∧ held w.mod.log = ∅) := by
  have hwp : lwp jhash hash rest (fun _ w' => w'.mod.Unloaded ∧ w'.Idle) w :=
    wp_steps (lwp_rkxModule version (LiveWorld.idle_loaded tables) (stage_loaded tables)) steps
  have hsafe : w.Safe := (wp_inside hwp).2
  refine ⟨fun r hr => ⟨hsafe.family r hr, hsafe.ready r hr⟩, hsafe.queue,
    exists_completed jhash hash rest w, ?_⟩
  intro hreturned
  rw [hreturned] at hwp
  have hidle := (wp_returned hwp).2
  exact ⟨hidle.running, hidle.queued, hidle.registered⟩

end Runs

/-- A loaded module, when a transaction is being probed and one message is queued. -/
def probing : LiveWorld :=
  let loaded := ((rkxInit ⟨false, false⟩).run liveOracle
    (.loaded ⟨rkxInitNetUid, rkxInitFreeAsync⟩)).2
  { loaded with running := [.transactionProbe], queued := 1 }

theorem steps_probing (jhash : List UInt8 → UInt32) (hash : UInt32 → Fin 64) :
    Steps liveSem (Activity jhash hash)
      (rkxModule ⟨false, false⟩, .loaded ⟨rkxInitNetUid, rkxInitFreeAsync⟩) (rkxExit, probing) := by
  have init := steps_liveOracle jhash hash (rkxInit ⟨false, false⟩)
    (w := .loaded ⟨rkxInitNetUid, rkxInitFreeAsync⟩) rfl rfl
  have registered : Resource.transactionProbe ∈ LiveWorld.registered ((rkxInit ⟨false, false⟩).run
      liveOracle (.loaded ⟨rkxInitNetUid, rkxInitFreeAsync⟩)).2 := .inl rfl
  have start := (steps_bind init fun loaded => if loaded then rkxExit else return ()).tail
    (.env (.start registered (by simp [Resource.Runs])))
  exact start.tail (.env (.queue List.mem_cons_self))

/-- The probe and the message have their queue, and the exit that is about to begin comes
to its end. -/
theorem nothing_runs_past_teardown_probing :
    Resource.workqueue ∈ held probing.mod.log ∧
      ∃ w', Steps liveSem (Activity (fun _ => 0) fun _ => ⟨0, Nat.succ_pos 63⟩)
        (rkxExit, probing) (ret (), w') := by
  obtain ⟨-, hqueue, hfinish, -⟩ := nothing_runs_past_teardown (fun _ => 0)
    (fun _ => ⟨0, Nat.succ_pos 63⟩) ⟨false, false⟩ _ (steps_probing _ _)
  exact ⟨hqueue (.inl Nat.one_pos), hfinish⟩

end ReKernelX
