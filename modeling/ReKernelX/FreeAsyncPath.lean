import ReKernelX.Module.LocalIn
import ReKernelX.Module.Supersession
import ReKernelX.SettingsPath

/-!
# From the rules to the queues

A client adds a rule in Java, and some time later the module drops a transaction from
the queue of a frozen process, or keeps it. This is the whole way between the two: the
request, the table, the probe that looks up the rule of an incoming transaction, and
the queue of its node.

Requests and steps of the driver come in any order. A step is a whole request or a
whole probe; a lookup that runs beside a request can find the rule for its code at one
moment and the one for all codes at another, which is a matter of `RcuLookup`.
-/

set_option autoImplicit false

namespace ReKernelX

open Transition

/-! ### The system -/

/-- The tables of the module, and one process with its nodes. -/
structure FreeAsyncWorld where
  tables : RkxTables
  state : ReclaimState

/-- The process has just been opened, and the module loaded. -/
def FreeAsyncWorld.initial (tsk : ℕ) : FreeAsyncWorld := ⟨noTables, .init tsk⟩

inductive FreeAsyncLabel
  | request (e : ClientCallEvent)
  /-- A step of the driver, the process or the module. -/
  | driver (a : ReclaimLabel)

/-- A step of the system: a probe finds the table as the requests have left it. -/
inductive FreeAsyncStep (jhash : List UInt8 → UInt32) (hash : UInt32 → Fin 64)
    (w : FreeAsyncWorld) : FreeAsyncLabel → FreeAsyncWorld → Prop
  | request (e : ClientCallEvent) :
      FreeAsyncStep jhash hash w (.request e)
        { w with tables := (e.call.run jhash hash e.client e.env w.tables).tables }
  | driver {a : ReclaimLabel} {s : ReclaimState} (step : EntryStep w.state a s)
      (table : ∀ env rules kzallocOk t, a = .handler env rules kzallocOk t →
        env.jhash = jhash ∧ rules = w.tables.freeAsync) :
      FreeAsyncStep jhash hash w (.driver a) { w with state := s }

/-- The requests of a run. -/
def settingCalls (trace : List (FreeAsyncLabel × FreeAsyncWorld)) : List ClientCallEvent :=
  trace.filterMap fun entry =>
    match entry.1 with
    | .request e => some e
    | .driver _ => none

/-! ### One step of the driver -/

section Probe

variable {env : KpEnv} {rules : RkxFreeAsync} {kzallocOk : Bool} {t q : BinderTransaction}
  {s s' : ReclaimState} {a : ReclaimLabel}

/-- The probe unlinks for frozen processes only. -/
theorem frozen_of_unlinked {proc : BinderProc} {node : BinderNode} {work : RkxFreeTxnWork}
    (unlinked : (rkxBinderProcTransactionPre env rules kzallocOk t proc node).2.2 = some work) :
    rkxIsFrozen (env.task proc.tsk) = true := by
  by_contra hrunning
  rw [rkxBinderProcTransactionPre, if_neg hrunning, ite_self] at unlinked
  cases unlinked

/-- What a probe does when it unlinks: its process is frozen, its strategy is not to skip,
and what it takes from the queue can be replaced by its own transaction. -/
structure Unlinks (env : KpEnv) (rules : RkxFreeAsync) (t q : BinderTransaction)
    (s : ReclaimState) : Prop where
  frozen : rkxIsFrozen (env.task s.proc.tsk) = true
  notSkip : freeAsyncStrategy env rules t ≠ rkxFreeAsyncSkip
  queued : BinderWork.transaction q ∈ (s.nodes t.buffer.targetNode.addr).asyncTodo
  canUpdate : rkBinderCanUpdateTransaction env q t (freeAsyncStrategy env rules t) = true

theorem unlinks_of_handler (now : Effect.unlinked q ∈ (s.handler env rules kzallocOk t).log)
    (before : Effect.unlinked q ∉ s.log) : Unlinks env rules t q s := by
  have hadded := (List.mem_append.mp now).resolve_left before
  rcases @pre_cases env rules kzallocOk t s.proc (s.nodes t.buffer.targetNode.addr) with
    hpre | ⟨found, -, hskip, -, -, -, hfound, hpre⟩
  · rw [hpre] at hadded
    cases hadded
  · have hwork := congrArg (fun r => r.2.2) hpre
    rw [hpre] at hadded
    obtain rfl : q = found := by simpa using hadded
    obtain ⟨hqueued, hupdate⟩ := mem_of_findOutdated hfound
    exact ⟨frozen_of_unlinked hwork, hskip, hqueued, hupdate⟩

/-- Only a probe unlinks. -/
theorem unlinks_of_step (step : ReclaimStep s a s') (now : Effect.unlinked q ∈ s'.log)
    (before : Effect.unlinked q ∉ s.log) :
    ∃ env rules kzallocOk t, a = .handler env rules kzallocOk t ∧ Unlinks env rules t q s := by
  obtain ⟨added, hlog, hadded⟩ := ReclaimState.exists_log_step step
  have hnew : Effect.unlinked q ∈ added := by
    rw [hlog] at now
    exact (List.mem_append.mp now).resolve_left before
  obtain ⟨env, rules, kzallocOk, t, rfl, -, -⟩ := hadded q hnew
  obtain ⟨-, rfl⟩ := step
  exact ⟨env, rules, kzallocOk, t, rfl, unlinks_of_handler now before⟩

end Probe

/-! ### Every run -/

section Runs

variable {jhash : List UInt8 → UInt32} {hash : UInt32 → Fin 64} {tsk : ℕ}
  {trace : List (FreeAsyncLabel × FreeAsyncWorld)} {w : FreeAsyncWorld} {q : BinderTransaction}

/-- The tables hold what the requests have set up. -/
theorem stands_of_freeAsyncRun (run : Run (FreeAsyncStep jhash hash) (.initial tsk) trace w) :
    w.tables.Stands jhash hash (settingsAfter (settingCalls trace)) := by
  induction run with
  | nil => exact RkxTables.stands_noTables
  | snoc _ step ih =>
    rw [settingCalls, List.filterMap_append]
    cases step with
    | request e =>
      rw [settingsAfter, List.foldl_append]
      exact ih.call e.client e.env e.call
    | driver step table =>
      rw [List.filterMap_cons_none rfl, List.filterMap_nil, List.append_nil]
      exact ih

/-- The probe that unlinked a transaction. -/
theorem exists_probe_of_unlinked (run : Run (FreeAsyncStep jhash hash) (.initial tsk) trace w)
    (unlinked : Effect.unlinked q ∈ w.state.log) :
    ∃ before env kzallocOk t u u' after,
      trace = before ++
        (.driver (.handler env u.tables.freeAsync kzallocOk t), u') :: after ∧
      Run (FreeAsyncStep jhash hash) (.initial tsk) before u ∧ env.jhash = jhash ∧
      Effect.enqueued t ∉ u.state.log ∧ Unlinks env u.tables.freeAsync t q u.state := by
  -- by the last step: it is the probe, or the transaction was unlinked before
  induction run with
  | nil => cases unlinked
  | @snoc trace w w' label run step ih =>
    by_cases hold : Effect.unlinked q ∈ w.state.log
    · obtain ⟨before, env, kzallocOk, t, u, u', after, htrace, hrest⟩ := ih hold
      refine ⟨before, env, kzallocOk, t, u, u', after ++ [(label, w')], ?_, hrest⟩
      rw [htrace, List.append_assoc, List.cons_append]
    · cases step with
      | request e => exact absurd unlinked hold
      | driver step table =>
        obtain ⟨env, rules, kzallocOk, t, rfl, hunlinks⟩ := unlinks_of_step step.1 unlinked hold
        obtain ⟨hjhash, rfl⟩ := table env rules kzallocOk t rfl
        exact ⟨trace, env, kzallocOk, t, w, _, [], rfl, run, hjhash,
          step.2 env _ kzallocOk t rfl, hunlinks⟩

/-- A step of the driver in which no probe runs. -/
theorem FreeAsyncStep.of_other {a : ReclaimLabel} {s : ReclaimState} (step : EntryStep w.state a s)
    (other : ∀ env rules kzallocOk t, a ≠ .handler env rules kzallocOk t) :
    FreeAsyncStep jhash hash w (.driver a) { w with state := s } :=
  .driver step fun env rules kzallocOk t h => absurd h (other env rules kzallocOk t)

end Runs

/-! A client adds a rule for the interface "a", and of three equal calls to it the second is
dropped for the third. -/

def addByDataRule : ClientCallEvent :=
  ⟨someClient, someEnv, .addFreeAsync (some RkxFreeAsync.nameA) (-1) 3⟩

def byDataTables : RkxTables :=
  { noTables with freeAsync := freeAsyncAfter frozenEnv.jhash byDataRuleOfA }

theorem tables_addByDataRule :
    (addByDataRule.call.run frozenEnv.jhash uidRemainder someClient someEnv noTables).tables =
      byDataTables := by
  obtain ⟨-, hshort, -⟩ := @addFreeAsync_spec frozenEnv.jhash uidRemainder noTables someClient
    someEnv RkxFreeAsync.nameA (-1) 3 (by decide) (by decide) rfl
  exact (hshort (by decide)).2

/-- The first call is delivered and the second waits. -/
def equalWaiting : ReclaimState :=
  ((ReclaimState.init 0).getRef.enqueue (oneWayOf 1 parcelOfA)).enqueue (oneWayOf 2 parcelOfA)

/-- The probe for the third. -/
def equalUnlinked : ReclaimState :=
  equalWaiting.handler frozenEnv byDataTables.freeAsync true (oneWayOf 3 parcelOfA)

theorem unlinked_equalUnlinked : Effect.unlinked (oneWayOf 2 parcelOfA) ∈ equalUnlinked.log := by
  have hstrategy : freeAsyncStrategy frozenEnv byDataTables.freeAsync (oneWayOf 3 parcelOfA) =
      rkxFreeAsyncByData := by decide
  have hupdate : rkBinderCanUpdateTransaction frozenEnv (oneWayOf 2 parcelOfA)
      (oneWayOf 3 parcelOfA) rkxFreeAsyncByData = true :=
    (rkBinderCanUpdateTransaction_iff frozenEnv_faithful _ _ _).mpr
      ⟨⟨rfl, nofun, rfl, rfl, rfl, rfl, rfl, rfl, rfl, rfl⟩, .inr ⟨rfl, rfl⟩⟩
  have hfound : rkBinderFindOutdatedTransactionIlocked frozenEnv (oneWayOf 3 parcelOfA)
      rkxFreeAsyncByData (equalWaiting.nodes 0).asyncTodo = some (oneWayOf 2 parcelOfA) :=
    if_pos hupdate
  have hwork : (rkxBinderProcTransactionPre frozenEnv byDataTables.freeAsync true
      (oneWayOf 3 parcelOfA) equalWaiting.proc (equalWaiting.nodes 0)).2.2 =
        some ⟨oneWayOf 2 parcelOfA, (oneWayOf 2 parcelOfA).buffer⟩ := by
    simp only [rkxBinderProcTransactionPre, hstrategy, hfound]
    rfl
  refine List.mem_append_right _ ?_
  change _ ∈ (rkxBinderProcTransactionPre frozenEnv byDataTables.freeAsync true
    (oneWayOf 3 parcelOfA) equalWaiting.proc (equalWaiting.nodes 0)).2.2.toList.map _
  rw [hwork]
  exact List.mem_singleton_self _

theorem exists_freeAsyncRun_equalUnlinked :
    ∃ trace, Run (FreeAsyncStep frozenEnv.jhash uidRemainder) (.initial 0) trace
        ⟨byDataTables, equalUnlinked⟩ ∧ settingCalls trace = [addByDataRule] := by
  have hrequest : FreeAsyncStep frozenEnv.jhash uidRemainder (.initial 0)
      (.request addByDataRule) ⟨byDataTables, .init 0⟩ := by
    rw [← tables_addByDataRule]
    exact .request addByDataRule
  have hget : EntryStep (ReclaimState.init 0) .getRef (ReclaimState.init 0).getRef :=
    ⟨⟨rfl, rfl⟩, nofun⟩
  have hfirst : EntryStep (ReclaimState.init 0).getRef (.enqueue (oneWayOf 1 parcelOfA))
      ((ReclaimState.init 0).getRef.enqueue (oneWayOf 1 parcelOfA)) :=
    ⟨⟨⟨by decide, rfl, by decide⟩, rfl⟩, nofun⟩
  have hsecond : EntryStep ((ReclaimState.init 0).getRef.enqueue (oneWayOf 1 parcelOfA))
      (.enqueue (oneWayOf 2 parcelOfA)) equalWaiting :=
    ⟨⟨⟨by decide, rfl, by decide⟩, rfl⟩, nofun⟩
  have hprobe : EntryStep equalWaiting
      (.handler frozenEnv byDataTables.freeAsync true (oneWayOf 3 parcelOfA)) equalUnlinked := by
    refine ⟨⟨⟨rfl, by decide⟩, rfl⟩, fun _ _ _ t h => ?_⟩
    obtain ⟨-, -, -, rfl⟩ := ReclaimLabel.handler.inj h
    decide
  have h₁ := Run.nil.snoc hrequest
  have h₂ := h₁.snoc (.of_other hget nofun)
  have h₃ := h₂.snoc (.of_other hfirst nofun)
  have h₄ := h₃.snoc (.of_other hsecond nofun)
  refine ⟨_, h₄.snoc (.driver hprobe fun env rules kzallocOk t h => ?_), rfl⟩
  obtain ⟨rfl, rfl, -, -⟩ := ReclaimLabel.handler.inj h
  exact ⟨rfl, rfl⟩

end ReKernelX
