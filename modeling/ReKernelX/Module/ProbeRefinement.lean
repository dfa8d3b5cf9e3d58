import ReKernelX.Module.ProbeThreads

/-!
# Probes, works and the driver in every interleaving

Every run of probes and works, call by call, is a run of the accounting in which the
probe and the freeing of a work are single steps. The probe takes effect where it
unlinks: what it read before it had the locks could have been read then, and until
it queues its work item nobody else knows of it. A work takes effect where it drops
its reference. In between no thread ever touches what it has no lock for, no lock is
taken twice or out of order, and no freed process is used.

Each thread relies on the others to respect its locks and what it has in hand, and
gives the same to them.
-/

set_option autoImplicit false

namespace ReKernelX

open Proc Transition ReclaimState

variable {T : Type}

/-! ### The invariant -/

namespace KpWorld

/-- A thread is in a probe or in a work. -/
def Busy (s : KpWorld T) (t : T) : Prop := t ∈ s.probing ∨ t ∈ s.working

/-- There is a run of the accounting to this state: the works in hand are pending there, and
what was done for them so far is still to be done. -/
def Refines (tsk : ℕ) (s : KpWorld T) : Prop :=
  ∃ trace pending log, Run ReclaimStep (ReclaimState.init tsk) trace (s.atomic pending log) ∧
    pending.Perm (s.mem.pending ++ s.hand.map TxnInHand.work) ∧
    s.mem.log.Perm (log ++ s.hand.flatMap TxnInHand.done)

end KpWorld

open KpWorld

/-- What holds in every state of every run. -/
structure KpInv (tsk : ℕ) (s : KpWorld T) : Prop where
  ok : s.ok = true
  sending : s.probing.length ≤ s.mem.driverRefs
  registered : s.probing ≠ [] → s.mem.kpRegistered = true
  hand : ∀ h ∈ s.hand, s.Busy h.owner
  node : ∀ n t, s.nodeLock n = some t → s.Busy t
  inner : ∀ t, s.innerLock = some t → s.Busy t
  doomed : ∀ t, s.doomed = some t → s.Busy t ∧ (s.innerLock = none ∨ s.innerLock = some t)
  refines : s.Refines tsk

variable {tsk : ℕ} {s s' : KpWorld T} {t u : T} {env : KpEnv}

/-- What the accounting says about the state. -/
theorem KpInv.exists_inv (inv : KpInv tsk s) : ∃ pending log, (s.atomic pending log).Inv ∧
    pending.Perm (s.mem.pending ++ s.hand.map TxnInHand.work) := by
  obtain ⟨trace, pending, log, run, hpending, -⟩ := inv.refines
  exact ⟨pending, log, Inv.of_run run, hpending⟩

/-- A process is there as long as someone has a reference to it. -/
theorem KpInv.alive (inv : KpInv tsk s) (holds : 0 < s.mem.driverRefs ∨ s.hand ≠ []) :
    s.mem.procFreed = false ∧ s.doomed = none := by
  obtain ⟨pending, log, hinv, hpending⟩ := inv.exists_inv
  have halive : (s.mem.procFreed || s.doomed.isSome) = false := by
    by_contra hfreed
    obtain ⟨hrefs, hnone⟩ := hinv.refs.driverRefs_of_freed (Bool.of_not_eq_false hfreed)
    rcases holds with hpos | hhand
    · exact hpos.ne' hrefs
    · have hempty : pending = [] := hnone
      rw [hempty] at hpending
      have hworks := (List.append_eq_nil_iff.mp hpending.nil_eq.symm).2
      exact hhand (List.map_eq_nil_iff.mp hworks)
  rw [Bool.or_eq_false_iff] at halive
  exact ⟨halive.1, Option.not_isSome_iff_eq_none.mp (by simp [halive.2])⟩

theorem KpInv.alive_of_probing (inv : KpInv tsk s) (probing : t ∈ s.probing) :
    s.mem.procFreed = false ∧ s.doomed = none :=
  inv.alive (.inl (lt_of_lt_of_le (List.length_pos_of_mem probing) inv.sending))

/-- The queue is there as long as the probe is registered. -/
theorem KpInv.wqAlive (inv : KpInv tsk s) (registered : s.mem.kpRegistered = true) :
    s.mem.wqAlive = true := by
  obtain ⟨pending, log, hinv, -⟩ := inv.exists_inv
  by_contra hwq
  have hremoved := (hinv.removal (Bool.of_not_eq_true hwq)).1
  have hfalse : s.mem.kpRegistered = false := hremoved
  rw [registered] at hfalse
  cases hfalse

/-- A lock changes hands only between a thread and nobody. -/
theorem lock_iff_of_ne {lock : Option T} (ne : u ≠ t) (free : lock ≠ some t) :
    some u = some t ↔ lock = some t := by
  simp [ne, free]

/-! ### The steps of the rest of the world -/

section Driver

variable {a : ReclaimLabel} {m : ReclaimState}

/-- What a step of the driver adds to the log. -/
def ReclaimLabel.logged : ReclaimLabel → List Effect
  | .enqueue t => [.enqueued t]
  | .free t => [.driverFreed t]
  | _ => []

theorem append_right_comm_perm {α : Type} (l₁ l₂ l₃ : List α) :
    (l₁ ++ l₂ ++ l₃).Perm (l₁ ++ l₃ ++ l₂) := by
  rw [List.append_assoc, List.append_assoc]
  exact List.perm_append_comm.append_left l₁

/-- The driver has no business with the works, the probe or the queue, and does the same
whatever is pending and logged. -/
theorem next_driver (driver : a.Driver) (s : KpWorld T) (pending : List RkxFreeTxnWork)
    (log : List Effect) :
    (s.atomic pending log).next a =
        KpWorld.atomic { s with mem := s.mem.next a } pending (log ++ a.logged) ∧
      (s.mem.next a).pending = s.mem.pending ∧ (s.mem.next a).log = s.mem.log ++ a.logged ∧
      (s.mem.next a).kpRegistered = s.mem.kpRegistered := by
  cases a with
  | handler _ _ _ _ | freeTxn _ | unregisterKprobe | destroyWorkqueue => exact driver.elim
  | enqueue t =>
    by_cases hwait : t.flags &&& tfOneWay ≠ 0 ∧
        (s.mem.nodes t.buffer.targetNode.addr).hasAsyncTransaction = true
    · have hhere : s.mem.next (.enqueue t) = _ := if_pos hwait
      have hatomic : (s.atomic pending log).next (.enqueue t) = _ := if_pos hwait
      rw [hhere, hatomic]
      exact ⟨rfl, rfl, rfl, rfl⟩
    · have hhere : s.mem.next (.enqueue t) = _ := if_neg hwait
      have hatomic : (s.atomic pending log).next (.enqueue t) = _ := if_neg hwait
      rw [hhere, hatomic]
      exact ⟨rfl, rfl, rfl, rfl⟩
  | asyncDone n =>
    simp only [ReclaimState.next, KpWorld.atomic, ReclaimState.asyncDone, ReclaimLabel.logged,
      List.append_nil]
    cases (s.mem.nodes n).asyncTodo <;> exact ⟨rfl, rfl, rfl, rfl⟩
  | putRef =>
    refine ⟨?_, rfl, (List.append_nil _).symm, rfl⟩
    simp [ReclaimState.next, KpWorld.atomic, ReclaimState.putRef,
      ReclaimState.rkBinderProcDecTmpref, ReclaimLabel.logged, Bool.or_right_comm]
  | free t => exact ⟨rfl, rfl, rfl, rfl⟩
  | _ =>
    refine ⟨?_, rfl, (List.append_nil _).symm, rfl⟩
    simp [ReclaimState.next, KpWorld.atomic, ReclaimLabel.logged, ReclaimState.releaseNode,
      ReclaimState.getRef, ReclaimState.threadExit, ReclaimState.die]

/-- The driver drops a reference only where it says so. -/
theorem driverRefs_next (driver : a.Driver) (kept : a ≠ .putRef) :
    m.driverRefs ≤ (m.next a).driverRefs := by
  cases a with
  | handler _ _ _ _ | freeTxn _ | unregisterKprobe | destroyWorkqueue => exact driver.elim
  | putRef => exact absurd rfl kept
  | enqueue t =>
    simp only [ReclaimState.next, ReclaimState.enqueue]
    split_ifs <;> exact le_refl _
  | asyncDone n =>
    simp only [ReclaimState.next, ReclaimState.asyncDone]
    cases (m.nodes n).asyncTodo <;> exact le_refl _
  | _ => simp [ReclaimState.next, ReclaimState.releaseNode, ReclaimState.free,
      ReclaimState.getRef, ReclaimState.threadExit, ReclaimState.die]

/-- The mark of a node is changed under its lock. -/
theorem hasAsyncTransaction_next (driver : a.Driver) {n : ℕ} (unlocked : a.lockedNode ≠ some n) :
    ((m.next a).nodes n).hasAsyncTransaction = (m.nodes n).hasAsyncTransaction := by
  have update : ∀ (k : ℕ) (node : BinderNode), k ≠ n →
      (Function.update m.nodes k node n).hasAsyncTransaction =
        (m.nodes n).hasAsyncTransaction := by
    intro k node hk
    rw [Function.update_of_ne hk.symm]
  cases a with
  | handler _ _ _ _ | freeTxn _ | unregisterKprobe | destroyWorkqueue => exact driver.elim
  | enqueue t =>
    have hk : t.buffer.targetNode.addr ≠ n := by simpa [ReclaimLabel.lockedNode] using unlocked
    simp only [ReclaimState.next, ReclaimState.enqueue]
    split_ifs <;> exact update _ _ hk
  | asyncDone k =>
    have hk : k ≠ n := by simpa [ReclaimLabel.lockedNode] using unlocked
    simp only [ReclaimState.next, ReclaimState.asyncDone]
    cases (m.nodes k).asyncTodo <;> exact update _ _ hk
  | releaseNode k =>
    -- a released list leaves the mark as it is
    change (Function.update m.nodes k { m.nodes k with asyncTodo := [] } n).hasAsyncTransaction = _
    by_cases hk : k = n
    · rw [hk, Function.update_self]
    · exact update _ _ hk
  | _ => rfl

/-- The driver takes no step with a process that is or is going to be freed. -/
theorem KpInv.alive_of_enabled (inv : KpInv tsk s) (driver : a.Driver)
    (enabled : (s.atomic s.mem.pending s.mem.log).Enabled a) :
    s.mem.procFreed = false ∧ s.doomed = none := by
  have hflag : (s.mem.procFreed || s.doomed.isSome) = false →
      s.mem.procFreed = false ∧ s.doomed = none := by
    intro h
    rw [Bool.or_eq_false_iff] at h
    exact ⟨h.1, Option.not_isSome_iff_eq_none.mp (by simp [h.2])⟩
  cases a with
  | handler _ _ _ _ | freeTxn _ | unregisterKprobe | destroyWorkqueue => exact driver.elim
  | enqueue t => exact inv.alive (.inl enabled.1)
  | putRef => exact inv.alive (.inl enabled)
  | asyncDone _ | getRef | setFrozen _ => exact hflag enabled
  | releaseNode _ | free _ | threadStart | threadExit | die => exact hflag enabled.1

/-- A step the driver can take here it can take in the accounting. -/
theorem enabled_atomic (driver : a.Driver) {pending : List RkxFreeTxnWork} {log : List Effect}
    (logged : s.mem.log.Perm (log ++ s.hand.flatMap TxnInHand.done))
    (enabled : (s.atomic s.mem.pending s.mem.log).Enabled a) :
    (s.atomic pending log).Enabled a := by
  cases a with
  | handler _ _ _ _ | freeTxn _ | unregisterKprobe | destroyWorkqueue => exact driver.elim
  | enqueue t =>
    refine ⟨enabled.1, enabled.2.1, fun hmem => enabled.2.2 ?_⟩
    exact logged.mem_iff.mpr (List.mem_append_left _ hmem)
  | _ => exact enabled

theorem KpInv.driver (inv : KpInv tsk s) (driver : a.Driver)
    (enabled : (s.atomic s.mem.pending s.mem.log).Enabled a)
    (sending : a = .putRef → s.probing.length < s.mem.driverRefs) :
    KpInv tsk { s with mem := s.mem.next a } where
  ok := inv.ok
  sending := by
    by_cases hput : a = .putRef
    · have hless := sending hput
      subst hput
      change s.probing.length ≤ s.mem.driverRefs - 1
      omega
    · exact inv.sending.trans (driverRefs_next driver hput)
  registered h := (next_driver driver s [] []).2.2.2.trans (inv.registered h)
  hand := inv.hand
  node := inv.node
  inner := inv.inner
  doomed := inv.doomed
  refines := by
    obtain ⟨trace, pending, log, run, hpending, hlog⟩ := inv.refines
    obtain ⟨hnext, hsame, hadded, -⟩ := next_driver driver s pending log
    refine ⟨_, pending, log ++ a.logged, run.snoc ⟨enabled_atomic driver hlog enabled, hnext.symm⟩,
      ?_, ?_⟩
    · change pending.Perm ((s.mem.next a).pending ++ _)
      rw [hsame]
      exact hpending
    · change (s.mem.next a).log.Perm _
      rw [hadded]
      exact (hlog.append_right _).trans (append_right_comm_perm ..)

theorem kpEnvStep_inv (inv : KpInv tsk s) (moved : KpEnvStep s s') : KpInv tsk s' := by
  cases moved with
  | driver driver enabled inner node sending => exact inv.driver driver enabled sending
  | unregisterKprobe waited =>
    refine { inv with registered := fun h => absurd waited h, refines := ?_ }
    obtain ⟨trace, pending, log, run, hperms⟩ := inv.refines
    have hstep : ReclaimStep (s.atomic pending log) .unregisterKprobe
        (KpWorld.atomic { s with mem := { s.mem with kpRegistered := false } } pending log) :=
      ⟨trivial, rfl⟩
    exact ⟨_, pending, log, run.snoc hstep, hperms⟩
  | destroyWorkqueue unregistered flushed =>
    refine { inv with refines := ?_ }
    obtain ⟨trace, pending, log, run, hpending, hlog⟩ := inv.refines
    -- with the probe gone and no work running, nothing is in hand
    have hprobing : s.probing = [] := by
      by_contra hprobing
      rw [inv.registered hprobing] at unregistered
      cases unregistered
    have hhand : s.hand = [] := by
      apply List.eq_nil_iff_forall_not_mem.mpr
      intro h hh
      rcases inv.hand h hh with hbusy | hbusy
      · simp [hprobing] at hbusy
      · simp [flushed.2] at hbusy
    have hnone : pending = [] := by
      rw [flushed.1, hhand] at hpending
      exact hpending.eq_nil
    have hstep : ReclaimStep (s.atomic pending log) .destroyWorkqueue
        (KpWorld.atomic { s with mem := { s.mem with wqAlive := false } } pending log) :=
      ⟨⟨unregistered, hnone⟩, rfl⟩
    exact ⟨_, pending, log, run.snoc hstep, hpending, hlog⟩
  | surroundings tasks rules =>
    exact { inv with refines := inv.refines }

end Driver

/-! ### Where the probe takes effect -/

section Unlink

variable {incoming q : BinderTransaction} {strategy : UInt8}

/-- The comparison of buffers does not look at tasks. -/
theorem dataEqualLoop_task (env : KpEnv) (task : ℕ → TaskStruct) (b1 b2 : BinderBuffer)
    (total pos : ℕ) :
    dataEqualLoop { env with task := task } b1 b2 total pos =
      dataEqualLoop env b1 b2 total pos := by
  fun_induction dataEqualLoop env b1 b2 total pos with
  | case1 pos hpos chunk hfirst => simp [dataEqualLoop, hpos, chunk, hfirst]
  | case2 pos hpos chunk c1 hfirst hsecond => simp [dataEqualLoop, hpos, chunk, hfirst, hsecond]
  | case3 pos hpos chunk c1 hfirst c2 hsecond hdiffer =>
    rw [dataEqualLoop, if_pos hpos]
    simp [chunk, hfirst, hsecond, hdiffer]
  | case4 pos hpos chunk c1 hfirst c2 hsecond hsame rest ih =>
    rw [dataEqualLoop, if_pos hpos]
    simp [chunk, rest, hfirst, hsecond, hsame, ih]
  | case5 pos hpos => rw [dataEqualLoop, if_neg hpos]

theorem findOutdated_task (env : KpEnv) (task : ℕ → TaskStruct) (t : BinderTransaction)
    (strategy : UInt8) (works : List BinderWork) :
    rkBinderFindOutdatedTransactionIlocked { env with task := task } t strategy works =
      rkBinderFindOutdatedTransactionIlocked env t strategy works := by
  have hupdate : ∀ tQueued,
      rkBinderCanUpdateTransaction { env with task := task } tQueued t strategy =
        rkBinderCanUpdateTransaction env tQueued t strategy := by
    intro tQueued
    simp only [rkBinderCanUpdateTransaction, rkxBinderBufferDataEqual, dataEqualWithCopies,
      dataEqualLoop_task]
  induction works with
  | nil => rfl
  | cons w rest ih =>
    cases w with
    | other type => exact ih
    | transaction tQueued =>
      rw [rkBinderFindOutdatedTransactionIlocked, rkBinderFindOutdatedTransactionIlocked, hupdate,
        ih]

/-- What the probe has found out before it takes a lock. It could have found it out in a
single moment. -/
def Decided (env : KpEnv) (incoming : BinderTransaction) (strategy : UInt8) : Prop :=
  incoming.flags &&& tfOneWay ≠ 0 ∧ strategy ≠ rkxFreeAsyncSkip ∧
    ∃ task rules, rkxIsFrozen task = true ∧
      strategy = freeAsyncStrategy { env with task := fun _ => task } rules incoming

/-- The probe on a node with an outdated transaction. -/
theorem pre_of_found (env : KpEnv) {rules : RkxFreeAsync} (proc : BinderProc) (node : BinderNode)
    (oneWay : incoming.flags &&& tfOneWay ≠ 0) (frozen : rkxIsFrozen (env.task proc.tsk) = true)
    (skip : freeAsyncStrategy env rules incoming ≠ rkxFreeAsyncSkip)
    (async : node.hasAsyncTransaction = true) (usable : (proc.isDead || proc.isFrozen) = false)
    (found : rkBinderFindOutdatedTransactionIlocked env incoming
      (freeAsyncStrategy env rules incoming) node.asyncTodo = some q) :
    rkxBinderProcTransactionPre env rules true incoming proc node =
      ({ proc with tmpRef := proc.tmpRef + 1, outstandingTxns := proc.outstandingTxns - 1 },
        { node with asyncTodo := node.asyncTodo.erase (.transaction q) }, some ⟨q, q.buffer⟩) := by
  rw [rkxBinderProcTransactionPre, if_neg oneWay, if_pos frozen]
  dsimp only
  rw [if_neg skip, if_neg (by simp [async]), if_neg (by simp [usable]), found]
  rfl

/-- Unlinking is what the probe of the accounting does when it is run at that moment. -/
theorem handler_atomic (decided : Decided env incoming strategy)
    (async : (s.mem.nodes incoming.buffer.targetNode.addr).hasAsyncTransaction = true)
    (usable : (s.mem.proc.isDead || s.mem.proc.isFrozen) = false)
    (found : rkBinderFindOutdatedTransactionIlocked env incoming strategy
      (s.mem.nodes incoming.buffer.targetNode.addr).asyncTodo = some q)
    (pending : List RkxFreeTxnWork) (log : List Effect) :
    ∃ env' rules, (s.atomic pending log).handler env' rules true incoming =
      (s.unlinked t incoming.buffer.targetNode.addr q).atomic (pending ++ [⟨q, q.buffer⟩])
        (log ++ [.unlinked q]) := by
  obtain ⟨hflags, hskip, task, rules, hfrozen, rfl⟩ := decided
  refine ⟨{ env with task := fun _ => task }, rules, ?_⟩
  have hfound : rkBinderFindOutdatedTransactionIlocked { env with task := fun _ => task } incoming
      (freeAsyncStrategy { env with task := fun _ => task } rules incoming)
      ((s.atomic pending log).nodes incoming.buffer.targetNode.addr).asyncTodo = some q :=
    (findOutdated_task env _ incoming _ _).trans found
  have hpre := pre_of_found _ (s.atomic pending log).proc
    ((s.atomic pending log).nodes incoming.buffer.targetNode.addr)
    hflags hfrozen hskip async usable hfound
  simp only [ReclaimState.handler, hpre]
  rfl

end Unlink

variable [DecidableEq T]

/-! ### What is in hand -/

namespace KpWorld

variable {s : KpWorld T} {t u : T}

theorem mine_append_perm (s : KpWorld T) (t : T) : (s.mine t ++ s.others t).Perm s.hand := by
  unfold mine others
  simpa using List.filter_append_perm (fun h : TxnInHand T => decide (h.owner = t)) s.hand

theorem mem_hand_of_mine {h : TxnInHand T} (mine : s.mine t = [h]) : h ∈ s.hand := by
  have hmem : h ∈ s.mine t := mine ▸ List.mem_singleton_self h
  exact List.mem_of_mem_filter hmem

theorem hand_perm_of_mine {h : TxnInHand T} (mine : s.mine t = [h]) :
    s.hand.Perm (h :: s.others t) := by
  have hperm := s.mine_append_perm t
  rw [mine] at hperm
  exact hperm.symm

/-- Adding to what one thread has in hand. -/
theorem filter_append_self (hand : List (TxnInHand T)) (h : TxnInHand T) (owner : h.owner = t) :
    (hand ++ [h]).filter (fun h => h.owner = t) = hand.filter (fun h => h.owner = t) ++ [h] := by
  simp [List.filter_append, owner]

theorem filter_append_other (hand : List (TxnInHand T)) (h : TxnInHand T) (owner : h.owner ≠ t) :
    (hand ++ [h]).filter (fun h => h.owner = t) = hand.filter (fun h => h.owner = t) := by
  simp [List.filter_append, owner]

/-- What one thread lets go of is not another's. -/
theorem filter_others (hand : List (TxnInHand T)) (ne : u ≠ t) :
    (hand.filter fun h => h.owner ≠ u).filter (fun h => h.owner = t) =
      hand.filter fun h => h.owner = t := by
  rw [List.filter_filter]
  apply List.filter_congr
  intro h _
  by_cases ht : h.owner = t
  · simp [ht, ne.symm]
  · simp [ht]

theorem filter_others_self (hand : List (TxnInHand T)) :
    (hand.filter fun h => h.owner ≠ t).filter (fun h => h.owner = t) = [] := by
  rw [List.filter_filter]
  apply List.filter_eq_nil_iff.mpr
  simp

/-- What one thread notes about its own work does not change whose it is. -/
theorem filter_map_done (hand : List (TxnInHand T)) (e : Effect) (p : T → Bool) :
    (hand.map fun h => if h.owner = u then { h with done := h.done ++ [e] } else h).filter
        (fun h => p h.owner) =
      (hand.filter fun h => p h.owner).map fun h =>
        if h.owner = u then { h with done := h.done ++ [e] } else h := by
  rw [List.filter_map]
  congr 1
  apply List.filter_congr
  intro h _
  by_cases hu : h.owner = u
  · simp [hu]
  · simp [hu]

/-- It leaves the works of the others as they are. -/
theorem filter_reclaimed (s : KpWorld T) (e : Effect) (p : T → Bool) (spares : p u = false) :
    (s.reclaimed u e).hand.filter (fun h => p h.owner) = s.hand.filter fun h => p h.owner := by
  have hsame : ∀ h ∈ s.hand.filter (fun h => p h.owner),
      (if h.owner = u then { h with done := h.done ++ [e] } else h) = h := by
    intro h hh
    have howner : p h.owner = true := (List.mem_filter.mp hh).2
    apply if_neg
    intro hu
    simp [hu, spares] at howner
  exact (filter_map_done s.hand e p).trans ((List.map_congr_left hsame).trans (List.map_id _))

end KpWorld

theorem KpInv.alive_of_mine (inv : KpInv tsk s) {h : TxnInHand T} (mine : s.mine t = [h]) :
    s.mem.procFreed = false ∧ s.doomed = none :=
  inv.alive (.inr (List.ne_nil_of_mem (mem_hand_of_mine mine)))

/-! ### What the calls of one thread leave to the others -/

/-- What a thread relies on: its locks keep out the others, and what it has in hand is its
own. -/
structure Rely (t : T) (s s' : KpWorld T) : Prop where
  inner : s'.innerLock = some t ↔ s.innerLock = some t
  node : ∀ n, s'.nodeLock n = some t ↔ s.nodeLock n = some t
  locked : s.innerLock = some t →
    s'.mem.proc = s.mem.proc ∧ s'.mem.nodes = s.mem.nodes ∧ s'.mem.procFreed = s.mem.procFreed
  async : ∀ n, s.nodeLock n = some t →
    (s'.mem.nodes n).hasAsyncTransaction = (s.mem.nodes n).hasAsyncTransaction
  mine : s'.mine t = s.mine t
  probing : t ∈ s'.probing ↔ t ∈ s.probing
  working : t ∈ s'.working ↔ t ∈ s.working
  doomed : s'.doomed = some t ↔ s.doomed = some t
  freeing : s.doomed = some t → s'.mem.procFreed = s.mem.procFreed

theorem Rely.refl (t : T) (s : KpWorld T) : Rely t s s where
  inner := Iff.rfl
  node _ := Iff.rfl
  locked _ := ⟨rfl, rfl, rfl⟩
  async _ _ := rfl
  mine := rfl
  probing := Iff.rfl
  working := Iff.rfl
  doomed := Iff.rfl
  freeing _ := rfl

theorem Rely.fault (t : T) (s : KpWorld T) : Rely t s s.fault := { Rely.refl t s with }

theorem kpSem_rely {i : KpCall} {r : i.Answer} (ne : u ≠ t) (inv : KpInv tsk s)
    (answered : kpSem env u i s r s') : Rely t s s' := by
  have hother : ∀ {lock : Option T}, lock = some u → lock ≠ some t := by
    intro lock hlock hother
    exact ne (Option.some.inj (hlock.symm.trans hother))
  cases i with
  | isFrozen | hasEntries | lookupRcu _ _ =>
    obtain ⟨-, rfl⟩ := answered
    exact Rely.refl t _
  | kzalloc =>
    obtain rfl := answered
    exact Rely.refl t _
  | hasAsyncTransaction n | deadOrFrozen | asyncTodo n =>
    rcases answered with ⟨-, -, rfl⟩ | ⟨-, rfl⟩
    · exact Rely.refl t _
    · exact Rely.fault t s
  | nodeLock n =>
    rcases answered with ⟨-, hfree, rfl⟩ | ⟨-, rfl⟩
    · refine { Rely.refl t s with node := fun m => ?_ }
      change Function.update s.nodeLock n (some u) m = some t ↔ s.nodeLock m = some t
      by_cases hm : m = n
      · rw [hm, Function.update_self]
        exact lock_iff_of_ne ne (by simp [hfree])
      · rw [Function.update_of_ne hm]
    · exact Rely.fault t s
  | nodeUnlock n =>
    rcases answered with ⟨⟨hmine, -⟩, rfl⟩ | ⟨-, rfl⟩
    · refine { Rely.refl t s with node := fun m => ?_ }
      change Function.update s.nodeLock n none m = some t ↔ s.nodeLock m = some t
      by_cases hm : m = n
      · rw [hm, Function.update_self]
        simp [hother hmine]
      · rw [Function.update_of_ne hm]
    · exact Rely.fault t s
  | innerLock =>
    rcases answered with ⟨-, hfree, rfl⟩ | ⟨-, rfl⟩
    · exact { Rely.refl t s with inner := lock_iff_of_ne ne (by simp [hfree]) }
    · exact Rely.fault t s
  | innerUnlock =>
    rcases answered with ⟨⟨hmine, -⟩, rfl⟩ | ⟨-, rfl⟩
    · exact { Rely.refl t s with inner := by simp [hother hmine] }
    · exact Rely.fault t s
  | unlink n q =>
    rcases answered with ⟨⟨hinner, hnode, -⟩, rfl⟩ | ⟨-, rfl⟩
    · refine { Rely.refl t s with
        locked := fun hlock => absurd hlock (hother hinner), async := fun m _ => ?_, mine := ?_ }
      · -- unlinking leaves the mark of the node alone
        change (Function.update s.mem.nodes n _ m).hasAsyncTransaction = _
        by_cases hm : m = n
        · rw [hm, Function.update_self]
        · rw [Function.update_of_ne hm]
      · exact filter_append_other _ _ ne
    · exact Rely.fault t s
  | queueWork w =>
    rcases answered with ⟨-, rfl⟩ | ⟨-, rfl⟩
    · exact { Rely.refl t s with mine := filter_others _ ne }
    · exact Rely.fault t s
  | reclaim w e =>
    rcases answered with ⟨-, rfl⟩ | ⟨-, rfl⟩
    · have hsame := filter_reclaimed s e (fun owner => decide (owner = t)) (decide_eq_false ne)
      exact { Rely.refl t s with mine := hsame }
    · exact Rely.fault t s
  | driverDecTmpref w =>
    rcases answered with ⟨⟨⟨done, hmine⟩, -⟩, hfree, rfl⟩ | ⟨-, rfl⟩
    · have hdoomed := (inv.alive_of_mine hmine).2
      exact { Rely.refl t s with
        locked := fun hlock => by simp [hfree] at hlock
        mine := filter_others _ ne
        freeing := fun h => by simp [hdoomed] at h }
    · exact Rely.fault t s
  | decTmpRef w =>
    rcases answered with ⟨⟨⟨done, hmine⟩, hinner, -⟩, -, rfl⟩ | ⟨-, rfl⟩
    · have hdoomed := (inv.alive_of_mine hmine).2
      refine { Rely.refl t s with
        locked := fun hlock => absurd hlock (hother hinner)
        mine := filter_others _ ne
        doomed := ?_ }
      change (if s.lastRef then some u else s.doomed) = some t ↔ _
      split
      · exact lock_iff_of_ne ne (by simp [hdoomed])
      · rfl
    · exact Rely.fault t s
  | freeProc =>
    rcases answered with ⟨⟨hdoomed, -⟩, rfl⟩ | ⟨-, rfl⟩
    · refine { Rely.refl t s with locked := ?_, doomed := ?_, freeing := ?_ }
      · -- the process is freed with its lock free
        intro hlock
        rcases (inv.doomed u hdoomed).2 with hfree | hinner
        · simp [hfree] at hlock
        · exact absurd hlock (hother hinner)
      · simp [hother hdoomed]
      · intro h
        exact absurd h (hother hdoomed)
    · exact Rely.fault t s

theorem kpEnvStep_rely (inv : KpInv tsk s) (moved : KpEnvStep s s') (t : T) : Rely t s s' := by
  cases moved with
  | @driver a driver enabled inner node sending =>
    have hdoomed := (inv.alive_of_enabled driver enabled).2
    refine { Rely.refl t s with locked := ?_, async := ?_, freeing := ?_ }
    · intro hlock
      simp [inner] at hlock
    · intro n hlock
      apply hasAsyncTransaction_next driver
      intro hn
      simp [node n hn] at hlock
    · intro h
      simp [hdoomed] at h
  | unregisterKprobe waited => exact { Rely.refl t s with }
  | destroyWorkqueue unregistered flushed => exact { Rely.refl t s with }
  | surroundings tasks rules => exact { Rely.refl t s with }

/-! ### Where a thread is -/

/-- What a thread has: whether it is in a probe, its locks, its work, and whether it is going
to free the process. -/
structure Local (T : Type) where
  probe : Bool
  node : Option ℕ
  inner : Bool
  mine : List (TxnInHand T)
  dooms : Bool

/-- The thread has this, and with the inner lock or a process to free that process is there. -/
structure At (tsk : ℕ) (t : T) (l : Local T) (s : KpWorld T) : Prop where
  inv : KpInv tsk s
  busy : s.Busy t
  probing : l.probe = true → t ∈ s.probing
  node : ∀ n, s.nodeLock n = some t ↔ l.node = some n
  inner : s.innerLock = some t ↔ l.inner = true
  mine : s.mine t = l.mine
  dooms : s.doomed = some t ↔ l.dooms = true
  alive : l.inner = true ∨ l.dooms = true → s.mem.procFreed = false

variable {l : Local T}

/-- The others leave it to the thread. -/
theorem At.rely (h : At tsk t l s) (inv : KpInv tsk s') (rely : Rely t s s') : At tsk t l s' where
  inv := inv
  busy := h.busy.imp rely.probing.mpr rely.working.mpr
  probing hprobe := rely.probing.mpr (h.probing hprobe)
  node n := (rely.node n).trans (h.node n)
  inner := rely.inner.trans h.inner
  mine := rely.mine.trans h.mine
  dooms := rely.doomed.trans h.dooms
  alive hheld := by
    have halive := h.alive hheld
    rcases hheld with hinner | hdooms
    · exact (rely.locked (h.inner.mpr hinner)).2.2.trans halive
    · exact (rely.freeing (h.dooms.mpr hdooms)).trans halive

/-- A thread in a probe, or with a work in hand, has a reference to the process. -/
theorem At.referenced (h : At tsk t l s) (refs : l.probe = true ∨ l.mine ≠ []) :
    s.mem.procFreed = false ∧ s.doomed = none := by
  rcases refs with hprobe | hmine
  · exact h.inv.alive_of_probing (h.probing hprobe)
  · apply h.inv.alive
    right
    intro hhand
    apply hmine
    rw [← h.mine, KpWorld.mine, hhand, List.filter_nil]

/-- The weakest precondition of a part of a program that one thread runs among the others. -/
abbrev kwp {α : Type} (env : KpEnv) (tsk : ℕ) (t : T) (p : KpProc α) (Q : α → KpWorld T → Prop)
    (s : KpWorld T) : Prop :=
  p.wp (kpSem env t) (Interference (Rely t) (KpInv tsk)) (KpInv tsk) Q s

section Rules

variable {α : Type} {Q : α → KpWorld T → Prop} {P : KpWorld T → Prop}

theorem stable_at (kept : ∀ s s', Rely t s s' → At tsk t l s → P s → P s') :
    Stable (Interference (Rely t) (KpInv tsk)) fun s => At tsk t l s ∧ P s :=
  fun s s' h interference => ⟨h.1.rely interference.2 interference.1,
    kept s s' interference.1 h.1 h.2⟩

/-- The rule for a call, with what the thread knows because of its locks. -/
theorem kwp_knowing (kept : ∀ s s', Rely t s s' → At tsk t l s → P s → P s') {i : KpCall}
    {k : i.Answer → KpProc α} (h : At tsk t l s) (known : P s)
    (next : ∀ s r s', At tsk t l s → P s → kpSem env t i s r s' → kwp env tsk t (k r) Q s') :
    kwp env tsk t (perform i >>= k) Q s :=
  wp_call (stable_at kept) (fun _ h' => h'.1.inv) (fun s r s' h' => next s r s' h'.1 h'.2)
    ⟨h, known⟩

/-- The rule for a call. -/
theorem kwp_call {i : KpCall} {k : i.Answer → KpProc α} (h : At tsk t l s)
    (next : ∀ s r s', At tsk t l s → kpSem env t i s r s' → kwp env tsk t (k r) Q s') :
    kwp env tsk t (perform i >>= k) Q s :=
  kwp_knowing (P := fun _ => True) (fun _ _ _ _ _ => trivial) h trivial
    fun s r s' h' _ => next s r s' h'

theorem kwp_ret {a : α} (h : At tsk t l s) (post : ∀ s', At tsk t l s' → Q a s') :
    kwp env tsk t (.ret a) Q s :=
  wp_ret (stable_at (P := fun _ => True) fun _ _ _ _ _ => trivial)
    (fun s' h' => ⟨h'.1.inv, post s' h'.1⟩) ⟨h, trivial⟩

end Rules

/-! ### The calls -/

theorem At.nodeLock {n : ℕ} {r : Unit} (h : At tsk t l s) (free : l.node = none ∧ l.inner = false)
    (refs : l.probe = true ∨ l.mine ≠ []) (answered : kpSem env t (.nodeLock n) s r s') :
    At tsk t { l with node := some n } s' := by
  have hright : ¬ s.Holds t ∧ s.mem.procFreed = false := by
    refine ⟨?_, (h.referenced refs).1⟩
    intro holds
    rcases holds with hinner | ⟨m, hnode⟩
    · simp [h.inner, free.2] at hinner
    · simp [h.node, free.1] at hnode
  obtain ⟨-, rfl⟩ := Guarded.done answered hright
  have hnode : ∀ m u, Function.update s.nodeLock n (some t) m = some u →
      u = t ∧ m = n ∨ s.nodeLock m = some u := by
    intro m u hu
    by_cases hm : m = n
    · rw [hm, Function.update_self] at hu
      exact .inl ⟨(Option.some.inj hu).symm, hm⟩
    · rw [Function.update_of_ne hm] at hu
      exact .inr hu
  refine { h with inv := { h.inv with node := ?_, refines := h.inv.refines }, node := ?_ }
  · intro m u hu
    rcases hnode m u hu with ⟨rfl, -⟩ | hold
    · exact h.busy
    · exact h.inv.node m u hold
  · intro m
    change Function.update s.nodeLock n (some t) m = some t ↔ some n = some m
    by_cases hm : m = n
    · simp [hm]
    · rw [Function.update_of_ne hm, h.node, free.1]
      simp [Ne.symm hm]

theorem At.nodeUnlock {n : ℕ} {r : Unit} (h : At tsk t l s) (held : l.node = some n)
    (refs : l.probe = true ∨ l.mine ≠ []) (answered : kpSem env t (.nodeUnlock n) s r s') :
    At tsk t { l with node := none } s' := by
  obtain rfl := Guarded.done answered ⟨(h.node n).mpr held, (h.referenced refs).1⟩
  refine { h with inv := { h.inv with node := ?_, refines := h.inv.refines }, node := ?_ }
  · intro m u hu
    change Function.update s.nodeLock n none m = some u at hu
    by_cases hm : m = n
    · simp [hm] at hu
    · rw [Function.update_of_ne hm] at hu
      exact h.inv.node m u hu
  · intro m
    change Function.update s.nodeLock n none m = some t ↔ none = some m
    by_cases hm : m = n
    · simp [hm]
    · rw [Function.update_of_ne hm, h.node, held]
      simp [Ne.symm hm]

theorem At.innerLock {r : Unit} (h : At tsk t l s) (free : l.inner = false)
    (refs : l.probe = true ∨ l.mine ≠ []) (answered : kpSem env t .innerLock s r s') :
    At tsk t { l with inner := true } s' := by
  obtain ⟨halive, hdoomed⟩ := h.referenced refs
  have hright : s.innerLock ≠ some t := by simp [h.inner, free]
  obtain ⟨-, rfl⟩ := Guarded.done answered ⟨hright, halive⟩
  refine { h with
    inv := { h.inv with inner := ?_, doomed := ?_, refines := h.inv.refines }
    inner := by simp
    alive := fun _ => halive }
  · intro u hu
    obtain rfl := Option.some.inj hu
    exact h.busy
  · intro u hu
    have hu' : s.doomed = some u := hu
    simp [hdoomed] at hu'

theorem At.innerUnlock {r : Unit} (h : At tsk t l s) (held : l.inner = true)
    (answered : kpSem env t .innerUnlock s r s') : At tsk t { l with inner := false } s' := by
  obtain rfl := Guarded.done answered ⟨h.inner.mpr held, h.alive (.inl held)⟩
  refine { h with
    inv := { h.inv with
      inner := fun u hu => by simp at hu
      doomed := fun u hu => ⟨(h.inv.doomed u hu).1, .inl rfl⟩
      refines := h.inv.refines }
    inner := by simp
    alive := fun _ => h.alive (.inl held) }

theorem At.unlink {incoming q : BinderTransaction} {strategy : UInt8} {r : Unit}
    (h : At tsk t l s) (probe : l.probe = true) (inner : l.inner = true)
    (node : l.node = some incoming.buffer.targetNode.addr) (empty : l.mine = [])
    (decided : Decided env incoming strategy)
    (async : (s.mem.nodes incoming.buffer.targetNode.addr).hasAsyncTransaction = true)
    (usable : (s.mem.proc.isDead || s.mem.proc.isFrozen) = false)
    (found : rkBinderFindOutdatedTransactionIlocked env incoming strategy
      (s.mem.nodes incoming.buffer.targetNode.addr).asyncTodo = some q)
    (answered : kpSem env t (.unlink incoming.buffer.targetNode.addr q) s r s') :
    At tsk t { l with mine := [⟨t, ⟨q, q.buffer⟩, []⟩] } s' := by
  have hprobing := h.probing probe
  have halive := h.inv.alive_of_probing hprobing
  obtain rfl := Guarded.done answered ⟨h.inner.mpr inner, (h.node _).mpr node, halive.1,
    (mem_of_findOutdated found).1⟩
  refine { h with
    inv := { h.inv with hand := ?_, refines := ?_ }
    mine := ?_ }
  · intro hand hmem
    rcases List.mem_append.mp hmem with hold | hnew
    · exact h.inv.hand hand hold
    · obtain rfl := List.mem_singleton.mp hnew
      exact h.busy
  · obtain ⟨trace, pending, log, run, hpending, hlog⟩ := h.inv.refines
    obtain ⟨env', rules, hhandler⟩ := handler_atomic decided async usable found pending log
    have hstep : ReclaimStep (s.atomic pending log) (.handler env' rules true incoming)
        ((s.unlinked t incoming.buffer.targetNode.addr q).atomic (pending ++ [⟨q, q.buffer⟩])
          (log ++ [.unlinked q])) := by
      refine ⟨⟨h.inv.registered (List.ne_nil_of_mem hprobing), ?_⟩, hhandler.symm⟩
      exact lt_of_lt_of_le (List.length_pos_of_mem hprobing) h.inv.sending
    refine ⟨_, _, _, run.snoc hstep, ?_, ?_⟩
    · simpa [KpWorld.unlinked] using hpending.append_right [⟨q, q.buffer⟩]
    · have hadded := (hlog.append_right [.unlinked q]).trans (append_right_comm_perm ..)
      simpa [KpWorld.unlinked] using hadded
  · have hadded := filter_append_self (t := t) s.hand ⟨t, ⟨q, q.buffer⟩, []⟩ rfl
    rw [← KpWorld.mine, h.mine, empty] at hadded
    exact hadded

/-- The works and what was done for them, when one thread lets its work go. -/
theorem perms_of_mine {w : RkxFreeTxnWork} {done : List Effect} (mine : s.mine t = [⟨t, w, done⟩]) :
    (s.hand.map TxnInHand.work).Perm (w :: (s.others t).map TxnInHand.work) ∧
      (s.hand.flatMap TxnInHand.done).Perm (done ++ (s.others t).flatMap TxnInHand.done) :=
  ⟨(hand_perm_of_mine mine).map _, (hand_perm_of_mine mine).flatMap_right _⟩

theorem KpInv.hand_others (inv : KpInv tsk s) : ∀ h ∈ s.others t, s.Busy h.owner :=
  fun h hh => inv.hand h (List.mem_of_mem_filter hh)

theorem At.queueWork {w : RkxFreeTxnWork} {r : Unit} (h : At tsk t l s) (probe : l.probe = true)
    (holds : l.mine = [⟨t, w, []⟩]) (answered : kpSem env t (.queueWork w) s r s') :
    At tsk t { l with mine := [] } s' := by
  have hmine : s.mine t = [⟨t, w, []⟩] := h.mine.trans holds
  have hregistered := h.inv.registered (List.ne_nil_of_mem (h.probing probe))
  obtain rfl := Guarded.done answered ⟨hmine, h.inv.wqAlive hregistered⟩
  refine { h with
    inv := { h.inv with hand := h.inv.hand_others, refines := ?_ }
    mine := filter_others_self s.hand }
  obtain ⟨trace, pending, log, run, hpending, hlog⟩ := h.inv.refines
  obtain ⟨hworks, hdones⟩ := perms_of_mine hmine
  -- to the accounting the work has been pending since it was unlinked
  refine ⟨trace, pending, log, run, ?_, hlog.trans (hdones.append_left log)⟩
  have hmoved := hpending.trans (hworks.append_left _)
  simpa [KpWorld.queued] using hmoved

theorem At.reclaim {w : RkxFreeTxnWork} {done : List Effect} {e : Effect} {r : Unit}
    (h : At tsk t l s) (holds : l.mine = [⟨t, w, done⟩])
    (answered : kpSem env t (.reclaim w e) s r s') :
    At tsk t { l with mine := [⟨t, w, done ++ [e]⟩] } s' := by
  have hmine : s.mine t = [⟨t, w, done⟩] := h.mine.trans holds
  obtain rfl := Guarded.done answered ⟨⟨done, hmine⟩, (h.inv.alive_of_mine hmine).1⟩
  have hself : (s.reclaimed t e).mine t = [⟨t, w, done ++ [e]⟩] := by
    have hfilter := filter_map_done (u := t) s.hand e fun owner => decide (owner = t)
    rw [← KpWorld.mine, hmine] at hfilter
    simpa [KpWorld.reclaimed, KpWorld.mine] using hfilter
  have hothers : (s.reclaimed t e).others t = s.others t :=
    filter_reclaimed s e (fun owner => decide (owner ≠ t)) (decide_eq_false (not_not_intro rfl))
  refine { h with
    inv := { h.inv with hand := ?_, refines := ?_ }
    mine := hself }
  · intro hand hmem
    obtain ⟨old, hold, rfl⟩ := List.mem_map.mp hmem
    have hbusy := h.inv.hand old hold
    split_ifs <;> exact hbusy
  · obtain ⟨trace, pending, log, run, hpending, hlog⟩ := h.inv.refines
    obtain ⟨hworks, hdones⟩ := perms_of_mine hmine
    obtain ⟨hworks', hdones'⟩ := perms_of_mine hself
    rw [hothers] at hworks' hdones'
    refine ⟨trace, pending, log, run, ?_, ?_⟩
    · exact hpending.trans ((hworks.trans hworks'.symm).append_left _)
    · have hnoted := (hlog.trans (hdones.append_left log)).append_right [e]
      refine hnoted.trans (List.Perm.trans ?_ (hdones'.symm.append_left log))
      simpa [List.append_assoc] using
        append_right_comm_perm (log ++ done) ((s.others t).flatMap TxnInHand.done) [e]

/-- Where a work takes effect: all that is to be done is done, and its reference is dropped. -/
theorem KpWorld.Refines.drop {w : RkxFreeTxnWork} (refines : s.Refines tsk) (s' : KpWorld T)
    (mine : s.mine t = [⟨t, w, freeTxnEffects w⟩]) (pending' : s'.mem.pending = s.mem.pending)
    (log' : s'.mem.log = s.mem.log) (hand' : s'.hand = s.others t)
    (atomic' : ∀ pending log, s'.atomic (pending.erase w) (log ++ freeTxnEffects w) =
      (s.atomic pending log).rkxFreeTxnFunc w) : s'.Refines tsk := by
  obtain ⟨trace, pending, log, run, hpending, hlog⟩ := refines
  obtain ⟨hworks, hdones⟩ := perms_of_mine mine
  have hmoved := hpending.trans ((hworks.append_left _).trans List.perm_middle)
  have hmem : w ∈ pending := hmoved.mem_iff.mpr List.mem_cons_self
  have hstep : ReclaimStep (s.atomic pending log) (.freeTxn w)
      (s'.atomic (pending.erase w) (log ++ freeTxnEffects w)) := ⟨hmem, atomic' pending log⟩
  refine ⟨_, _, _, run.snoc hstep, ?_, ?_⟩
  · rw [pending', hand']
    have herased := hmoved.erase w
    rwa [List.erase_cons_head] at herased
  · rw [log', hand', List.append_assoc]
    exact hlog.trans (hdones.append_left log)

theorem At.driverDecTmpref {w : RkxFreeTxnWork} {r : Unit} (h : At tsk t l s)
    (free : l.inner = false) (spares : l.dooms = false)
    (holds : l.mine = [⟨t, w, freeTxnEffects w⟩])
    (answered : kpSem env t (.driverDecTmpref w) s r s') : At tsk t { l with mine := [] } s' := by
  have hmine : s.mine t = [⟨t, w, freeTxnEffects w⟩] := h.mine.trans holds
  obtain ⟨halive, hdoomed⟩ := h.inv.alive_of_mine hmine
  have hinner : s.innerLock ≠ some t := by simp [h.inner, free]
  obtain ⟨-, rfl⟩ := Guarded.done answered ⟨⟨_, hmine⟩, hinner, halive⟩
  refine { h with
    inv := { h.inv with hand := h.inv.hand_others, refines := ?_ }
    mine := filter_others_self s.hand
    alive := by simp [free, spares] }
  apply h.inv.refines.drop (s.dropped t) hmine rfl rfl rfl
  intro pending log
  simp [KpWorld.atomic, KpWorld.dropped, ReclaimState.rkxFreeTxnFunc, hdoomed,
    ReclaimState.rkBinderProcDecTmpref]

/-- The decrement of the module itself: whoever finds the process unreachable is going to
free it. -/
theorem At.decTmpRef {w : RkxFreeTxnWork} {last : Bool} (h : At tsk t l s)
    (inner : l.inner = true) (holds : l.mine = [⟨t, w, freeTxnEffects w⟩])
    (answered : kpSem env t (.decTmpRef w) s last s') :
    At tsk t { l with mine := [], dooms := last } s' := by
  have hmine : s.mine t = [⟨t, w, freeTxnEffects w⟩] := h.mine.trans holds
  obtain ⟨halive, hdoomed⟩ := h.inv.alive_of_mine hmine
  obtain ⟨rfl, rfl⟩ := Guarded.done answered ⟨⟨_, hmine⟩, h.inner.mpr inner, halive⟩
  have hdooms : ∀ u, (s.decremented t).doomed = some u ↔ u = t ∧ s.lastRef = true := by
    intro u
    change (if s.lastRef then some t else s.doomed) = some u ↔ _
    cases s.lastRef with
    | false => simp [hdoomed]
    | true => simp [eq_comm]
  refine { h with
    inv := { h.inv with hand := h.inv.hand_others, doomed := ?_, refines := ?_ }
    mine := filter_others_self s.hand
    dooms := by simp [hdooms]
    alive := fun _ => halive }
  · intro u hu
    obtain ⟨rfl, -⟩ := (hdooms u).mp hu
    exact ⟨h.busy, .inr (h.inner.mpr inner)⟩
  · apply h.inv.refines.drop (s.decremented t) hmine rfl rfl rfl
    intro pending log
    have hsome : (if s.lastRef = true then some t else none).isSome = s.lastRef := by
      cases s.lastRef <;> rfl
    simp only [KpWorld.atomic, KpWorld.decremented, ReclaimState.rkxFreeTxnFunc, hdoomed,
      ReclaimState.rkBinderProcDecTmpref, hsome, Option.isSome_none, Bool.or_false]
    rfl

theorem At.freeProc {r : Unit} (h : At tsk t l s) (dooms : l.dooms = true) (free : l.inner = false)
    (answered : kpSem env t .freeProc s r s') : At tsk t { l with dooms := false } s' := by
  have halive := h.alive (.inr dooms)
  have hdoomed := h.dooms.mpr dooms
  obtain rfl := Guarded.done answered ⟨hdoomed, halive⟩
  refine { h with
    inv := { h.inv with doomed := fun u hu => by simp at hu, refines := ?_ }
    dooms := by simp
    alive := by simp [free] }
  obtain ⟨trace, pending, log, run, hperms⟩ := h.inv.refines
  -- to the accounting the process was freed with its last reference
  have hsame : KpWorld.atomic { s with mem := { s.mem with procFreed := true }, doomed := none }
      pending log = s.atomic pending log := by
    simp [KpWorld.atomic, hdoomed]
  exact ⟨trace, pending, log, hsame ▸ run, hperms⟩

/-! ### The programs -/

section Programs

variable {incoming : BinderTransaction} {strategy : UInt8}

/-- Looking twice at a table that may change in between gives a strategy that the table had
at one of the two moments. -/
theorem kwp_strategyFor (h : At tsk t l s) :
    kwp env tsk t (Kp.strategyFor env incoming)
      (fun strategy s' => At tsk t l s' ∧
        ∃ rules, strategy = freeAsyncStrategy env rules incoming) s := by
  apply kwp_call h
  rintro s₁ entries s' h₁ ⟨rfl, rfl⟩
  dsimp only
  split_ifs with hlook
  · apply kwp_call h₁
    rintro s₂ strategy s' h₂ ⟨rfl, rfl⟩
    apply kwp_ret h₂
    intro s₃ h₃
    refine ⟨h₃, s'.rules, ?_⟩
    rw [freeAsyncStrategy]
    cases hentries : rkxFreeAsyncHasEntries s'.rules with
    | false =>
      -- emptied in between, the table has no rule for the lookup either
      rw [RkxFreeAsync.lookup_of_no_entries hentries]
      rfl
    | true =>
      rw [Bool.and_eq_true] at hlook
      simp [hlook.2]
  · apply kwp_ret h₁
    intro s₂ h₂
    refine ⟨h₂, s'.rules, ?_⟩
    simp only [freeAsyncStrategy, if_neg hlook]

/-- What the driver leaves alone while a thread has the inner lock. -/
theorem kept_lists (P : BinderProc → (ℕ → BinderNode) → Prop) (inner : l.inner = true)
    (s s' : KpWorld T) (rely : Rely t s s') (h : At tsk t l s) (known : P s.mem.proc s.mem.nodes) :
    P s'.mem.proc s'.mem.nodes := by
  obtain ⟨hproc, hnodes, -⟩ := rely.locked (h.inner.mpr inner)
  rwa [hproc, hnodes]

/-- What the probe has seen when it has found the transaction to unlink. -/
def Replaceable (env : KpEnv) (incoming : BinderTransaction) (strategy : UInt8)
    (q : BinderTransaction) (proc : BinderProc) (nodes : ℕ → BinderNode) : Prop :=
  (nodes incoming.buffer.targetNode.addr).hasAsyncTransaction = true ∧
    (proc.isDead || proc.isFrozen) = false ∧
    rkBinderFindOutdatedTransactionIlocked env incoming strategy
      (nodes incoming.buffer.targetNode.addr).asyncTodo = some q

/-- A found transaction is unlinked if there is memory for its work item. -/
theorem kwp_takeOutdated (decided : Decided env incoming strategy) (inner : l.inner = true)
    (h : At tsk t l s) (probe : l.probe = true) (empty : l.mine = [])
    (node : l.node = some incoming.buffer.targetNode.addr)
    (async : (s.mem.nodes incoming.buffer.targetNode.addr).hasAsyncTransaction = true)
    (usable : (s.mem.proc.isDead || s.mem.proc.isFrozen) = false)
    {tOutdated : Option BinderTransaction}
    (found : rkBinderFindOutdatedTransactionIlocked env incoming strategy
      (s.mem.nodes incoming.buffer.targetNode.addr).asyncTodo = tOutdated) :
    kwp env tsk t (Kp.takeOutdated incoming.buffer.targetNode.addr tOutdated)
      (fun outdated => At tsk t
        { l with mine := (outdated.map fun w => ⟨t, w, []⟩).toList }) s := by
  cases tOutdated with
  | none =>
    apply kwp_ret h
    intro s' h'
    exact { h' with mine := h'.mine.trans empty }
  | some q =>
    -- what was seen under the inner lock is still so when it is acted on
    have kept : ∀ s s' : KpWorld T, Rely t s s' → At tsk t l s →
        Replaceable env incoming strategy q s.mem.proc s.mem.nodes →
        Replaceable env incoming strategy q s'.mem.proc s'.mem.nodes := kept_lists _ inner
    apply kwp_knowing kept h ⟨async, usable, found⟩
    rintro s₁ (_ | _) s' h₁ known₁ rfl
    · apply kwp_ret h₁
      intro s' h'
      exact { h' with mine := h'.mine.trans empty }
    · apply kwp_knowing kept h₁ known₁
      rintro s₂ ⟨⟩ s' h₂ ⟨async₂, usable₂, found₂⟩ answered
      have hunlinked := h₂.unlink probe inner node empty decided async₂ usable₂ found₂ answered
      exact kwp_ret hunlinked fun _ h' => h'

/-- The part under the inner lock, which is entered with the mark of the node seen. -/
theorem kwp_underInnerLock (decided : Decided env incoming strategy) (inner : l.inner = true)
    (h : At tsk t l s) (probe : l.probe = true) (empty : l.mine = [])
    (node : l.node = some incoming.buffer.targetNode.addr)
    (async : (s.mem.nodes incoming.buffer.targetNode.addr).hasAsyncTransaction = true) :
    kwp env tsk t (Kp.underInnerLock env incoming strategy)
      (fun outdated => At tsk t
        { l with mine := (outdated.map fun w => ⟨t, w, []⟩).toList }) s := by
  apply kwp_knowing (kept_lists (fun _ nodes =>
    (nodes incoming.buffer.targetNode.addr).hasAsyncTransaction = true) inner) h async
  intro s₁ gone s' h₁ async₁ answered
  obtain ⟨rfl, rfl⟩ := Guarded.done answered ⟨h₁.inner.mpr inner, h₁.alive (.inl inner)⟩
  cases hgone : s'.mem.proc.isDead || s'.mem.proc.isFrozen with
  | true =>
    apply kwp_ret h₁
    intro s' h'
    exact { h' with mine := h'.mine.trans empty }
  | false =>
    apply kwp_knowing (kept_lists (fun proc nodes =>
      (nodes incoming.buffer.targetNode.addr).hasAsyncTransaction = true ∧
        (proc.isDead || proc.isFrozen) = false) inner) h₁ ⟨async₁, hgone⟩
    rintro s₂ todo s' h₂ ⟨async₂, usable₂⟩ answered
    obtain ⟨rfl, rfl⟩ := Guarded.done answered
      ⟨h₂.inner.mpr inner, (h₂.node _).mpr node, h₂.alive (.inl inner)⟩
    exact kwp_takeOutdated decided inner h₂ probe empty node async₂ usable₂ rfl

theorem kwp_underNodeLock (decided : Decided env incoming strategy)
    (h : At tsk t ⟨true, none, false, [], false⟩ s) :
    kwp env tsk t (Kp.underNodeLock env incoming strategy)
      (fun _ => At tsk t ⟨true, none, false, [], false⟩) s := by
  apply kwp_call h
  rintro s₁ ⟨⟩ s' h₁ answered
  have hlocked := h₁.nodeLock ⟨rfl, rfl⟩ (.inl rfl) answered
  apply kwp_call hlocked
  intro s₂ async s' h₂ answered
  have halive := (h₂.referenced (.inl rfl)).1
  obtain ⟨rfl, rfl⟩ := Guarded.done answered ⟨(h₂.node _).mpr rfl, halive⟩
  cases hasync : (s'.mem.nodes incoming.buffer.targetNode.addr).hasAsyncTransaction with
  | false =>
    apply kwp_call h₂
    rintro s₃ ⟨⟩ s' h₃ answered
    exact kwp_ret (h₃.nodeUnlock rfl (.inl rfl) answered) fun _ h' => h'
  | true =>
    -- the node lock keeps the mark until the inner lock is there too
    have kept : ∀ s s' : KpWorld T, Rely t s s' →
        At tsk t ⟨true, some incoming.buffer.targetNode.addr, false, [], false⟩ s →
        (s.mem.nodes incoming.buffer.targetNode.addr).hasAsyncTransaction = true →
        (s'.mem.nodes incoming.buffer.targetNode.addr).hasAsyncTransaction = true :=
      fun s s' rely hat known => (rely.async _ ((hat.node _).mpr rfl)).trans known
    apply kwp_knowing kept h₂ hasync
    rintro s₃ ⟨⟩ s' h₃ async₃ answered
    have hboth := h₃.innerLock rfl (.inl rfl) answered
    have async' : (s'.mem.nodes incoming.buffer.targetNode.addr).hasAsyncTransaction = true := by
      have hright : s₃.innerLock ≠ some t := by simp [h₃.inner]
      obtain ⟨-, rfl⟩ := Guarded.done answered ⟨hright, (h₃.referenced (.inl rfl)).1⟩
      exact async₃
    apply wp_bind (kwp_underInnerLock decided rfl hboth rfl rfl rfl async')
    intro outdated s₄ h₄
    apply kwp_call h₄
    rintro s₅ ⟨⟩ s' h₅ answered
    apply kwp_call (h₅.innerUnlock rfl answered)
    rintro s₆ ⟨⟩ s' h₆ answered
    have hfree := h₆.nodeUnlock rfl (.inl rfl) answered
    cases outdated with
    | none => exact kwp_ret hfree fun _ h' => h'
    | some w =>
      apply kwp_call hfree
      rintro s₇ ⟨⟩ s' h₇ answered
      exact kwp_ret (h₇.queueWork rfl rfl answered) fun _ h' => h'

theorem kwp_rkxBinderProcTransactionPre (h : At tsk t ⟨true, none, false, [], false⟩ s) :
    kwp env tsk t (Kp.rkxBinderProcTransactionPre env incoming)
      (fun _ => At tsk t ⟨true, none, false, [], false⟩) s := by
  unfold Kp.rkxBinderProcTransactionPre
  split_ifs with hflags
  · exact kwp_ret h fun _ h' => h'
  apply kwp_call h
  rintro s₁ frozen s' h₁ ⟨rfl, rfl⟩
  cases hfrozen : rkxIsFrozen (s'.tasks s'.mem.proc.tsk) with
  | false => exact kwp_ret h₁ fun _ h' => h'
  | true =>
    apply wp_bind (kwp_strategyFor h₁)
    rintro strategy s₂ ⟨h₂, rules, hstrategy⟩
    by_cases hskip : strategy = rkxFreeAsyncSkip
    · rw [if_pos hskip]
      exact kwp_ret h₂ fun _ h' => h'
    · rw [if_neg hskip]
      exact kwp_underNodeLock ⟨hflags, hskip, _, rules, hfrozen, hstrategy⟩ h₂

theorem kwp_rkBinderProcDecTmpref (direct : Bool) {w : RkxFreeTxnWork}
    (h : At tsk t ⟨false, none, false, [⟨t, w, freeTxnEffects w⟩], false⟩ s) :
    kwp env tsk t (Kp.rkBinderProcDecTmpref direct w)
      (fun _ => At tsk t ⟨false, none, false, [], false⟩) s := by
  cases direct with
  | true =>
    apply kwp_call h
    rintro s₁ ⟨⟩ s' h₁ answered
    exact kwp_ret (h₁.driverDecTmpref rfl rfl rfl answered) fun _ h' => h'
  | false =>
    apply kwp_call h
    rintro s₁ ⟨⟩ s' h₁ answered
    apply kwp_call (h₁.innerLock rfl (.inr (by simp)) answered)
    intro s₂ last s' h₂ answered
    apply kwp_call (h₂.decTmpRef rfl rfl answered)
    rintro s₃ ⟨⟩ s' h₃ answered
    have hunlocked := h₃.innerUnlock rfl answered
    cases last with
    | false => exact kwp_ret hunlocked fun _ h' => h'
    | true =>
      apply kwp_call hunlocked
      rintro s₄ ⟨⟩ s' h₄ answered
      exact kwp_ret (h₄.freeProc rfl rfl answered) fun _ h' => h'

theorem kwp_rkxFreeTxnFunc (direct : Bool) {w : RkxFreeTxnWork}
    (h : At tsk t ⟨false, none, false, [⟨t, w, []⟩], false⟩ s) :
    kwp env tsk t (Kp.rkxFreeTxnFunc direct w)
      (fun _ => At tsk t ⟨false, none, false, [], false⟩) s := by
  apply kwp_call h
  rintro s₁ ⟨⟩ s' h₁ answered
  apply kwp_call (h₁.reclaim rfl answered)
  rintro s₂ ⟨⟩ s' h₂ answered
  apply kwp_call (h₂.reclaim rfl answered)
  rintro s₃ ⟨⟩ s' h₃ answered
  apply kwp_call (h₃.reclaim rfl answered)
  rintro s₄ ⟨⟩ s' h₄ answered
  exact kwp_rkBinderProcDecTmpref direct (h₄.reclaim rfl answered)

end Programs

/-! ### All threads -/

/-- A thread that does nothing has nothing. -/
theorem KpInv.idle (inv : KpInv tsk s) (idle : t ∉ s.probing ∧ t ∉ s.working) :
    (∀ n, s.nodeLock n ≠ some t) ∧ s.innerLock ≠ some t ∧ s.mine t = [] ∧ s.doomed ≠ some t := by
  have hidle : ¬ s.Busy t := not_or.mpr idle
  refine ⟨fun n h => hidle (inv.node n t h), fun h => hidle (inv.inner t h), ?_,
    fun h => hidle (inv.doomed t h).1⟩
  apply List.filter_eq_nil_iff.mpr
  intro h hh howner
  rw [decide_eq_true_iff] at howner
  exact hidle (howner ▸ inv.hand h hh)

theorem KpInv.startProbe (inv : KpInv tsk s) (idle : t ∉ s.probing ∧ t ∉ s.working)
    (registered : s.mem.kpRegistered = true) (sending : s.probing.length < s.mem.driverRefs) :
    At tsk t ⟨true, none, false, [], false⟩ { s with probing := t :: s.probing } := by
  obtain ⟨hnode, hinner, hmine, hdoomed⟩ := inv.idle idle
  have hbusy : ∀ u, s.Busy u → KpWorld.Busy { s with probing := t :: s.probing } u :=
    fun u hu => hu.imp_left (List.mem_cons_of_mem t)
  exact {
    inv := { inv with
      sending := sending
      registered := fun _ => registered
      hand := fun h hh => hbusy _ (inv.hand h hh)
      node := fun n u hu => hbusy _ (inv.node n u hu)
      inner := fun u hu => hbusy _ (inv.inner u hu)
      doomed := fun u hu => ⟨hbusy _ (inv.doomed u hu).1, (inv.doomed u hu).2⟩
      refines := inv.refines }
    busy := .inl List.mem_cons_self
    probing := fun _ => List.mem_cons_self
    node := fun n => by simp [hnode n]
    inner := by simp [hinner]
    mine := hmine
    dooms := by simp [hdoomed]
    alive := by simp }

theorem KpInv.startWork {w : RkxFreeTxnWork} (inv : KpInv tsk s)
    (idle : t ∉ s.probing ∧ t ∉ s.working) (queued : w ∈ s.mem.pending) :
    At tsk t ⟨false, none, false, [⟨t, w, []⟩], false⟩
      { s with
        mem := { s.mem with pending := s.mem.pending.erase w }
        working := t :: s.working
        hand := s.hand ++ [⟨t, w, []⟩] } := by
  obtain ⟨hnode, hinner, hmine, hdoomed⟩ := inv.idle idle
  have hbusy : ∀ u, s.Busy u → u ∈ s.probing ∨ u ∈ t :: s.working :=
    fun u hu => hu.imp_right (List.mem_cons_of_mem t)
  refine {
    inv := { inv with
      hand := ?_
      node := fun n u hu => hbusy _ (inv.node n u hu)
      inner := fun u hu => hbusy _ (inv.inner u hu)
      doomed := fun u hu => ⟨hbusy _ (inv.doomed u hu).1, (inv.doomed u hu).2⟩
      refines := ?_ }
    busy := .inr List.mem_cons_self
    probing := nofun
    node := fun n => by simp [hnode n]
    inner := by simp [hinner]
    mine := ?_
    dooms := by simp [hdoomed]
    alive := by simp }
  · intro h hh
    rcases List.mem_append.mp hh with hold | hnew
    · exact hbusy _ (inv.hand h hold)
    · obtain rfl := List.mem_singleton.mp hnew
      exact .inr List.mem_cons_self
  · obtain ⟨trace, pending, log, run, hpending, hlog⟩ := inv.refines
    refine ⟨trace, pending, log, run, hpending.trans ?_, by simpa using hlog⟩
    -- the work is taken off the queue into the thread's hand
    have htaken := (List.perm_cons_erase queued).append_right (s.hand.map TxnInHand.work)
    have hmoved : ([w] ++ (s.mem.pending.erase w ++ s.hand.map TxnInHand.work)).Perm
        ((s.mem.pending.erase w ++ s.hand.map TxnInHand.work) ++ [w]) := List.perm_append_comm
    exact htaken.trans (by simpa using hmoved)
  · have hadded := filter_append_self (t := t) s.hand ⟨t, w, []⟩ rfl
    rw [← KpWorld.mine, hmine] at hadded
    exact hadded

theorem At.finish {probe : Bool} (h : At tsk t ⟨probe, none, false, [], false⟩ s) :
    KpInv tsk { s with probing := s.probing.erase t, working := s.working.erase t } := by
  have hbusy : ∀ u, u ≠ t → s.Busy u → u ∈ s.probing.erase t ∨ u ∈ s.working.erase t :=
    fun u hu busy => busy.imp (List.mem_erase_of_ne hu).mpr (List.mem_erase_of_ne hu).mpr
  refine { h.inv with
    sending := (List.length_erase_le ..).trans h.inv.sending
    registered := fun hprobing => h.inv.registered fun hnone => hprobing (by simp [hnone])
    hand := fun hand hmem => hbusy _ ?_ (h.inv.hand hand hmem)
    node := fun n u hu => hbusy _ ?_ (h.inv.node n u hu)
    inner := fun u hu => hbusy _ ?_ (h.inv.inner u hu)
    doomed := fun u hu => ⟨hbusy _ ?_ (h.inv.doomed u hu).1, (h.inv.doomed u hu).2⟩
    refines := h.inv.refines }
  · intro howner
    have hnone : hand ∈ s.mine t := List.mem_filter.mpr ⟨hmem, decide_eq_true howner⟩
    rw [h.mine] at hnone
    exact List.not_mem_nil hnone
  · rintro rfl
    have hnone := (h.node n).mp hu
    simp at hnone
  · rintro rfl
    have hnone := h.inner.mp hu
    simp at hnone
  · rintro rfl
    have hnone := h.dooms.mp hu
    simp at hnone

/-- Probes and works respect each other's locks, whatever the driver does in between. -/
theorem kp_relyGuarantee (env : KpEnv) (direct : Bool) (tsk : ℕ) :
    RelyGuarantee (kpSystem T env direct) (KpInv tsk) Rely (fun _ _ => True)
      (fun t s => ∃ probe, At tsk t ⟨probe, none, false, [], false⟩ s) where
  call ne inv answered := kpSem_rely ne inv answered
  start := by
    intro t p s s' inv _ started
    cases started with
    | probe incoming idle registered sending =>
      refine ⟨wp_mono (kwp_rkxBinderProcTransactionPre
        (inv.startProbe idle registered sending)) fun _ s' h' => ⟨true, h'⟩, ?_⟩
      intro u hu
      exact { Rely.refl u s with probing := by simp [Ne.symm hu] }
    | work w idle queued =>
      refine ⟨wp_mono (kwp_rkxFreeTxnFunc direct (inv.startWork idle queued))
        fun _ s' h' => ⟨false, h'⟩, ?_⟩
      intro u hu
      exact { Rely.refl u s with
        working := by simp [Ne.symm hu]
        mine := filter_append_other _ _ hu }
  finish := by
    rintro t s s' inv ⟨probe, h⟩ rfl
    refine ⟨h.finish, trivial, ?_⟩
    intro u hu
    exact { Rely.refl u s with
      probing := List.mem_erase_of_ne (Ne.symm hu)
      working := List.mem_erase_of_ne (Ne.symm hu) }
  env inv moved := ⟨kpEnvStep_inv inv moved, kpEnvStep_rely inv moved⟩
  rested _ _ _ := trivial

omit [DecidableEq T] in
theorem kpInv_init (tsk : ℕ) (tasks : ℕ → TaskStruct) (rules : RkxFreeAsync) :
    KpInv tsk (KpWorld.init tsk tasks rules : KpWorld T) where
  ok := rfl
  sending := Nat.zero_le _
  registered h := absurd rfl h
  hand _ h := absurd h List.not_mem_nil
  node _ _ h := by simp [KpWorld.init] at h
  inner _ h := by simp [KpWorld.init] at h
  doomed _ h := by simp [KpWorld.init] at h
  refines := ⟨[], [], [], .nil, .nil, .nil⟩

/-- In every interleaving of probes, works and the driver, call by call: no call is wrong where
it is made, so nothing is read or changed without its lock, no lock is taken twice or out of
order, nothing is unlinked twice, nothing is put on a destroyed queue and no freed process is
used; the state is one that the accounting reaches with the probe and the freeing of a work as
single steps; and a thread whose program has returned holds no lock and has no work in hand. -/
theorem probe_threads_refine_accounting (env : KpEnv) (direct : Bool) (tsk : ℕ)
    (tasks : ℕ → TaskStruct) (rules : RkxFreeAsync)
    {pool : Pool T KpCall KpCall.Answer Unit} {s : KpWorld T}
    (steps : PoolSteps (kpSystem T env direct)
      (fun _ => none, KpWorld.init tsk tasks rules) (pool, s)) :
    s.ok = true ∧ s.Refines tsk ∧
      ∀ t a, pool t = some (ret a) → ¬ s.Holds t ∧ s.mine t = [] := by
  have hverified := (kp_relyGuarantee env direct tsk).steps (kpInv_init tsk tasks rules)
    (fun _ => trivial) steps
  refine ⟨hverified.inv.ok, hverified.inv.refines, ?_⟩
  intro t a hreturned
  obtain ⟨probe, h⟩ := wp_returned (hverified.wp t _ hreturned)
  refine ⟨?_, h.mine⟩
  intro holds
  rcases holds with hinner | ⟨n, hnode⟩
  · simp [h.inner] at hinner
  · simp [h.node] at hnode

/-! Two sends at once. A transaction waits on the node they both go to. The probe of the first
has unlinked it and still has both locks, that of the second waits for the node. -/

/-- One transaction is being handled and one waits, while two senders hold references. -/
def twoSending : ReclaimState :=
  ((ReclaimState.init 0).getRef.getRef.enqueue (oneWayOf 1 [])).enqueue (oneWayOf 2 [])

def contended : KpWorld Bool :=
  { ({ (KpWorld.init 0 (fun _ => ⟨true, false, none⟩) rkxInitFreeAsync : KpWorld Bool) with
      mem := twoSending
      probing := [false]
      nodeLock := Function.update (fun _ => none) 0 (some false)
      innerLock := some false } : KpWorld Bool).unlinked false 0 (oneWayOf 2 []) with
    probing := [true, false] }

abbrev frozenSystem : System Bool KpCall KpCall.Answer Unit (KpWorld Bool) :=
  kpSystem Bool frozenEnv true

theorem exists_steps_contended : ∃ pool k,
    PoolSteps frozenSystem
      (fun _ => none, KpWorld.init 0 (fun _ => ⟨true, false, none⟩) rkxInitFreeAsync)
      (pool, contended) ∧
    pool true = some (.call (KpCall.nodeLock 0) k) := by
  have first : PoolSteps frozenSystem
      (fun _ => none, KpWorld.init 0 (fun _ => ⟨true, false, none⟩) rkxInitFreeAsync)
      (fun _ => none, _) :=
    .single (.env (.driver (a := .getRef) trivial rfl rfl nofun nofun))
  have second := first.tail (.env (.driver (a := .getRef) trivial rfl rfl nofun nofun))
  have delivered := second.tail (.env (.driver (a := .enqueue (oneWayOf 1 [])) trivial
    ⟨by decide, rfl, by decide⟩ rfl (fun _ _ => rfl) nofun))
  have waiting := delivered.tail (.env (.driver (a := .enqueue (oneWayOf 2 [])) trivial
    ⟨by decide, rfl, by decide⟩ rfl (fun _ _ => rfl) nofun))
  have entered := waiting.tail (.start (t := false) rfl
    (.probe (oneWayOf 3 []) ⟨by decide, by decide⟩ rfl (by decide)))
  have frozen := entered.tail (.call (t := false) (i := KpCall.isFrozen)
    (Function.update_self ..) ⟨rfl, rfl⟩)
  have looked := frozen.tail (.call (t := false) (i := KpCall.hasEntries)
    (Function.update_self ..) ⟨rfl, rfl⟩)
  have locked := looked.tail (.call (t := false) (i := KpCall.nodeLock 0) (r := ())
    (Function.update_self ..) (.inl ⟨⟨by simp [KpWorld.Holds, KpWorld.init], rfl⟩, rfl, rfl⟩))
  have busy := locked.tail (.call (t := false) (i := KpCall.hasAsyncTransaction 0) (r := true)
    (Function.update_self ..) (.inl ⟨⟨rfl, rfl⟩, rfl, rfl⟩))
  have inner := busy.tail (.call (t := false) (i := KpCall.innerLock) (r := ())
    (Function.update_self ..) (.inl ⟨⟨nofun, rfl⟩, rfl, rfl⟩))
  have alive := inner.tail (.call (t := false) (i := KpCall.deadOrFrozen) (r := false)
    (Function.update_self ..) (.inl ⟨⟨rfl, rfl⟩, rfl, rfl⟩))
  have read := alive.tail (.call (t := false) (i := KpCall.asyncTodo 0)
    (r := [BinderWork.transaction (oneWayOf 2 [])])
    (Function.update_self ..) (.inl ⟨⟨rfl, rfl, rfl⟩, rfl, rfl⟩))
  have allocated := read.tail (.call (t := false) (i := KpCall.kzalloc) (r := true)
    (Function.update_self ..) rfl)
  have unlinked := allocated.tail (.call (t := false) (i := KpCall.unlink 0 (oneWayOf 2 []))
    (r := ()) (Function.update_self ..) (.inl ⟨⟨rfl, rfl, rfl, by decide⟩, rfl⟩))
  -- the second sender gets as far as the lock
  have joined := unlinked.tail (.start (t := true) rfl
    (.probe (oneWayOf 4 []) ⟨by decide, by decide⟩ rfl (by decide)))
  have frozen' := joined.tail (.call (t := true) (i := KpCall.isFrozen)
    (Function.update_self ..) ⟨rfl, rfl⟩)
  have looked' := frozen'.tail (.call (t := true) (i := KpCall.hasEntries)
    (Function.update_self ..) ⟨rfl, rfl⟩)
  exact ⟨_, _, looked', Function.update_self ..⟩

theorem probe_threads_refine_accounting_contended :
    contended.nodeLock 0 = some false ∧ contended.mine false ≠ [] ∧ contended.ok = true ∧
      contended.Refines 0 := by
  obtain ⟨pool, -, steps, -⟩ := exists_steps_contended
  obtain ⟨hok, hrefines, -⟩ := probe_threads_refine_accounting frozenEnv true 0 _ _ steps
  exact ⟨rfl, by decide, hok, hrefines⟩

end ReKernelX
