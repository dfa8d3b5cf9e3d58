import ReKernelX.Foundation.Chains
import ReKernelX.Foundation.RcuList
import ReKernelX.Foundation.Transition

/-!
# The monitored user ids

`rkx_netuid.c` keeps the user ids whose traffic is reported in a chained hash
table of 64 buckets. Adding reports nothing: when the allocation fails the id is
simply not there afterwards.

The table stands for the set of ids that a lookup finds. Each call changes the
membership of its own id only, whichever ids share the bucket.
-/

set_option autoImplicit false

namespace ReKernelX

/-! ### The code -/

/-- `struct rkx_uid_info` without its list and RCU hooks. -/
structure RkxUidInfo where
  uid : UInt32
  deriving DecidableEq

/-- `rkx_net_uid_map`, the static state of `rkx_netuid.c`. -/
abbrev RkxNetUid := Chains.Table 64 RkxUidInfo

section Code

-- The bucket of a user id; nothing below depends on which function it is.
variable (hash : UInt32 → Fin 64)

/-- `rkx_net_uid_monitored_rcu` -/
def rkxNetUidMonitoredRcu (t : RkxNetUid) (uid : UInt32) : Bool :=
  (t (hash uid)).any fun entry => decide (entry.uid = uid)

/-- `rkx_add_net_uid`, given whether its `kmalloc` would succeed. It returns
nothing, so the caller does not learn that it failed. -/
def rkxAddNetUid (t : RkxNetUid) (uid : UInt32) (kmallocOk : Bool) : RkxNetUid :=
  let found := (t (hash uid)).any fun entry => decide (entry.uid = uid)
  if found = false then
    if kmallocOk then t.addHead (hash uid) ⟨uid⟩ else t
  else t

/-- `rkx_del_net_uid` -/
def rkxDelNetUid (t : RkxNetUid) (uid : UInt32) : RkxNetUid :=
  match Chains.unlinkFirst (fun entry => decide (RkxUidInfo.uid entry = uid)) (t (hash uid)) with
  | some chain => Function.update t (hash uid) chain
  | none => t

/-- `rkx_destroy_net_uid` -/
def rkxDestroyNetUid (t : RkxNetUid) : RkxNetUid := t.unlinkAll

/-- `rkx_init_net_uid` -/
def rkxInitNetUid : RkxNetUid := Chains.Table.empty

end Code

/-! ### The set of monitored ids -/

namespace RkxNetUid

variable {hash : UInt32 → Fin 64} {t : RkxNetUid}

/-- Ids sit in their bucket, and none is linked twice. -/
abbrev Inv (hash : UInt32 → Fin 64) (t : RkxNetUid) : Prop :=
  Chains.WellKeyed RkxUidInfo.uid hash t

theorem inv_init : Inv hash rkxInitNetUid := Chains.wellKeyed_empty

/-- A lookup is a search for the id in its bucket. -/
theorem monitored_iff (t : RkxNetUid) (uid : UInt32) :
    rkxNetUidMonitoredRcu hash t uid = (Chains.held RkxUidInfo.uid hash t uid).isSome := by
  rw [rkxNetUidMonitoredRcu, Chains.held, List.isSome_find?]

theorem monitored_init (uid : UInt32) : rkxNetUidMonitoredRcu hash rkxInitNetUid uid = false :=
  rfl

theorem held_eq_none_of_not_monitored {uid : UInt32}
    (h : rkxNetUidMonitoredRcu hash t uid = false) :
    Chains.held RkxUidInfo.uid hash t uid = none := by
  rwa [monitored_iff, Option.isSome_eq_false_iff, Option.isNone_iff_eq_none] at h

/-- The three ways through `rkx_add_net_uid`. -/
theorem add_cases (t : RkxNetUid) (uid : UInt32) (kmallocOk : Bool) :
    rkxNetUidMonitoredRcu hash t uid = true ∧ rkxAddNetUid hash t uid kmallocOk = t ∨
    rkxNetUidMonitoredRcu hash t uid = false ∧ kmallocOk = true ∧
      rkxAddNetUid hash t uid kmallocOk = t.addHead (hash uid) ⟨uid⟩ ∨
    rkxNetUidMonitoredRcu hash t uid = false ∧ kmallocOk = false ∧
      rkxAddNetUid hash t uid kmallocOk = t := by
  unfold rkxAddNetUid
  cases hfound : rkxNetUidMonitoredRcu hash t uid with
  | true =>
    rw [rkxNetUidMonitoredRcu] at hfound
    simp [hfound]
  | false =>
    rw [rkxNetUidMonitoredRcu] at hfound
    cases kmallocOk <;> simp [hfound]

theorem Inv.add (inv : Inv hash t) (uid : UInt32) (kmallocOk : Bool) :
    Inv hash (rkxAddNetUid hash t uid kmallocOk) := by
  rcases add_cases t uid kmallocOk with ⟨-, hsame⟩ | ⟨habsent, -, hlinked⟩ | ⟨-, -, hsame⟩
  · rwa [hsame]
  · rw [hlinked]
    have absent : Chains.held RkxUidInfo.uid hash t (RkxUidInfo.uid ⟨uid⟩) = none :=
      held_eq_none_of_not_monitored habsent
    exact Chains.WellKeyed.addHead inv absent
  · rwa [hsame]

/-- After an add its id is monitored if it was before or if there was memory for
it; every other id is as before. -/
theorem monitored_add (t : RkxNetUid) (uid : UInt32) (kmallocOk : Bool) (u : UInt32) :
    rkxNetUidMonitoredRcu hash (rkxAddNetUid hash t uid kmallocOk) u =
      (rkxNetUidMonitoredRcu hash t u || (decide (u = uid) && kmallocOk)) := by
  rcases add_cases t uid kmallocOk with ⟨hfound, hsame⟩ | ⟨-, hok, hlinked⟩ | ⟨-, hok, hsame⟩
  · rw [hsame]
    by_cases hu : u = uid
    · rw [hu, hfound, Bool.true_or]
    · simp [hu]
  · have hheld : Chains.held RkxUidInfo.uid hash (t.addHead (hash uid) ⟨uid⟩) u =
        if u = uid then some ⟨uid⟩ else Chains.held RkxUidInfo.uid hash t u :=
      Chains.held_addHead (RkxUidInfo.mk uid) u
    rw [hlinked, monitored_iff, monitored_iff, hok, hheld]
    by_cases hu : u = uid
    · simp [hu]
    · simp [hu]
  · rw [hsame, hok, Bool.and_false, Bool.or_false]

theorem Inv.del (inv : Inv hash t) (uid : UInt32) : Inv hash (rkxDelNetUid hash t uid) := by
  unfold rkxDelNetUid
  split
  · next unlinked => exact Chains.WellKeyed.unlinkFirst inv unlinked
  · exact inv

/-- After a deletion its id is not monitored, and every other id is as before. -/
theorem Inv.monitored_del (inv : Inv hash t) (uid u : UInt32) :
    rkxNetUidMonitoredRcu hash (rkxDelNetUid hash t uid) u =
      (rkxNetUidMonitoredRcu hash t u && !decide (u = uid)) := by
  unfold rkxDelNetUid
  split
  · next unlinked =>
    rw [monitored_iff, monitored_iff, Chains.WellKeyed.held_unlinkFirst inv unlinked]
    by_cases hu : u = uid
    · simp [hu]
    · simp [hu]
  · next hnone =>
    -- there was nothing to unlink
    have habsent : Chains.held RkxUidInfo.uid hash t uid = none :=
      Chains.unlinkFirst_eq_none_iff.mp hnone
    by_cases hu : u = uid
    · rw [hu, monitored_iff, habsent]
      rfl
    · simp [hu]

theorem rkxDestroyNetUid_eq_init (t : RkxNetUid) : rkxDestroyNetUid t = rkxInitNetUid :=
  Chains.Table.unlinkAll_eq_empty t

/-- The ids that are linked, bucket by bucket. -/
def uids (t : RkxNetUid) : List UInt32 := t.entries.map RkxUidInfo.uid

/-- A lookup finds what is linked anywhere in the table. -/
theorem Inv.monitored_iff_mem (inv : Inv hash t) (u : UInt32) :
    rkxNetUidMonitoredRcu hash t u = true ↔ u ∈ t.uids := by
  rw [monitored_iff, uids, inv.mem_keys_iff]

/-! ### Histories -/

end RkxNetUid

/-- A call of a writer; an add comes with what its `kmalloc` would return. -/
inductive UidCall
  | add (uid : UInt32) (kmallocOk : Bool)
  | del (uid : UInt32)
  | destroy
  deriving DecidableEq

namespace UidCall

variable (hash : UInt32 → Fin 64)

def run (t : RkxNetUid) : UidCall → RkxNetUid
  | .add uid kmallocOk => rkxAddNetUid hash t uid kmallocOk
  | .del uid => rkxDelNetUid hash t uid
  | .destroy => rkxDestroyNetUid t

/-- The table after `rkx_init_net_uid` and some calls. -/
def tableAfter (calls : List UidCall) : RkxNetUid := calls.foldl (run hash) rkxInitNetUid

variable {hash}

theorem inv_run {t : RkxNetUid} (c : UidCall) (inv : t.Inv hash) : (c.run hash t).Inv hash := by
  cases c with
  | add uid kmallocOk => exact inv.add uid kmallocOk
  | del uid => exact inv.del uid
  | destroy =>
    rw [run, RkxNetUid.rkxDestroyNetUid_eq_init]
    exact RkxNetUid.inv_init

theorem inv_tableAfter (calls : List UidCall) : (tableAfter hash calls).Inv hash :=
  Transition.invariant_foldl (fun _ c => inv_run c) RkxNetUid.inv_init calls

/-- A call leaves an id monitored, whether it was before or not. -/
def Adds (u : UInt32) (t : RkxNetUid) (c : UidCall) : Prop :=
  ∃ kmallocOk, c = .add u kmallocOk ∧ (u ∈ t.uids ∨ kmallocOk = true)

/-- A call leaves an id not monitored. -/
def Removes (u : UInt32) (c : UidCall) : Prop := c = .del u ∨ c = .destroy

/-- What one call does to one id. -/
theorem monitored_run {t : RkxNetUid} (inv : t.Inv hash) (c : UidCall) (u : UInt32) :
    rkxNetUidMonitoredRcu hash (c.run hash t) u = true ↔
      c.Adds u t ∨ rkxNetUidMonitoredRcu hash t u = true ∧ ¬ c.Removes u := by
  cases c with
  | add uid kmallocOk =>
    rw [run, RkxNetUid.monitored_add, Adds, Removes, ← inv.monitored_iff_mem]
    by_cases hu : uid = u
    · subst hu
      cases kmallocOk <;> simp
    · have hne : ¬ u = uid := fun h => hu h.symm
      simp [hu, hne]
  | del uid =>
    rw [run, inv.monitored_del, Adds, Removes]
    grind
  | destroy =>
    rw [run, RkxNetUid.rkxDestroyNetUid_eq_init, RkxNetUid.monitored_init, Adds, Removes]
    simp

/-- An id is monitored if and only if a call added it and none since removed it. -/
theorem monitored_tableAfter (calls : List UidCall) (u : UInt32) :
    rkxNetUidMonitoredRcu hash (tableAfter hash calls) u = true ↔
      ∃ before c after, calls = before ++ c :: after ∧
        c.Adds u (tableAfter hash before) ∧ ∀ d ∈ after, ¬ d.Removes u := by
  have hinit : ¬ rkxNetUidMonitoredRcu hash rkxInitNetUid u = true := by
    rw [RkxNetUid.monitored_init]
    exact Bool.false_ne_true
  exact Transition.holds_foldl_iff (P := fun t => rkxNetUidMonitoredRcu hash t u = true)
    RkxNetUid.inv_init (fun _ c => inv_run c) hinit (fun _ c inv => monitored_run inv c u) calls

/-- Lookups answer for a set of ids. An id is monitored if and only if it was added,
with memory for it or on top of itself, and since then neither it nor everything was
removed; an add or a deletion of one id is not seen by another; no id is linked twice,
so one deletion leaves no trace of its id; and destroying the table leaves every bucket
empty, also when the walk of `hash_for_each_safe` is followed pointer by pointer, for
any addresses `mem` of the entries. -/
theorem monitored_uids_form_set (hash : UInt32 → Fin 64) (calls : List UidCall) :
    (∀ u, rkxNetUidMonitoredRcu hash (tableAfter hash calls) u = true ↔
      ∃ before kmallocOk after, calls = before ++ .add u kmallocOk :: after ∧
        (u ∈ (tableAfter hash before).uids ∨ kmallocOk = true) ∧
        ∀ c ∈ after, c ≠ .del u ∧ c ≠ .destroy) ∧
    (∀ u v kmallocOk, u ≠ v →
      rkxNetUidMonitoredRcu hash (rkxAddNetUid hash (tableAfter hash calls) v kmallocOk) u =
        rkxNetUidMonitoredRcu hash (tableAfter hash calls) u ∧
      rkxNetUidMonitoredRcu hash (rkxDelNetUid hash (tableAfter hash calls) v) u =
        rkxNetUidMonitoredRcu hash (tableAfter hash calls) u) ∧
    (tableAfter hash calls).uids.Nodup ∧
    (∀ u, u ∉ (rkxDelNetUid hash (tableAfter hash calls) u).uids) ∧
    (∀ b, rkxDestroyNetUid (tableAfter hash calls) b = []) ∧
    ∀ (ν : Type) [DecidableEq ν] (mem : ν → RkxUidInfo) (chains : Fin 64 → Rcu.Chain ν) (fuel : ℕ),
      (∀ b, (chains b).live.map mem = tableAfter hash calls b ∧ (chains b).live.length ≤ fuel) →
      ∃ chains', Rcu.Chain.drainEach fuel (List.finRange 64) chains = some chains' ∧
        ∀ b, (chains' b).live = [] := by
  have inv : (tableAfter hash calls).Inv hash := inv_tableAfter calls
  refine ⟨fun u => ?_, fun u v kmallocOk hne => ⟨?_, ?_⟩, inv.nodup_keys, fun u => ?_,
    fun b => ?_, ?_⟩
  · rw [monitored_tableAfter]
    constructor
    · rintro ⟨before, _, after, hcalls, ⟨kmallocOk, rfl, hadds⟩, hkept⟩
      exact ⟨before, kmallocOk, after, hcalls, hadds, fun c hc => not_or.mp (hkept c hc)⟩
    · rintro ⟨before, kmallocOk, after, hcalls, hadds, hkept⟩
      exact ⟨before, _, after, hcalls, ⟨kmallocOk, rfl, hadds⟩, fun c hc => not_or.mpr (hkept c hc)⟩
  · rw [RkxNetUid.monitored_add, decide_eq_false hne, Bool.false_and, Bool.or_false]
  · rw [inv.monitored_del, decide_eq_false hne, Bool.not_false, Bool.and_true]
  · rw [← (inv.del u).monitored_iff_mem, inv.monitored_del, decide_eq_true rfl]
    simp
  · rw [RkxNetUid.rkxDestroyNetUid_eq_init]
    rfl
  · intro ν _ mem chains fuel hlayout
    obtain ⟨chains', hrun, hempty, -⟩ :=
      Rcu.Chain.exists_drainEach (List.finRange 64) chains fun b => (hlayout b).2
    exact ⟨chains', hrun, fun b => hempty b (List.mem_finRange b)⟩

end UidCall

end ReKernelX
