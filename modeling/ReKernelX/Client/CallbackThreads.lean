import ReKernelX.Client.Callbacks

/-!
# The callback object among threads

However calls of `setCallback` and dispatches of `pollEvent` are interleaved: the
references are used and deleted only while they exist and by whoever has them, a
global reference outlives `g_callback` only until its last owner deletes it, and
what a dispatch calls is the object that was installed when it looked.

All of this is for datagrams whose messages lie in the receive buffer of 8192 bytes;
when they do is the subject of `Receive`.
-/

set_option autoImplicit false

namespace ReKernelX.Client

open Bytes Netlink Proc Ledger CbWorld

variable {T : Type} {implements : ℕ → Bool} {spare single : Bool}
  {s s' : CbWorld T} {t u : T}

/-! ### The invariant -/

variable [DecidableEq T]

/-- Nothing went wrong. The global references that exist are that of `g_callback` and those in
hand, each in one place; they refer to objects of the interface; the ledger has them; and the
history is in order. -/
structure CbInv (implements : ℕ → Bool) (strict : Prop) (s : CbWorld T) : Prop where
  ok : s.ok = true
  live : ∀ ref, (s.globals ref).isSome ↔ s.gCallback = some ref ∨ ∃ t, s.hand t = some ref
  apart : ∀ t ref, s.hand t = some ref → s.gCallback ≠ some ref
  owner : ∀ t u ref, s.hand t = some ref → s.hand u = some ref → t = u
  typed : ∀ ref object, s.globals ref = some object → implements object = true
  balanced : Balanced s.log
  held : ∀ ref, ref ∈ held s.log ↔ (s.globals ref).isSome
  orderly : Orderly s.history
  current : installed s.history = s.current
  genuine : ∀ object, CbEvent.install (some object) ∈ s.history → implements object = true
  proper : strict → s.proper = true

/-- What the other native calls leave to one. -/
structure CbRely (t : T) (s s' : CbWorld T) : Prop where
  mutex : s'.mutex = some t ↔ s.mutex = some t
  callback : s.mutex = some t → s'.gCallback = s.gCallback
  hand : s'.hand t = s.hand t
  locals : s'.locals t = s.locals t
  pending : s'.pending t = s.pending t
  picked : picked t s'.history = picked t s.history

theorem CbRely.refl (t : T) (s : CbWorld T) : CbRely t s s :=
  ⟨.rfl, fun _ => rfl, rfl, rfl, rfl, rfl⟩

/-- A call that does nothing but what it notes, or fails, leaves everything to the others. -/
theorem CbRely.thrown (ne : t ≠ u) : CbRely u s ((s.noted t).thrown t) :=
  { CbRely.refl u s with pending := Function.update_of_ne (Ne.symm ne) _ _ }

theorem CbRely.localMade (ne : t ≠ u) {ref : ℕ} {value : JValue} :
    CbRely u s ((s.noted t).localMade t ref value) :=
  { CbRely.refl u s with locals := Function.update_of_ne (Ne.symm ne) _ _ }

theorem picked_drop (ne : t ≠ u) (history : List (CbEvent T)) (value : JValue) :
    picked u (afterDrop t history value) = picked u history := by
  cases value with
  | object o => exact if_neg ne
  | string bytes => rfl

/-- Every call respects what the others rely on. -/
theorem cbSem_rely {i : CbCall} {r : i.Answer} (ne : t ≠ u)
    (answered : cbSem implements spare t i s r s') : CbRely u s s' := by
  have hfault : CbRely u s s.fault := { CbRely.refl u s with }
  have hne : some t ≠ some u := fun h => ne (Option.some.inj h)
  cases i with
  | isInstanceOf object =>
    obtain ⟨-, rfl⟩ := answered
    exact { CbRely.refl u s with }
  | newGlobalRef object =>
    rcases answered with ⟨ref, -, -, rfl⟩ | ⟨-, -, rfl⟩
    · exact { CbRely.refl u s with hand := Function.update_of_ne (Ne.symm ne) _ _ }
    · exact .thrown ne
  | deleteGlobalRef ref =>
    rcases answered with ⟨-, rfl⟩ | ⟨-, rfl⟩
    · exact { CbRely.refl u s with hand := Function.update_of_ne (Ne.symm ne) _ _ }
    · exact hfault
  | lock =>
    rcases answered with ⟨-, hfree, rfl⟩ | ⟨-, rfl⟩
    · exact { CbRely.refl u s with mutex := by simp [hfree, ne] }
    · exact hfault
  | unlock =>
    rcases answered with ⟨hmine, rfl⟩ | ⟨-, rfl⟩
    · exact { CbRely.refl u s with mutex := by simp [hmine, ne] }
    · exact hfault
  | loadCallback =>
    rcases answered with ⟨-, -, rfl⟩ | ⟨-, rfl⟩
    · exact .refl u _
    · exact hfault
  | storeCallback ref =>
    rcases answered with ⟨⟨hmine, -⟩, rfl⟩ | ⟨-, rfl⟩
    · exact { CbRely.refl u s with
        callback := fun hother => absurd (hmine.symm.trans hother) hne
        hand := Function.update_of_ne (Ne.symm ne) _ _ }
    · exact hfault
  | newLocalRef ref =>
    rcases answered with ⟨-, ⟨object, l, -, -, -, rfl⟩ | ⟨-, -, rfl⟩⟩ | ⟨-, rfl⟩
    · have hmade : CbRely u s ((s.noted t).localMade t l (.object object)) := .localMade ne
      exact { hmade with picked := if_neg ne }
    · exact .thrown ne
    · exact hfault
  | deleteLocalRef l =>
    rcases answered with ⟨-, value, -, rfl⟩ | ⟨-, rfl⟩
    · exact { CbRely.refl u s with
        locals := Function.update_of_ne (Ne.symm ne) _ _
        picked := picked_drop ne _ value }
    · exact hfault
  | loadFamilyId =>
    obtain ⟨-, rfl⟩ := answered
    exact .refl u _
  | newStringUtf bytes =>
    rcases answered with ⟨l, -, -, rfl⟩ | ⟨-, -, rfl⟩
    · exact .localMade ne
    · exact .thrown ne
  | callVoidMethod cb args name =>
    rcases answered with ⟨-, object, throws, -, rfl⟩ | ⟨-, rfl⟩
    · exact { CbRely.refl u s with pending := Function.update_of_ne (Ne.symm ne) _ _ }
    · exact hfault
  | exceptionCheck =>
    obtain ⟨-, rfl⟩ := answered
    exact .refl u _
  | exceptionDescribe =>
    obtain rfl := answered
    exact .refl u _
  | exceptionClear =>
    obtain rfl := answered
    exact { CbRely.refl u s with pending := Function.update_of_ne (Ne.symm ne) _ _ }
  | wildRead =>
    obtain rfl := answered
    exact hfault

/-! ### Where a native call is -/

/-- What a native call has: the mutex, a global reference that is not in `g_callback`, its local
references, whether it has no exception pending, and the object it picked up. -/
structure CbLocal where
  locked : Bool
  hand : Option ℕ
  refs : ℕ → Option JValue
  quiet : Bool
  picked : Option ℕ

/-- Between native calls. -/
def CbLocal.idle : CbLocal := ⟨false, none, fun _ => none, true, none⟩

/-- While a datagram is dispatched. -/
def CbLocal.dispatching (cb object : ℕ) : CbLocal :=
  ⟨false, none, Function.update (fun _ => none) cb (some (.object object)), true, some object⟩

/-- The native call has this. Exceptions are followed only in the strict case. -/
structure CbAt (implements : ℕ → Bool) (strict : Prop) (t : T) (l : CbLocal) (s : CbWorld T) :
    Prop where
  inv : CbInv implements strict s
  mutex : s.mutex = some t ↔ l.locked = true
  hand : s.hand t = l.hand
  refs : s.locals t = l.refs
  quiet : strict → l.quiet = true → s.pending t = false
  picked : picked t s.history = l.picked

variable {strict : Prop} {l : CbLocal}

/-- The others leave it to the native call. -/
theorem CbAt.rely (h : CbAt implements strict t l s) (inv : CbInv implements strict s')
    (rely : CbRely t s s') : CbAt implements strict t l s' where
  inv := inv
  mutex := rely.mutex.trans h.mutex
  hand := rely.hand.trans h.hand
  refs := rely.locals.trans h.refs
  quiet hstrict hquiet := rely.pending.trans (h.quiet hstrict hquiet)
  picked := rely.picked.trans h.picked

/-- A function that must not be called with an exception pending, called without. -/
theorem CbAt.noted (h : CbAt implements strict t l s) (calm : strict → l.quiet = true) :
    CbAt implements strict t l (s.noted t) :=
  { h with
    inv := { h.inv with
      proper := fun hstrict => by
        simp [CbWorld.noted, h.inv.proper hstrict, h.quiet hstrict (calm hstrict)] } }

/-- Without memory there is an exception, which the strict case rules out. -/
theorem CbAt.thrown (h : CbAt implements strict t l s) (short : ¬ strict) :
    CbAt implements strict t l (s.thrown t) :=
  { h with
    inv := { h.inv with }
    quiet := fun hstrict => absurd hstrict short }

/-! ### Global references -/

theorem CbInv.fresh (inv : CbInv implements strict s) {ref : ℕ} (free : s.globals ref = none) :
    s.gCallback ≠ some ref ∧ ∀ u, s.hand u ≠ some ref := by
  have hdead : ¬ (s.gCallback = some ref ∨ ∃ u, s.hand u = some ref) := by
    rw [← inv.live, free]
    exact Bool.false_ne_true
  exact ⟨fun h => hdead (.inl h), fun u h => hdead (.inr ⟨u, h⟩)⟩

omit [DecidableEq T] in
/-- The object behind `g_callback` does not change when another reference does. -/
theorem current_update {ref : ℕ} {object : Option ℕ} (other : s.gCallback ≠ some ref) :
    s.gCallback.bind (Function.update s.globals ref object) = s.current := by
  rw [CbWorld.current]
  cases hcallback : s.gCallback with
  | none => rfl
  | some cb =>
    have hne : cb ≠ ref := fun h => other (hcallback.trans (congrArg some h))
    exact Function.update_of_ne hne _ _

theorem CbAt.globalMade {object ref : ℕ} (h : CbAt implements strict t l s)
    (empty : l.hand = none) (typed : implements object = true)
    (free : s.globals ref = none) :
    CbAt implements strict t { l with hand := some ref } (s.globalMade t object ref) := by
  obtain ⟨hcallback, hhand⟩ := h.inv.fresh free
  have hold : ∀ u x, Function.update s.hand t (some ref) u = some x →
      u = t ∧ x = ref ∨ u ≠ t ∧ s.hand u = some x := by
    intro u x hu
    by_cases heq : u = t
    · rw [heq, Function.update_self] at hu
      exact .inl ⟨heq, (Option.some.inj hu).symm⟩
    · rw [Function.update_of_ne heq] at hu
      exact .inr ⟨heq, hu⟩
  refine { h with
    inv := { h.inv with
      live := ?_
      apart := ?_
      owner := ?_
      typed := ?_
      balanced := h.inv.balanced.acquire (by rw [h.inv.held, free]; exact Bool.false_ne_true)
      held := ?_
      current := h.inv.current.trans (current_update hcallback).symm }
    hand := Function.update_self .. }
  · intro x
    change (Function.update s.globals ref (some object) x).isSome ↔
      s.gCallback = some x ∨ ∃ u, Function.update s.hand t (some ref) u = some x
    by_cases hx : x = ref
    · subst hx
      simp only [Function.update_self, Option.isSome_some, true_iff]
      exact .inr ⟨t, Function.update_self ..⟩
    · rw [Function.update_of_ne hx, h.inv.live]
      refine or_congr_right ⟨?_, ?_⟩
      · rintro ⟨u, hu⟩
        have hne : u ≠ t := by
          rintro rfl
          rw [h.hand, empty] at hu
          cases hu
        exact ⟨u, (Function.update_of_ne hne _ _).trans hu⟩
      · rintro ⟨u, hu⟩
        rcases hold u x hu with ⟨-, rfl⟩ | ⟨-, hu⟩
        · exact absurd rfl hx
        · exact ⟨u, hu⟩
  · intro u x hu
    rcases hold u x hu with ⟨-, rfl⟩ | ⟨-, hu⟩
    · exact hcallback
    · exact h.inv.apart u x hu
  · intro u v x hu hv
    rcases hold u x hu with ⟨rfl, rfl⟩ | ⟨-, hu'⟩
    · rcases hold v x hv with ⟨rfl, -⟩ | ⟨-, hv'⟩
      · rfl
      · exact absurd hv' (hhand v)
    · rcases hold v x hv with ⟨-, rfl⟩ | ⟨-, hv'⟩
      · exact absurd hu' (hhand u)
      · exact h.inv.owner u v x hu' hv'
  · intro x o hx
    change Function.update s.globals ref (some object) x = some o at hx
    by_cases heq : x = ref
    · rw [heq, Function.update_self] at hx
      rw [← Option.some.inj hx]
      exact typed
    · rw [Function.update_of_ne heq] at hx
      exact h.inv.typed x o hx
  · intro x
    change x ∈ insert ref (Ledger.held s.log) ↔
      (Function.update s.globals ref (some object) x).isSome
    by_cases hx : x = ref
    · simp [hx]
    · rw [Function.update_of_ne hx, ← h.inv.held, Set.mem_insert_iff]
      exact or_iff_right hx

theorem CbAt.globalDeleted {ref : ℕ} (h : CbAt implements strict t l s)
    (mine : l.hand = some ref) :
    CbAt implements strict t { l with hand := none } (s.globalDeleted t ref) := by
  have hmine : s.hand t = some ref := h.hand.trans mine
  have hcallback := h.inv.apart t ref hmine
  have hlive : (s.globals ref).isSome := (h.inv.live ref).mpr (.inr ⟨t, hmine⟩)
  have hold : ∀ u x, Function.update s.hand t none u = some x → s.hand u = some x := by
    intro u x hu
    by_cases heq : u = t
    · rw [heq, Function.update_self] at hu
      cases hu
    · rwa [Function.update_of_ne heq] at hu
  refine { h with
    inv := { h.inv with
      live := ?_
      apart := fun u x hu => h.inv.apart u x (hold u x hu)
      owner := fun u v x hu hv => h.inv.owner u v x (hold u x hu) (hold v x hv)
      typed := ?_
      balanced := h.inv.balanced.release ((h.inv.held ref).mpr hlive)
      held := ?_
      current := h.inv.current.trans (current_update hcallback).symm }
    hand := Function.update_self .. }
  · intro x
    change (Function.update s.globals ref none x).isSome ↔
      s.gCallback = some x ∨ ∃ u, Function.update s.hand t none u = some x
    by_cases hx : x = ref
    · subst hx
      rw [Function.update_self]
      refine iff_of_false Bool.false_ne_true ?_
      -- nobody else had it
      rintro (hx | ⟨u, hu⟩)
      · exact hcallback hx
      · obtain rfl := h.inv.owner u t x (hold u x hu) hmine
        rw [Function.update_self] at hu
        cases hu
    · rw [Function.update_of_ne hx, h.inv.live]
      refine or_congr_right ⟨?_, fun ⟨u, hu⟩ => ⟨u, hold u x hu⟩⟩
      rintro ⟨u, hu⟩
      have hne : u ≠ t := by
        rintro rfl
        exact hx (Option.some.inj (hu.symm.trans hmine))
      exact ⟨u, (Function.update_of_ne hne _ _).trans hu⟩
  · intro x o hx
    change Function.update s.globals ref none x = some o at hx
    by_cases heq : x = ref
    · rw [heq, Function.update_self] at hx
      cases hx
    · rw [Function.update_of_ne heq] at hx
      exact h.inv.typed x o hx
  · intro x
    change x ∈ Ledger.held s.log \ {ref} ↔ (Function.update s.globals ref none x).isSome
    by_cases hx : x = ref
    · simp [hx]
    · rw [Function.update_of_ne hx, ← h.inv.held, Set.mem_sdiff, Set.mem_singleton_iff]
      exact and_iff_left hx

/-- The store exchanges the reference in hand for the one in `g_callback`. -/
theorem CbAt.stored (h : CbAt implements strict t l s) :
    CbAt implements strict t { l with hand := s.gCallback } (s.stored t l.hand) := by
  have hmine := h.hand
  refine { h with
    inv := { h.inv with live := ?_, apart := ?_, owner := ?_, current := rfl, genuine := ?_ }
    hand := Function.update_self .. }
  · intro x
    rw [show (s.stored t l.hand).globals = s.globals from rfl, h.inv.live]
    change s.gCallback = some x ∨ (∃ u, s.hand u = some x) ↔
      l.hand = some x ∨ ∃ u, Function.update s.hand t s.gCallback u = some x
    constructor
    · rintro (hx | ⟨u, hu⟩)
      · exact .inr ⟨t, (Function.update_self ..).trans hx⟩
      · by_cases heq : u = t
        · exact .inl (hmine.symm.trans (heq ▸ hu))
        · exact .inr ⟨u, (Function.update_of_ne heq _ _).trans hu⟩
    · rintro (hx | ⟨u, hu⟩)
      · exact .inr ⟨t, hmine.trans hx⟩
      · by_cases heq : u = t
        · rw [heq, Function.update_self] at hu
          exact .inl hu
        · rw [Function.update_of_ne heq] at hu
          exact .inr ⟨u, hu⟩
  · intro u x hu hx
    change Function.update s.hand t s.gCallback u = some x at hu
    have hx' : s.hand t = some x := hmine.trans hx
    by_cases heq : u = t
    · rw [heq, Function.update_self] at hu
      exact h.inv.apart t x hx' hu
    · rw [Function.update_of_ne heq] at hu
      exact heq (h.inv.owner u t x hu hx')
  · intro u v x hu hv
    change Function.update s.hand t s.gCallback u = some x at hu
    change Function.update s.hand t s.gCallback v = some x at hv
    by_cases hut : u = t
    · by_cases hvt : v = t
      · rw [hut, hvt]
      · rw [hut, Function.update_self] at hu
        rw [Function.update_of_ne hvt] at hv
        exact absurd hu (h.inv.apart v x hv)
    · rw [Function.update_of_ne hut] at hu
      by_cases hvt : v = t
      · rw [hvt, Function.update_self] at hv
        exact absurd hv (h.inv.apart u x hu)
      · rw [Function.update_of_ne hvt] at hv
        exact h.inv.owner u v x hu hv
  · intro object hmem
    rcases List.mem_cons.mp hmem with hnew | hold
    · -- what is stored is a reference in hand, and those are to objects of the interface
      obtain ⟨ref, -, hobject⟩ := Option.bind_eq_some_iff.mp (CbEvent.install.inj hnew).symm
      exact h.inv.typed ref object hobject
    · exact h.inv.genuine object hold

/-! ### Local references -/

theorem CbAt.localMade {ref : ℕ} {value : JValue} (h : CbAt implements strict t l s) :
    CbAt implements strict t { l with refs := Function.update l.refs ref (some value) }
      (s.localMade t ref value) :=
  { h with
    inv := { h.inv with }
    refs := by
      change Function.update s.locals t _ t = _
      rw [Function.update_self, h.refs] }

theorem CbAt.localDeleted {ref : ℕ} (h : CbAt implements strict t l s) :
    CbAt implements strict t { l with refs := Function.update l.refs ref none }
      (s.localDeleted t ref) :=
  { h with
    inv := { h.inv with }
    refs := by
      change Function.update s.locals t _ t = _
      rw [Function.update_self, h.refs] }

/-- The history of one native call goes on. -/
theorem CbAt.happened {event : CbEvent T} {object : Option ℕ} (h : CbAt implements strict t l s)
    (orderly : Orderly (event :: s.history))
    (same : installed (event :: s.history) = installed s.history)
    (new : ∀ o, event ≠ .install o)
    (now : Client.picked t (event :: s.history) = object) :
    CbAt implements strict t { l with picked := object }
      { s with history := event :: s.history } :=
  { h with
    inv := { h.inv with
      orderly := orderly
      current := same.trans h.inv.current
      genuine := fun o hmem => h.inv.genuine o
        ((List.mem_cons.mp hmem).resolve_left fun heq => new _ heq.symm) }
    picked := now }

/-! ### The rules -/

/-- The weakest precondition of a part of a native call among the others. -/
abbrev jwp {α : Type} (implements : ℕ → Bool) (spare : Bool) (strict : Prop) (t : T)
    (p : CbProc α) (Q : α → CbWorld T → Prop) (s : CbWorld T) : Prop :=
  p.wp (cbSem implements spare t) (Interference (CbRely t) (CbInv implements strict))
    (CbInv implements strict) Q s

section Rules

variable {α : Type} {Q : α → CbWorld T → Prop} {P : CbWorld T → Prop}

theorem stable_cbAt (kept : ∀ s s', CbRely t s s' → CbAt implements strict t l s → P s → P s') :
    Stable (Interference (CbRely t) (CbInv implements strict))
      fun s => CbAt implements strict t l s ∧ P s :=
  fun s s' h interference => ⟨h.1.rely interference.2 interference.1,
    kept s s' interference.1 h.1 h.2⟩

/-- The rule for a call, with what is known because of the mutex. -/
theorem jwp_knowing (kept : ∀ s s', CbRely t s s' → CbAt implements strict t l s → P s → P s')
    {i : CbCall} {k : i.Answer → CbProc α} (h : CbAt implements strict t l s) (known : P s)
    (next : ∀ s r s', CbAt implements strict t l s → P s → cbSem implements spare t i s r s' →
      jwp implements spare strict t (k r) Q s') :
    jwp implements spare strict t (perform i >>= k) Q s :=
  wp_call (stable_cbAt kept) (fun _ h' => h'.1.inv) (fun s r s' h' => next s r s' h'.1 h'.2)
    ⟨h, known⟩

/-- The rule for a call. -/
theorem jwp_call {i : CbCall} {k : i.Answer → CbProc α} (h : CbAt implements strict t l s)
    (next : ∀ s r s', CbAt implements strict t l s → cbSem implements spare t i s r s' →
      jwp implements spare strict t (k r) Q s') :
    jwp implements spare strict t (perform i >>= k) Q s :=
  jwp_knowing (P := fun _ => True) (fun _ _ _ _ _ => trivial) h trivial
    fun s r s' h' _ => next s r s' h'

/-- The rule for a call at the end. -/
theorem jwp_last {i : CbCall} {Q : i.Answer → CbWorld T → Prop} {l' : CbLocal}
    (h : CbAt implements strict t l s)
    (next : ∀ s r s', CbAt implements strict t l s → cbSem implements spare t i s r s' →
      CbAt implements strict t l' s')
    (post : ∀ r s', CbAt implements strict t l' s' → Q r s') :
    jwp implements spare strict t (perform i) Q s := by
  refine wp_call (stable_cbAt (P := fun _ => True) fun _ _ _ _ _ => trivial)
    (fun _ h' => h'.1.inv) ?_ ⟨h, trivial⟩
  intro s r s' h' answered
  exact wp_ret (stable_cbAt (P := fun _ => True) fun _ _ _ _ _ => trivial)
    (fun s₁ h₁ => ⟨h₁.1.inv, post r s₁ h₁.1⟩) ⟨next s r s' h'.1 answered, trivial⟩

theorem jwp_return {a : α} (h : CbAt implements strict t l s)
    (post : ∀ s', CbAt implements strict t l s' → Q a s') :
    jwp implements spare strict t (pure a) Q s :=
  wp_ret (stable_cbAt (P := fun _ => True) fun _ _ _ _ _ => trivial)
    (fun s' h' => ⟨h'.1.inv, post s' h'.1⟩) ⟨h, trivial⟩

end Rules

/-! ### The calls -/

section Calls

theorem CbAt.lock {r : Unit} (h : CbAt implements strict t l s) (free : l.locked = false)
    (answered : cbSem implements spare t .lock s r s') :
    CbAt implements strict t { l with locked := true } s' := by
  have hright : s.mutex ≠ some t := by simp [h.mutex, free]
  obtain ⟨-, rfl⟩ := Guarded.done answered hright
  exact { h with inv := { h.inv with }, mutex := by simp }

theorem CbAt.unlock {r : Unit} (h : CbAt implements strict t l s) (held : l.locked = true)
    (answered : cbSem implements spare t .unlock s r s') :
    CbAt implements strict t { l with locked := false } s' := by
  obtain rfl := Guarded.done answered (h.mutex.mpr held)
  exact { h with inv := { h.inv with }, mutex := by simp }

theorem CbAt.loadCallback {r : Option ℕ} (h : CbAt implements strict t l s)
    (held : l.locked = true) (answered : cbSem implements spare t .loadCallback s r s') :
    s' = s ∧ r = s.gCallback := by
  obtain ⟨hr, rfl⟩ := Guarded.done answered (h.mutex.mpr held)
  exact ⟨rfl, hr⟩

theorem CbAt.storeCallback {r : Unit} {old : Option ℕ} (h : CbAt implements strict t l s)
    (held : l.locked = true) (same : s.gCallback = old)
    (answered : cbSem implements spare t (.storeCallback l.hand) s r s') :
    CbAt implements strict t { l with hand := old } s' := by
  obtain rfl := Guarded.done answered ⟨h.mutex.mpr held, h.hand⟩
  exact same ▸ h.stored

theorem CbAt.deleteGlobalRef {ref : ℕ} {r : Unit} (h : CbAt implements strict t l s)
    (mine : l.hand = some ref)
    (answered : cbSem implements spare t (.deleteGlobalRef ref) s r s') :
    CbAt implements strict t { l with hand := none } s' := by
  have hmine : s.hand t = some ref := h.hand.trans mine
  obtain rfl := Guarded.done answered ⟨(h.inv.live ref).mpr (.inr ⟨t, hmine⟩), hmine⟩
  exact h.globalDeleted mine

/-- What `NewGlobalRef` leaves: the reference in hand, or nothing. -/
theorem CbAt.newGlobalRef {object : ℕ} {r : Option ℕ} (h : CbAt implements strict t l s)
    (enough : strict → spare = true) (calm : strict → l.quiet = true) (empty : l.hand = none)
    (typed : implements object = true)
    (answered : cbSem implements spare t (.newGlobalRef object) s r s') :
    CbAt implements strict t { l with hand := r } s' := by
  rcases answered with ⟨ref, rfl, hfree, rfl⟩ | ⟨hshort, rfl, rfl⟩
  · exact (h.noted calm).globalMade empty typed hfree
  · have hl : { l with hand := none } = l := by rw [← empty]
    rw [hl]
    exact (h.noted calm).thrown fun hstrict => by simp [enough hstrict] at hshort

/-- What `NewLocalRef` leaves: a reference to the object installed, or nothing. -/
theorem CbAt.newLocalRef {ref : ℕ} {r : Option ℕ} (h : CbAt implements strict t l s)
    (enough : strict → spare = true) (calm : strict → l.quiet = true) (fresh : l.picked = none)
    (callback : s.gCallback = some ref)
    (answered : cbSem implements spare t (.newLocalRef ref) s r s') :
    (r = none ∧ CbAt implements strict t l s') ∨ ∃ cb object, r = some cb ∧ l.refs cb = none ∧
      CbAt implements strict t { l with
        refs := Function.update l.refs cb (some (.object object))
        picked := some object } s' := by
  rcases Guarded.done answered ((h.inv.live ref).mpr (.inl callback)) with
    ⟨object, cb, hobject, rfl, hfree, rfl⟩ | ⟨hshort, rfl, rfl⟩
  · have hinstalled : installed s.history = some object := by
      rw [h.inv.current, CbWorld.current, callback]
      exact hobject
    have hmade : CbAt implements strict t
        { l with refs := Function.update l.refs cb (some (.object object)) }
        ((s.noted t).localMade t cb (.object object)) := (h.noted calm).localMade
    refine .inr ⟨cb, object, rfl, h.refs ▸ hfree, hmade.happened ?_ rfl nofun ?_⟩
    · exact ⟨hinstalled, h.picked.trans fresh, h.inv.orderly⟩
    · exact if_pos rfl
  · exact .inl ⟨rfl, (h.noted calm).thrown fun hstrict => by simp [enough hstrict] at hshort⟩

/-- What `NewStringUTF` leaves: a reference to the string, or nothing. -/
theorem CbAt.newStringUtf {bytes : CString} {r : Option ℕ} (h : CbAt implements strict t l s)
    (enough : strict → spare = true) (calm : strict → l.quiet = true)
    (answered : cbSem implements spare t (.newStringUtf bytes) s r s') :
    (r = none ∧ CbAt implements strict t l s') ∨ ∃ ref, r = some ref ∧ l.refs ref = none ∧
      CbAt implements strict t
        { l with refs := Function.update l.refs ref (some (.string bytes)) } s' := by
  rcases answered with ⟨ref, rfl, hfree, rfl⟩ | ⟨hshort, rfl, rfl⟩
  · exact .inr ⟨ref, rfl, h.refs ▸ hfree, (h.noted calm).localMade⟩
  · exact .inl ⟨rfl, (h.noted calm).thrown fun hstrict => by simp [enough hstrict] at hshort⟩

/-- The method of the object that was picked up; afterwards an exception may be pending. -/
theorem CbAt.callVoidMethod {cb object : ℕ} {args : Callback} {name : Option ℕ} {r : Unit}
    (h : CbAt implements strict t l s) (calm : strict → l.quiet = true)
    (callee : l.refs cb = some (.object object)) (mine : l.picked = some object)
    (string : ∀ ref, name = some ref → ∃ bytes, l.refs ref = some (.string bytes))
    (answered : cbSem implements spare t (.callVoidMethod cb args name) s r s') :
    CbAt implements strict t { l with quiet := false } s' := by
  have hcallee : s.locals t cb = some (.object object) := by rw [h.refs, callee]
  obtain ⟨o, throws, ho, rfl⟩ := Guarded.done answered ⟨⟨object, hcallee⟩, by rwa [h.refs]⟩
  obtain rfl : o = object := by
    rw [hcallee] at ho
    cases ho
    rfl
  have hnoted := h.noted calm
  have horderly : Orderly (.invoked t o args :: s.history) :=
    ⟨h.picked.trans mine, h.inv.orderly⟩
  have hcalled := hnoted.happened horderly rfl nofun h.picked
  exact { hcalled with
    inv := { hcalled.inv with }
    quiet := fun _ hquiet => absurd hquiet Bool.false_ne_true }

theorem CbAt.deleteString {ref : ℕ} {bytes : CString} {r : Unit}
    (h : CbAt implements strict t l s) (string : l.refs ref = some (.string bytes))
    (answered : cbSem implements spare t (.deleteLocalRef ref) s r s') :
    CbAt implements strict t { l with refs := Function.update l.refs ref none } s' := by
  have hstring : s.locals t ref = some (.string bytes) := by rw [h.refs, string]
  obtain ⟨value, hvalue, rfl⟩ := Guarded.done answered (by rw [hstring]; rfl)
  rw [hstring] at hvalue
  cases hvalue
  exact h.localDeleted

/-- The reference to the object is given back. -/
theorem CbAt.deleteObject {cb object : ℕ} {r : Unit} (h : CbAt implements strict t l s)
    (callee : l.refs cb = some (.object object)) (mine : l.picked = some object)
    (answered : cbSem implements spare t (.deleteLocalRef cb) s r s') :
    CbAt implements strict t
      { l with refs := Function.update l.refs cb none, picked := none } s' := by
  have hcallee : s.locals t cb = some (.object object) := by rw [h.refs, callee]
  obtain ⟨value, hvalue, rfl⟩ := Guarded.done answered (by rw [hcallee]; rfl)
  rw [hcallee] at hvalue
  cases hvalue
  have horderly : Orderly (.drop t :: s.history) := by
    refine ⟨?_, h.inv.orderly⟩
    rw [h.picked, mine]
    rfl
  exact h.localDeleted.happened horderly rfl nofun (if_pos rfl)

/-- Without an exception there is nothing to clear. -/
theorem CbAt.exceptionCheck {r : Bool} (h : CbAt implements strict t l s)
    (answered : cbSem implements spare t .exceptionCheck s r s') :
    CbAt implements strict t l s' ∧
      (r = false → CbAt implements strict t { l with quiet := true } s') := by
  obtain ⟨rfl, rfl⟩ := answered
  exact ⟨h, fun hnone => { h with quiet := fun _ _ => hnone }⟩

theorem CbAt.exceptionClear {r : Unit} (h : CbAt implements strict t l s)
    (answered : cbSem implements spare t .exceptionClear s r s') :
    CbAt implements strict t { l with quiet := true } s' := by
  obtain rfl := answered
  exact { h with inv := { h.inv with }, quiet := fun _ _ => Function.update_self .. }

end Calls

/-! ### `setCallback` -/

section Programs

variable {Q : Unit → CbWorld T → Prop}

theorem jwp_swapCallback (h : CbAt implements strict t l s) (free : l.locked = false)
    (post : ∀ s', CbAt implements strict t { l with hand := none } s' → Q () s') :
    jwp implements spare strict t (swapCallback l.hand) Q s := by
  apply jwp_call h
  intro s r s' h answered
  have hlocked := h.lock free answered
  apply jwp_call hlocked
  intro s old s' h answered
  obtain ⟨rfl, rfl⟩ := h.loadCallback rfl answered
  -- the mutex keeps the others from changing what was loaded
  apply jwp_knowing (P := fun s₁ => s₁.gCallback = s'.gCallback)
    (fun _ _ rely h₁ hsame => (rely.callback (h₁.mutex.mpr rfl)).trans hsame) h rfl
  intro s₁ r s₂ h₁ hsame answered
  have hstored := h₁.storeCallback rfl hsame answered
  apply jwp_call hstored
  intro s₃ r s₄ h₃ answered
  have hunlocked := h₃.unlock rfl answered
  have hl : ({ l with hand := none, locked := false } : CbLocal) = { l with hand := none } := by
    rw [← free]
  cases hold : s'.gCallback with
  | none =>
    rw [hold] at hunlocked
    exact jwp_return (hl ▸ hunlocked) post
  | some ref =>
    rw [hold] at hunlocked
    refine jwp_last hunlocked (fun _ _ _ h₅ answered => h₅.deleteGlobalRef rfl answered) ?_
    intro _ s₆ h₆
    exact post s₆ (hl ▸ h₆)

theorem jwp_setCallback (callback : Option ℕ) (h : CbAt implements strict t l s)
    (enough : strict → spare = true) (calm : strict → l.quiet = true) (free : l.locked = false)
    (empty : l.hand = none) (post : ∀ s', CbAt implements strict t l s' → Q () s') :
    jwp implements spare strict t (setCallback callback) Q s := by
  have hl : { l with hand := none } = l := by rw [← empty]
  cases callback with
  | none =>
    rw [setCallback, ← empty]
    exact jwp_swapCallback h free (hl.symm ▸ post)
  | some object =>
    apply jwp_call h
    rintro s r s' h ⟨rfl, rfl⟩
    have hnoted := h.noted calm
    cases hinstance : implements object with
    | false => exact jwp_return hnoted post
    | true =>
      apply jwp_call hnoted
      intro s ref s' h answered
      have hmade := h.newGlobalRef enough calm empty hinstance answered
      -- with the reference or, if there was no memory for it, without
      exact jwp_swapCallback hmade free (hl.symm ▸ post)

/-! ### The dispatch -/

theorem jwp_callVoidMethod {cb object : ℕ} {args : Callback} {name : Option ℕ}
    {k : Unit → CbProc Unit} (h : CbAt implements strict t l s) (calm : strict → l.quiet = true)
    (callee : l.refs cb = some (.object object)) (mine : l.picked = some object)
    (string : ∀ ref, name = some ref → ∃ bytes, l.refs ref = some (.string bytes))
    (next : ∀ s', CbAt implements strict t { l with quiet := false } s' →
      jwp implements spare strict t (k ()) Q s') :
    jwp implements spare strict t (Jni.callVoidMethod cb args name >>= k) Q s := by
  apply jwp_call h
  intro s r s' h answered
  exact next s' (h.callVoidMethod calm callee mine string answered)

/-- A handler leaves the references as they were, and perhaps an exception. -/
theorem jwp_invoke {cb object : ℕ} (args : Callback) (h : CbAt implements strict t l s)
    (enough : strict → spare = true) (calm : strict → l.quiet = true)
    (callee : l.refs cb = some (.object object)) (mine : l.picked = some object)
    (post : ∀ s', CbAt implements strict t { l with quiet := false } s' → Q () s') :
    jwp implements spare strict t (invoke cb args) Q s := by
  have hunnamed : ∀ ref, (none : Option ℕ) = some ref →
      ∃ bytes, l.refs ref = some (.string bytes) := fun _ h => nomatch h
  have hplain : ∀ args, jwp implements spare strict t (Jni.callVoidMethod cb args none) Q s :=
    fun args => jwp_last h
      (fun _ _ _ h' answered => h'.callVoidMethod calm callee mine hunnamed answered) fun _ => post
  cases args with
  | signal => exact hplain _
  | network => exact hplain _
  | binder _ _ _ _ _ _ rpcName _ =>
    apply jwp_call h
    intro s name s' h answered
    rcases h.newStringUtf enough calm answered with ⟨rfl, hnone⟩ | ⟨ref, rfl, hfree, hmade⟩
    · exact jwp_callVoidMethod hnone calm callee mine hunnamed
        fun _ hcalled => jwp_return hcalled post
    · -- the string has a reference of its own
      have hne : cb ≠ ref := by
        rintro rfl
        rw [callee] at hfree
        cases hfree
      have hcallee : Function.update l.refs ref (some (.string rpcName)) cb =
          some (.object object) := (Function.update_of_ne hne _ _).trans callee
      refine jwp_callVoidMethod hmade calm hcallee mine ?_ fun s' hcalled => ?_
      · intro _ hname
        cases hname
        exact ⟨rpcName, Function.update_self ..⟩
      · have hrefs :
            Function.update (Function.update l.refs ref (some (.string rpcName))) ref none =
              l.refs := by
          rw [Function.update_idem, ← hfree, Function.update_eq_self]
        refine jwp_last hcalled (fun _ _ _ h' answered =>
          h'.deleteString (Function.update_self ..) answered) ?_
        intro _ s' hdeleted
        dsimp only at hdeleted
        rw [hrefs] at hdeleted
        exact post s' hdeleted

/-- Several handlers; in the strict case there is at most one. -/
theorem jwp_invokeAll {cb object : ℕ} (calls : List Callback) (h : CbAt implements strict t l s)
    (enough : strict → spare = true)
    (few : strict → calls = [] ∨ l.quiet = true ∧ calls.length = 1)
    (callee : l.refs cb = some (.object object)) (mine : l.picked = some object)
    (post : ∀ s', CbAt implements strict t { l with quiet := false } s' → Q () s') :
    jwp implements spare strict t (invokeAll cb calls) Q s := by
  induction calls generalizing l s with
  | nil =>
    have hforget : CbAt implements strict t { l with quiet := false } s :=
      { h with quiet := fun _ hquiet => absurd hquiet Bool.false_ne_true }
    exact jwp_return hforget post
  | cons args rest ih =>
    have hcons : strict → l.quiet = true ∧ rest = [] := by
      intro hstrict
      obtain ⟨hquiet, hlength⟩ := (few hstrict).resolve_left (List.cons_ne_nil args rest)
      exact ⟨hquiet, List.length_eq_zero_iff.mp (Nat.succ.inj hlength)⟩
    have hinvoke : jwp implements spare strict t (invoke cb args)
        (fun _ => CbAt implements strict t { l with quiet := false }) s :=
      jwp_invoke args h enough (fun hstrict => (hcons hstrict).1) callee mine fun _ h' => h'
    refine wp_bind hinvoke fun _ s' h' => ?_
    exact ih h' (fun hstrict => .inl (hcons hstrict).2) callee mine post

theorem jwp_clearException (h : CbAt implements strict t l s)
    (post : ∀ s', CbAt implements strict t { l with quiet := true } s' → Q () s') :
    jwp implements spare strict t clearException Q s := by
  apply jwp_call h
  intro s thrown s' h answered
  obtain ⟨hsame, hquiet⟩ := h.exceptionCheck answered
  cases thrown with
  | false => exact jwp_return (hquiet rfl) post
  | true =>
    apply jwp_call hsame
    rintro s r _ h rfl
    exact jwp_last h (fun _ _ _ h' answered => h'.exceptionClear answered) fun _ => post

omit [DecidableEq T] in
/-- `handle_event` in two halves. -/
theorem handleEvent_eq (gFamilyId : UInt16) (m : Memory) (nlh : ℕ) :
    handleEvent gFamilyId m nlh = (readWord m (nlh + 4) 2).bind fun type =>
      if type = nlmsgError ∨ type = nlmsgDone then some []
      else (eventTable gFamilyId m nlh type).bind fun table =>
        table.elim (some []) (dispatchEvent m) := by
  rw [handleEvent]
  refine congrArg _ (funext fun type => ?_)
  by_cases hcontrol : type = nlmsgError ∨ type = nlmsgDone
  · rw [if_pos hcontrol, if_pos hcontrol]
    rfl
  rw [if_neg hcontrol, if_neg hcontrol, eventTable]
  by_cases hfamily : type ≠ gFamilyId.toNat
  · rw [if_pos hfamily, if_pos hfamily]
    rfl
  rw [if_neg hfamily, if_neg hfamily]
  -- from here on both sides read the same, and one of them keeps the table for later
  simp only [Option.bind_eq_bind, Option.bind_assoc]
  refine congrArg _ (funext fun len => ?_)
  by_cases hshort : len < nlmsgHdrlen + genlHdrlen
  · rw [if_pos hshort, if_pos hshort]
    rfl
  rw [if_neg hshort, if_neg hshort, Option.bind_assoc]
  refine congrArg _ (funext fun cmd => ?_)
  by_cases hevent : cmd ≠ rkxCEvent
  · rw [if_pos hevent, if_pos hevent]
    rfl
  rw [if_neg hevent, if_neg hevent, handlePayload, Option.bind_eq_bind, Option.bind_assoc]
  refine congrArg _ (funext fun tb => ?_)
  cases tb rkxAEvent with
  | none => rfl
  | some evt =>
    simp only [Option.bind_assoc]
    rfl

omit [DecidableEq T] in
theorem handleTable_of_dispatchEvent {m : Memory} {evtTb : AttrTable} {calls : List Callback}
    (cb : ℕ) (h : dispatchEvent m evtTb = some calls) :
    handleTable m cb (some (some evtTb)) = (do invokeAll cb calls; clearException) := by
  rw [handleTable, h]

/-- One message: the references stay, and no exception is left behind. -/
theorem jwp_handleEventCalls {m : Memory} {cb object nlh : ℕ} (h : CbAt implements strict t l s)
    (enough : strict → spare = true) (calm : l.quiet = true)
    (callee : l.refs cb = some (.object object)) (mine : l.picked = some object)
    (readable : ∀ gFamilyId, ∃ calls, handleEvent gFamilyId m nlh = some calls)
    (one : strict → ∀ gFamilyId calls, handleEvent gFamilyId m nlh = some calls → calls.length ≤ 1)
    (post : ∀ s', CbAt implements strict t l s' → Q () s') :
    jwp implements spare strict t (handleEventCalls m cb nlh) Q s := by
  have hl : { l with quiet := true } = l := by rw [← calm]
  simp only [handleEvent_eq] at readable one
  rw [handleEventCalls]
  cases htype : readWord m (nlh + 4) 2 with
  | none =>
    obtain ⟨calls, hcalls⟩ := readable 0
    rw [htype] at hcalls
    cases hcalls
  | some type =>
    simp only [htype, Option.bind_some] at readable one ⊢
    by_cases hcontrol : type = nlmsgError ∨ type = nlmsgDone
    · rw [if_pos hcontrol]
      exact jwp_return h post
    · simp only [if_neg hcontrol] at readable one ⊢
      apply jwp_call h
      rintro s gFamilyId s' h ⟨-, rfl⟩
      obtain ⟨calls, hcalls⟩ := readable gFamilyId
      cases htable : eventTable gFamilyId m nlh type with
      | none =>
        rw [htable] at hcalls
        cases hcalls
      | some table =>
        rw [htable] at hcalls
        cases table with
        | none => exact jwp_return h post
        | some evtTb =>
          have hdispatch : dispatchEvent m evtTb = some calls := hcalls
          rw [handleTable_of_dispatchEvent cb hdispatch]
          have hfew : strict → calls = [] ∨ l.quiet = true ∧ calls.length = 1 := by
            intro hstrict
            have hlength := one hstrict gFamilyId calls (by rw [htable]; exact hdispatch)
            rcases Nat.le_one_iff_eq_zero_or_eq_one.mp hlength with hzero | hone
            · exact .inl (List.length_eq_zero_iff.mp hzero)
            · exact .inr ⟨calm, hone⟩
          have hinvoked : jwp implements spare strict t (invokeAll cb calls)
              (fun _ => CbAt implements strict t { l with quiet := false }) s' :=
            jwp_invokeAll calls h enough hfew callee mine fun _ h' => h'
          refine wp_bind hinvoked fun _ s' h' => ?_
          exact jwp_clearException h' (hl.symm ▸ post)

/-- The message loop. -/
theorem jwp_handleMessages {m : Memory} {cb object : ℕ} (messages : List ℕ)
    (h : CbAt implements strict t l s) (enough : strict → spare = true) (calm : l.quiet = true)
    (callee : l.refs cb = some (.object object)) (mine : l.picked = some object)
    (readable : ∀ nlh ∈ messages, ∀ gFamilyId, ∃ calls, handleEvent gFamilyId m nlh = some calls)
    (one : strict → ∀ nlh ∈ messages, ∀ gFamilyId calls,
      handleEvent gFamilyId m nlh = some calls → calls.length ≤ 1)
    (post : ∀ s', CbAt implements strict t l s' → Q () s') :
    jwp implements spare strict t (handleMessages m cb messages) Q s := by
  induction messages generalizing s with
  | nil => exact jwp_return h post
  | cons nlh rest ih =>
    rw [List.forall_mem_cons] at readable
    simp only [List.forall_mem_cons] at one
    have hfirst : jwp implements spare strict t (handleEventCalls m cb nlh)
        (fun _ => CbAt implements strict t l) s :=
      jwp_handleEventCalls h enough calm callee mine readable.1 (fun hstrict => (one hstrict).1)
        fun _ h' => h'
    refine wp_bind hfirst fun _ s' h' => ?_
    exact ih h' readable.2 fun hstrict => (one hstrict).2

/-- A datagram: what was picked up is given back, and nothing else is left. -/
theorem jwp_dispatchDatagram {m : Memory} (messages : List ℕ)
    (h : CbAt implements strict t .idle s) (enough : strict → spare = true)
    (readable : ∀ nlh ∈ messages, ∀ gFamilyId, ∃ calls, handleEvent gFamilyId m nlh = some calls)
    (one : strict → ∀ nlh ∈ messages, ∀ gFamilyId calls,
      handleEvent gFamilyId m nlh = some calls → calls.length ≤ 1)
    (post : ∀ s', CbAt implements strict t .idle s' → Q () s') :
    jwp implements spare strict t (dispatchDatagram m messages) Q s := by
  apply jwp_call h
  intro s r s' h answered
  apply jwp_call (h.lock rfl answered)
  intro s gCallback s' h answered
  obtain ⟨rfl, rfl⟩ := h.loadCallback rfl answered
  cases hcallback : s'.gCallback with
  | none =>
    apply jwp_call h
    intro s₁ r s₂ h₁ answered
    exact jwp_return (h₁.unlock rfl answered) post
  | some ref =>
    -- the reference is that of `g_callback` as long as the mutex is held
    apply jwp_knowing (P := fun s₁ => s₁.gCallback = some ref)
      (fun _ _ rely h₁ hsame => (rely.callback (h₁.mutex.mpr rfl)).trans hsame) h hcallback
    intro s₁ localCb s₂ h₁ hsame answered
    rcases h₁.newLocalRef enough (fun _ => rfl) rfl hsame answered with
      ⟨rfl, hnone⟩ | ⟨cb, object, rfl, hfree, hpicked⟩
    · apply jwp_call hnone
      intro s₃ r s₄ h₃ answered
      exact jwp_return (h₃.unlock rfl answered) post
    · apply jwp_call hpicked
      intro s₃ r s₄ h₃ answered
      have hunlocked : CbAt implements strict t (.dispatching cb object) s₄ :=
        h₃.unlock rfl answered
      have hcallee : (CbLocal.dispatching cb object).refs cb = some (.object object) := by
        simp [CbLocal.dispatching]
      have hhandled : jwp implements spare strict t (handleMessages m cb messages)
          (fun _ => CbAt implements strict t (.dispatching cb object)) s₄ :=
        jwp_handleMessages messages hunlocked enough rfl hcallee rfl readable one fun _ h' => h'
      refine wp_bind hhandled fun _ s₅ h₅ => ?_
      refine jwp_last h₅ (fun _ _ _ h₆ answered => h₆.deleteObject hcallee rfl answered) ?_
      intro _ s₇ h₇
      simp only [CbLocal.dispatching, Function.update_idem, Function.update_eq_self] at h₇
      exact post s₇ h₇

end Programs

/-! ### All native calls -/

/-- Exceptions are followed where allocations succeed and messages make one callback each. -/
def Strict (spare single : Bool) : Prop := spare = true ∧ single = true

/-- A message that lies in the buffer is read inside it. -/
theorem exists_handleEvent_rbuf {mem : ℕ → UInt8} {nlh : ℕ}
    (header : nlmsgHdrlen ≤ nlmsgLen mem nlh) (inside : nlh + nlmsgLen mem nlh ≤ 8192)
    (gFamilyId : UInt16) : ∃ calls, handleEvent gFamilyId (rbuf mem) nlh = some calls := by
  have h16 : nlmsgHdrlen = 16 := rfl
  have hmapped : Mapped (rbuf mem) nlh (nlh + nlmsgLen mem nlh) := by
    intro a _ ha
    rw [rbuf_of_lt (by omega)]
    rfl
  obtain ⟨calls, hcalls, -⟩ :=
    exists_handleEvent gFamilyId header hmapped (readWord_rbuf (by omega))
  exact ⟨calls, hcalls⟩

theorem cb_relyGuarantee (implements : ℕ → Bool) (spare single : Bool) :
    RelyGuarantee (cbSystem T implements spare single) (CbInv implements (Strict spare single))
      CbRely (fun t => CbAt implements (Strict spare single) t .idle)
      (fun t => CbAt implements (Strict spare single) t .idle) where
  call ne _ answered := cbSem_rely ne answered
  start := by
    intro t p s s' inv rest started
    cases started with
    | setCallback callback =>
      exact ⟨jwp_setCallback callback rest (fun hstrict => hstrict.1) (fun _ => rfl) rfl rfl
        fun _ h' => h', fun u _ => .refl u s⟩
    | dispatch mem rlen fuel messages received inside one =>
      exact ⟨jwp_dispatchDatagram messages rest (fun hstrict => hstrict.1)
        (fun nlh hnlh => exists_handleEvent_rbuf (inside nlh hnlh).1 (inside nlh hnlh).2)
        (fun hstrict => one hstrict.2) fun _ h' => h', fun u _ => .refl u s⟩
  finish := by
    rintro t s s' inv h rfl
    exact ⟨inv, h, fun u _ => .refl u s'⟩
  env := by
    rintro s s' inv ⟨gFamilyId, rfl⟩
    exact ⟨{ inv with }, fun u => { CbRely.refl u s with }⟩
  rested h rely inv := h.rely inv rely

theorem cbInv_initial (implements : ℕ → Bool) (strict : Prop) :
    CbInv implements strict (CbWorld.initial : CbWorld T) where
  ok := rfl
  live ref := by simp [CbWorld.initial]
  apart t ref h := nomatch h
  owner t u ref h := nomatch h
  typed ref object h := nomatch h
  balanced := trivial
  held ref := by simp [CbWorld.initial]
  orderly := trivial
  current := rfl
  genuine object h := nomatch h
  proper _ := rfl

theorem cbAt_initial (implements : ℕ → Bool) (strict : Prop) (t : T) :
    CbAt implements strict t .idle (CbWorld.initial : CbWorld T) where
  inv := cbInv_initial implements strict
  mutex := by simp [CbWorld.initial, CbLocal.idle]
  hand := rfl
  refs := rfl
  quiet _ _ := rfl
  picked := rfl

theorem cb_verified {implements : ℕ → Bool} {spare single : Bool}
    {pool : Pool T CbCall CbCall.Answer Unit} {s : CbWorld T}
    (steps : PoolSteps (cbSystem T implements spare single) (fun _ => none, .initial) (pool, s)) :
    Verified (cbSystem T implements spare single) (CbInv implements (Strict spare single)) CbRely
      (fun t => CbAt implements (Strict spare single) t .idle)
      (fun t => CbAt implements (Strict spare single) t .idle) (pool, s) :=
  (cb_relyGuarantee implements spare single).steps (cbInv_initial _ _) (cbAt_initial _ _) steps

/-- A native call that has returned, or has not begun, has nothing. -/
theorem cbAt_of_inactive {pool : Pool T CbCall CbCall.Answer Unit}
    (steps : PoolSteps (cbSystem T implements spare single) (fun _ => none, .initial) (pool, s))
    (inactive : pool t = none ∨ pool t = some (ret ())) :
    CbAt implements (Strict spare single) t .idle s := by
  have hverified := cb_verified steps
  rcases inactive with hidle | hreturned
  · exact hverified.rest t hidle
  · have h := wp_returned (hverified.wp t _ hreturned)
    exact h

/-! ### What a history in order says -/

theorem Orderly.suffix {after before : List (CbEvent T)} (h : Orderly (after ++ before)) :
    Orderly before := by
  induction after with
  | nil => exact h
  | cons event rest ih =>
    cases event with
    | install object => exact ih h
    | pick t object => exact ih h.2.2
    | invoked t object args => exact ih h.2
    | drop t => exact ih h.2

/-- The object that a native call has was the one installed when the call picked it up. -/
theorem Orderly.exists_pick {history : List (CbEvent T)} {object : ℕ} (h : Orderly history)
    (now : picked t history = some object) : ∃ since early,
      history = since ++ .pick t object :: early ∧ installed early = some object ∧
        ∀ event ∈ since, event ≠ .drop t ∧ ∀ o, event ≠ .pick t o := by
  induction history with
  | nil => cases now
  | cons event rest ih =>
    -- an event of another kind, or of another native call, is one more since then
    have hmore : Orderly rest → picked t rest = some object →
        (event ≠ .drop t ∧ ∀ o, event ≠ .pick t o) → ∃ since early,
          event :: rest = since ++ .pick t object :: early ∧ installed early = some object ∧
            ∀ event ∈ since, event ≠ .drop t ∧ ∀ o, event ≠ .pick t o := by
      intro horderly hpicked hevent
      obtain ⟨since, early, rfl, hinstalled, hsince⟩ := ih horderly hpicked
      exact ⟨event :: since, early, rfl, hinstalled, List.forall_mem_cons.mpr ⟨hevent, hsince⟩⟩
    cases event with
    | install o => exact hmore h now ⟨nofun, nofun⟩
    | invoked u o args => exact hmore h.2 now ⟨nofun, nofun⟩
    | pick u o =>
      by_cases hu : u = t
      · subst hu
        obtain rfl : o = object := Option.some.inj ((if_pos rfl).symm.trans now)
        exact ⟨[], rest, rfl, h.1, List.forall_mem_nil _⟩
      · refine hmore h.2.2 ((if_neg hu).symm.trans now) ⟨nofun, fun o' heq => hu ?_⟩
        exact (CbEvent.pick.inj heq).1
    | drop u =>
      by_cases hu : u = t
      · subst hu
        exact absurd ((if_pos rfl).symm.trans now) (Option.some_ne_none object).symm
      · refine hmore h.2 ((if_neg hu).symm.trans now) ⟨fun heq => hu ?_, nofun⟩
        exact CbEvent.drop.inj heq

omit [DecidableEq T] in
theorem mem_of_installed {history : List (CbEvent T)} {object : ℕ}
    (h : installed history = some object) : .install (some object) ∈ history := by
  induction history with
  | nil => cases h
  | cons event rest ih =>
    cases event with
    | install o =>
      obtain rfl : o = some object := h
      exact List.mem_cons_self
    | pick t o => exact List.mem_cons_of_mem _ (ih h)
    | invoked t o args => exact List.mem_cons_of_mem _ (ih h)
    | drop t => exact List.mem_cons_of_mem _ (ih h)

/-! ### A callback that throws -/

/-- The receive buffer with one message. -/
def shortMem : ℕ → UInt8 := fun a => shortEvent.getD a 0

theorem holds_shortMem : Holds (rbuf shortMem) 0 shortEvent := by
  refine holds_of_getElem? fun i hi => ?_
  have hlength : shortEvent.length = 44 := rfl
  rw [Nat.zero_add, rbuf_of_lt (by omega), shortMem, List.getD_eq_getElem?_getD,
    List.getElem?_eq_getElem hi, Option.getD_some]

/-- Whichever family the client has found, the message makes at most one callback. -/
theorem oneEach_shortMem : OneEach shortMem [0] := by
  intro nlh hnlh gFamilyId calls hcalls
  obtain rfl := List.mem_singleton.mp hnlh
  have htype : readWord (rbuf shortMem) (0 + 4) 2 = some 16 := by decide
  by_cases hfamily : (16 : ℕ) = gFamilyId.toNat
  · obtain rfl : gFamilyId = 16 := UInt16.toNat_inj.mp hfamily.symm
    rw [handleEvent_shortEvent holds_shortMem] at hcalls
    obtain rfl := Option.some.inj hcalls
    exact le_rfl
  · rw [handleEvent, htype, Option.bind_eq_bind, Option.bind_some, if_neg (by decide),
      if_pos hfamily] at hcalls
    obtain rfl := Option.some.inj hcalls
    exact Nat.zero_le 1

/-- What the handlers do with it. -/
theorem handleTable_shortMem (cb : ℕ) :
    handleTable (rbuf shortMem) cb (eventTable 16 (rbuf shortMem) 0 16) =
      (do invokeAll cb [.network (-1) 10001 (-1)]; clearException) := by
  have hcalls := handleEvent_shortEvent holds_shortMem
  have htype : readWord (rbuf shortMem) (0 + 4) 2 = some 16 := by decide
  rw [handleEvent_eq, htype, Option.bind_some, if_neg (by decide)] at hcalls
  obtain ⟨table, htable, hdispatch⟩ := Option.bind_eq_some_iff.mp hcalls
  rw [htable]
  cases table with
  | none => cases hdispatch
  | some evtTb => exact handleTable_of_dispatchEvent cb hdispatch

/-- Object 5 is installed behind reference 0. A dispatch has made reference 0 of its own and
called the object through it, and the method has thrown. -/
def calledBack : CbWorld Unit where
  globals := Function.update (fun _ => none) 0 (some 5)
  locals := Function.update (fun _ _ => none) ()
    (Function.update (fun _ => none) 0 (some (.object 5)))
  gCallback := some 0
  mutex := none
  gFamilyId := 16
  pending := Function.update (fun _ => false) () true
  hand := Function.update (Function.update (fun _ => none) () (some 0)) () none
  log := [.acquire 0]
  history := [.invoked () 5 (.network (-1) 10001 (-1)), .pick () 5, .install (some 5)]
  ok := true
  proper := true

/-- The system in which it happens: one thread, and every object implements the interface. -/
abbrev soloSystem : System Unit CbCall CbCall.Answer Unit (CbWorld Unit) :=
  cbSystem Unit (fun _ => true) true true

/-- The exception is cleared and the reference given back. -/
def calmed : CbWorld Unit :=
  { calledBack with
    locals := Function.update calledBack.locals ()
      (Function.update (calledBack.locals ()) 0 none)
    pending := Function.update calledBack.pending () false
    history := .drop () :: calledBack.history }

/-- A run to the exception, and from there to the end of the dispatch. -/
theorem exists_steps_calledBack : ∃ pool pool',
    PoolSteps soloSystem (fun _ => none, .initial) (pool, calledBack) ∧
      PoolSteps soloSystem (pool, calledBack) (pool', calmed) ∧ pool' () = some (ret ()) := by
  have started : PoolSteps soloSystem (fun _ => none, .initial) _ :=
    .single (.start (t := ()) rfl (.setCallback (some 5) _))
  have checked := started.tail (.call (t := ()) (i := CbCall.isInstanceOf 5)
    (Function.update_self ..) ⟨rfl, rfl⟩)
  have made := checked.tail (.call (t := ()) (i := CbCall.newGlobalRef 5) (r := some 0)
    (Function.update_self ..) (.inl ⟨0, rfl, rfl, rfl⟩))
  have locked := made.tail (.call (t := ()) (i := CbCall.lock) (r := ())
    (Function.update_self ..) (.inl ⟨nofun, rfl, rfl⟩))
  have loaded := locked.tail (.call (t := ()) (i := CbCall.loadCallback) (r := none)
    (Function.update_self ..) (.inl ⟨rfl, rfl, rfl⟩))
  have stored := loaded.tail (.call (t := ()) (i := CbCall.storeCallback (some 0)) (r := ())
    (Function.update_self ..) (.inl ⟨⟨rfl, rfl⟩, rfl⟩))
  have unlocked := stored.tail (.call (t := ()) (i := CbCall.unlock) (r := ())
    (Function.update_self ..) (.inl ⟨rfl, rfl⟩))
  have finished := unlocked.tail (.finish (t := ()) (a := ()) (Function.update_self ..) rfl)
  have connected := finished.tail (.env ⟨16, rfl⟩)
  have received := connected.tail (.start (t := ()) (Function.update_self ..)
    (.dispatch shortMem 44 2 [0] (by decide) (by decide) (fun _ => oneEach_shortMem) _))
  have entered := received.tail (.call (t := ()) (i := CbCall.lock) (r := ())
    (Function.update_self ..) (.inl ⟨nofun, rfl, rfl⟩))
  have looked := entered.tail (.call (t := ()) (i := CbCall.loadCallback) (r := some 0)
    (Function.update_self ..) (.inl ⟨rfl, rfl, rfl⟩))
  have picked := looked.tail (.call (t := ()) (i := CbCall.newLocalRef 0) (r := some 0)
    (Function.update_self ..) (.inl ⟨rfl, .inl ⟨5, 0, rfl, rfl, rfl, rfl⟩⟩))
  have left := picked.tail (.call (t := ()) (i := CbCall.unlock) (r := ())
    (Function.update_self ..) (.inl ⟨rfl, rfl⟩))
  have found := left.tail (.call (t := ()) (i := CbCall.loadFamilyId) (r := (16 : UInt16))
    (Function.update_self ..) ⟨rfl, rfl⟩)
  have called := found.tail (.call (t := ())
    (i := CbCall.callVoidMethod 0 (.network (-1) 10001 (-1)) none) (r := ())
    ((Function.update_self ..).trans
      (congrArg (fun p => some (do (do p; handleMessages (rbuf shortMem) 0 [])
                                   Jni.deleteLocalRef 0)) (handleTable_shortMem 0)))
    (.inl ⟨⟨⟨5, rfl⟩, nofun⟩, 5, true, rfl, rfl⟩))
  obtain ⟨pool, hpool, called⟩ : ∃ pool : Pool Unit CbCall CbCall.Answer Unit,
      pool () = some (do (do clearException; handleMessages (rbuf shortMem) 0 [])
                         Jni.deleteLocalRef 0) ∧
        PoolSteps soloSystem (fun _ => none, .initial) (pool, calledBack) :=
    ⟨_, Function.update_self .., called⟩
  have noticed : PoolSteps soloSystem (pool, calledBack) _ :=
    .single (.call (t := ()) (i := CbCall.exceptionCheck) (r := true) hpool ⟨rfl, rfl⟩)
  have described := noticed.tail (.call (t := ()) (i := CbCall.exceptionDescribe) (r := ())
    (Function.update_self ..) rfl)
  have cleared := described.tail (.call (t := ()) (i := CbCall.exceptionClear) (r := ())
    (Function.update_self ..) rfl)
  have dropped := cleared.tail (.call (t := ()) (i := CbCall.deleteLocalRef 0) (r := ())
    (Function.update_self ..) (.inl ⟨rfl, .object 5, rfl, rfl⟩))
  exact ⟨pool, _, called, dropped, Function.update_self ..⟩

/-! ### The results -/

/-- However `setCallback` and dispatches are interleaved, and whichever allocations fail: the
mutex is taken and given back as it has to be, `g_callback` is touched only under it, every
reference is used and deleted only by its owner and while it exists, and no read leaves the
buffer; no global reference is deleted twice, and those that exist are that of `g_callback` and
those of native calls that are still running; and a native call that has returned, or has not
begun, holds neither the mutex nor a reference. -/
theorem callback_references_accounted (implements : ℕ → Bool) (spare single : Bool)
    {pool : Pool T CbCall CbCall.Answer Unit} {s : CbWorld T}
    (steps : PoolSteps (cbSystem T implements spare single) (fun _ => none, .initial) (pool, s)) :
    s.ok = true ∧ Balanced s.log ∧
      (∀ ref, ref ∈ held s.log ↔
        s.gCallback = some ref ∨ ∃ t, pool t ≠ none ∧ s.hand t = some ref) ∧
      ∀ t, pool t = none ∨ pool t = some (ret ()) →
        s.mutex ≠ some t ∧ s.hand t = none ∧ s.locals t = fun _ => none := by
  have hinv := (cb_verified steps).inv
  refine ⟨hinv.ok, hinv.balanced, fun ref => ?_, fun t ht => ?_⟩
  · rw [hinv.held, hinv.live]
    refine or_congr_right ⟨?_, fun ⟨t, _, hhand⟩ => ⟨t, hhand⟩⟩
    rintro ⟨t, hhand⟩
    refine ⟨t, fun hidle => ?_, hhand⟩
    rw [(cbAt_of_inactive steps (.inl hidle)).hand] at hhand
    cases hhand
  · have h := cbAt_of_inactive steps ht
    exact ⟨fun hmutex => Bool.false_ne_true (h.mutex.mp hmutex), h.hand, h.refs⟩

/-- While the callback is made, and after it. -/
theorem callback_references_accounted_calledBack :
    (calledBack.ok = true ∧ Balanced calledBack.log ∧ 0 ∈ held calledBack.log) ∧
      calmed.mutex ≠ some () ∧ calmed.hand () = none ∧ calmed.locals () = fun _ => none := by
  obtain ⟨pool, pool', steps, rest, hreturned⟩ := exists_steps_calledBack
  obtain ⟨hok, hbalanced, hheld, -⟩ := callback_references_accounted _ _ _ steps
  obtain ⟨-, -, -, hidle⟩ := callback_references_accounted _ _ _ (steps.trans rest)
  exact ⟨⟨hok, hbalanced, (hheld 0).mpr (.inl rfl)⟩, hidle () (.inr hreturned)⟩

/-- The object behind `g_callback` is the last one installed, and every callback goes to an
object that implements the interface and was the installed one when the dispatch that makes the
callback took its reference. -/
theorem callbacks_reach_installed_object (implements : ℕ → Bool) (spare single : Bool)
    {pool : Pool T CbCall CbCall.Answer Unit} {s : CbWorld T}
    (steps : PoolSteps (cbSystem T implements spare single) (fun _ => none, .initial) (pool, s)) :
    s.current = installed s.history ∧ Orderly s.history ∧
      ∀ after t object args before, s.history = after ++ .invoked t object args :: before →
        implements object = true ∧ ∃ since early,
          before = since ++ .pick t object :: early ∧ installed early = some object ∧
            ∀ event ∈ since, event ≠ .drop t ∧ ∀ o, event ≠ .pick t o := by
  have hinv := (cb_verified steps).inv
  refine ⟨hinv.current.symm, hinv.orderly, ?_⟩
  intro after t object args before hsplit
  have hsuffix : Orderly (.invoked t object args :: before) := (hsplit ▸ hinv.orderly).suffix
  obtain ⟨since, early, hbefore, hinstalled, hsince⟩ := hsuffix.2.exists_pick hsuffix.1
  refine ⟨hinv.genuine object ?_, since, early, hbefore, hinstalled, hsince⟩
  have hmem := mem_of_installed hinstalled
  rw [hsplit, hbefore]
  simp [hmem]

/-- The callback went to object 5, which had been installed when the dispatch looked. -/
theorem callbacks_reach_installed_object_calledBack :
    calledBack.current = installed calledBack.history ∧ Orderly calledBack.history ∧
      ∃ since early : List (CbEvent Unit),
        [.pick () 5, .install (some 5)] = since ++ .pick () 5 :: early ∧
          installed early = some 5 := by
  obtain ⟨pool, -, steps, -⟩ := exists_steps_calledBack
  obtain ⟨hcurrent, horderly, hcalls⟩ := callbacks_reach_installed_object _ _ _ steps
  obtain ⟨-, since, early, hbefore, hinstalled, -⟩ := hcalls [] _ _ _ _ rfl
  exact ⟨hcurrent, horderly, since, early, hbefore, hinstalled⟩

/-- As long as allocations succeed and no message makes two callbacks, no function of the
virtual machine is called with an exception pending unless it may be, and no native call
returns with one, whatever the callbacks throw. -/
theorem exceptions_are_cleared (implements : ℕ → Bool)
    {pool : Pool T CbCall CbCall.Answer Unit} {s : CbWorld T}
    (steps : PoolSteps (cbSystem T implements true true) (fun _ => none, .initial) (pool, s)) :
    s.proper = true ∧
      ∀ t, pool t = none ∨ pool t = some (ret ()) → s.pending t = false := by
  refine ⟨(cb_verified steps).inv.proper ⟨rfl, rfl⟩, fun t inactive => ?_⟩
  exact (cbAt_of_inactive steps inactive).quiet ⟨rfl, rfl⟩ rfl

/-- The exception that was pending in the middle of the run is not at its end. -/
theorem exceptions_are_cleared_calledBack : ∃ pool pool',
    PoolSteps soloSystem (fun _ => none, .initial) (pool, calledBack) ∧
      calledBack.pending () = true ∧
      PoolSteps soloSystem (pool, calledBack) (pool', calmed) ∧ pool' () = some (ret ()) ∧
      calmed.proper = true ∧ calmed.pending () = false := by
  obtain ⟨pool, pool', steps, rest, hreturned⟩ := exists_steps_calledBack
  obtain ⟨hproper, hpending⟩ := exceptions_are_cleared _ (steps.trans rest)
  exact ⟨pool, pool', steps, rfl, rest, hreturned, hproper, hpending () (.inr hreturned)⟩

end ReKernelX.Client
