import ReKernelX.Foundation.Ledger
import ReKernelX.Foundation.Procedure
import ReKernelX.Client.Connection

/-!
# The sections call by call

What `connect`, `disconnect` and the end of `pollEvent` do between taking and
releasing `g_conn_mutex`, one access to a global or one system call at a time.
Each of the system calls may fail, and `connect` has an exit of its own behind
each of them.

A ledger records every descriptor that was opened and every `close`. However
the sections of any number of threads follow one another, no descriptor is
closed twice or left behind: while the mutex is free, the open descriptors are
those in the globals, and the globals are all set or all cleared. Each section
as a whole does what the function of the same name does in one step.
-/

set_option autoImplicit false

namespace ReKernelX.Client

open Proc Ledger

/-! ### The code -/

/-- The accesses and system calls of the sections. `setsockopt` appears where its
result is looked at. -/
inductive ConnCall
  | loadFd
  | loadDisconnectFd
  | socket
  | eventfd
  | bind (fd : ℤ)
  /-- The request and the reply of `resolve_family_group`. -/
  | familyRequest (fd : ℤ)
  | addMembership (fd : ℤ) (gid : UInt32)
  | close (fd : ℤ)
  | storeFamilyId (fid : UInt16)
  | storeDisconnectFd (fd : ℤ)
  | storeFd (fd : ℤ)
  | exchangeFd (fd : ℤ)
  | exchangeDisconnectFd (fd : ℤ)
  | write (fd : ℤ)

/-- What each of them answers. -/
def ConnCall.Answer : ConnCall → Type
  | .familyRequest _ => Option (UInt16 × UInt32)
  | .close _ | .storeFamilyId _ | .storeDisconnectFd _ | .storeFd _ | .write _ => Unit
  | .loadFd | .loadDisconnectFd | .socket | .eventfd | .bind _ | .addMembership _ _
  | .exchangeFd _ | .exchangeDisconnectFd _ => ℤ

abbrev ConnProc := Proc ConnCall ConnCall.Answer

namespace Sys

def loadFd : ConnProc ℤ := perform ConnCall.loadFd
def loadDisconnectFd : ConnProc ℤ := perform ConnCall.loadDisconnectFd
def socket : ConnProc ℤ := perform ConnCall.socket
def eventfd : ConnProc ℤ := perform ConnCall.eventfd
def bind (fd : ℤ) : ConnProc ℤ := perform (ConnCall.bind fd)
def familyRequest (fd : ℤ) : ConnProc (Option (UInt16 × UInt32)) :=
  perform (ConnCall.familyRequest fd)
def addMembership (fd : ℤ) (gid : UInt32) : ConnProc ℤ := perform (ConnCall.addMembership fd gid)
def close (fd : ℤ) : ConnProc Unit := perform (ConnCall.close fd)
def storeFamilyId (fid : UInt16) : ConnProc Unit := perform (ConnCall.storeFamilyId fid)
def storeDisconnectFd (fd : ℤ) : ConnProc Unit := perform (ConnCall.storeDisconnectFd fd)
def storeFd (fd : ℤ) : ConnProc Unit := perform (ConnCall.storeFd fd)
def exchangeFd (fd : ℤ) : ConnProc ℤ := perform (ConnCall.exchangeFd fd)
def exchangeDisconnectFd (fd : ℤ) : ConnProc ℤ := perform (ConnCall.exchangeDisconnectFd fd)
def write (fd : ℤ) : ConnProc Unit := perform (ConnCall.write fd)

end Sys

/-- The exits of `connect` behind the eventfd. -/
def closeBoth (fd disconnectFd : ℤ) : ConnProc (Option Bool) := do
  Sys.close fd
  Sys.close disconnectFd
  return some false

/-- The stores at the end of `connect`. -/
def storeGlobals (fd disconnectFd : ℤ) (fid : UInt16) : ConnProc (Option Bool) := do
  Sys.storeFamilyId fid
  Sys.storeDisconnectFd disconnectFd
  Sys.storeFd fd
  return some true

/-- The rest of `connect` once it has both descriptors. -/
def bindAndJoin (fd disconnectFd : ℤ) : ConnProc (Option Bool) := do
  let bound ← Sys.bind fd
  if bound < 0 then closeBoth fd disconnectFd
  else
    let reply ← Sys.familyRequest fd
    match resolveFamilyGroup reply with
    | none => closeBoth fd disconnectFd
    | some (fid, gid) =>
      if 0 < gid then
        let joined ← Sys.addMembership fd gid
        if joined < 0 then closeBoth fd disconnectFd
        else storeGlobals fd disconnectFd fid
      -- not reached: `resolve_family_group` fails without a group
      else storeGlobals fd disconnectFd fid

/-- `connect` -/
def connectSection : ConnProc (Option Bool) := do
  let current ← Sys.loadFd
  -- connected already
  if 0 ≤ current then return some true
  else
    let fd ← Sys.socket
    if fd < 0 then return some false
    else
      let disconnectFd ← Sys.eventfd
      if disconnectFd < 0 then
        Sys.close fd
        return some false
      else bindAndJoin fd disconnectFd

/-- `disconnect` -/
def disconnectSection : ConnProc (Option Bool) := do
  let efd ← Sys.loadDisconnectFd
  if 0 ≤ efd then
    Sys.write efd
    return none
  else return none

/-- The section at the end of `pollEvent`. -/
def teardownSection : ConnProc (Option Bool) := do
  let fd ← Sys.exchangeFd (-1)
  let disconnectFd ← Sys.exchangeDisconnectFd (-1)
  Sys.storeFamilyId 0
  -- whoever takes a descriptor out of the globals closes it
  if 0 ≤ fd then Sys.close fd else pure ()
  if 0 ≤ disconnectFd then Sys.close disconnectFd else pure ()
  return none

/-- The sections of `g_conn_mutex`; those that return nothing return `none`. -/
inductive ConnSection
  | connect
  | disconnect
  | teardown

def ConnSection.body : ConnSection → ConnProc (Option Bool)
  | .connect => connectSection
  | .disconnect => disconnectSection
  | .teardown => teardownSection

/-! ### What the calls do -/

/-- The shared state, and the ledger of the descriptors. -/
structure ConnWorld where
  shared : Shared
  log : List (Entry ℤ)

/-- The new descriptor `fd` with its file. -/
def ConnWorld.opened (w : ConnWorld) (fd : ℤ) (file : File) : ConnWorld :=
  ⟨w.shared.setFile fd file, .acquire fd :: w.log⟩

/-- `close(fd)`, whatever `fd` is. -/
def ConnWorld.closed (w : ConnWorld) (fd : ℤ) : ConnWorld :=
  ⟨w.shared.close fd, .release fd :: w.log⟩

/-- A call that makes a descriptor: it fails, or the number was not in use. -/
def Creates (w : ConnWorld) (file : File) (fd : ℤ) (w' : ConnWorld) : Prop :=
  fd < 0 ∧ w' = w ∨ 0 ≤ fd ∧ w.shared.files fd = none ∧ w' = w.opened fd file

/-- The writing half of `disconnect`: one more in the counter of an eventfd. -/
def Shared.signal (sh : Shared) (fd : ℤ) : Shared :=
  match sh.files fd with
  | some (.event serial counter) => sh.setFile fd (.event serial (counter + 1))
  | _ => sh

/-- What each call may answer and do. -/
def connSem : Sem ConnCall ConnCall.Answer ConnWorld
  | .loadFd, w, r, w' => (r : ℤ) = w.shared.gFd ∧ w' = w
  | .loadDisconnectFd, w, r, w' => (r : ℤ) = w.shared.gDisconnectFd ∧ w' = w
  | .socket, w, r, w' => Creates w (.socket (w.shared.serial + 1)) r w'
  | .eventfd, w, r, w' => Creates w (.event (w.shared.serial + 1) 0) r w'
  | .bind _, w, _, w' | .familyRequest _, w, _, w' | .addMembership _ _, w, _, w' => w' = w
  | .close fd, w, _, w' => w' = w.closed fd
  | .storeFamilyId fid, w, _, w' => w' = { w with shared := { w.shared with gFamilyId := fid } }
  | .storeDisconnectFd fd, w, _, w' =>
    w' = { w with shared := { w.shared with gDisconnectFd := fd } }
  -- the last store of `connect` completes a connection, which gets the next number
  | .storeFd fd, w, _, w' =>
    w' = { w with shared := { w.shared with gFd := fd, serial := w.shared.serial + 1 } }
  | .exchangeFd fd, w, r, w' =>
    (r : ℤ) = w.shared.gFd ∧ w' = { w with shared := { w.shared with gFd := fd } }
  | .exchangeDisconnectFd fd, w, r, w' => (r : ℤ) = w.shared.gDisconnectFd ∧
      w' = { w with shared := { w.shared with gDisconnectFd := fd } }
  | .write fd, w, _, w' => w' = { w with shared := w.shared.signal fd }

/-! ### The ledger follows the descriptor table -/

namespace ConnWorld

variable {w : ConnWorld} {fd : ℤ}

/-- The ledger is balanced, and what it holds is what is open. -/
structure Tracked (w : ConnWorld) : Prop where
  balanced : Balanced w.log
  held_iff : ∀ n, n ∈ held w.log ↔ (w.shared.files n).isSome

theorem Tracked.opened (tracked : w.Tracked) (free : w.shared.files fd = none) (file : File) :
    (w.opened fd file).Tracked := by
  refine ⟨tracked.balanced.acquire ?_, fun n => ?_⟩
  · rw [tracked.held_iff, free]
    exact Bool.false_ne_true
  · change n ∈ insert fd (held w.log) ↔ (Function.update w.shared.files fd (some file) n).isSome
    by_cases hn : n = fd
    · simp [hn]
    · rw [Function.update_of_ne hn, ← tracked.held_iff, Set.mem_insert_iff]
      exact or_iff_right hn

theorem Tracked.closed (tracked : w.Tracked) (isOpen : (w.shared.files fd).isSome) :
    (w.closed fd).Tracked := by
  refine ⟨tracked.balanced.release ((tracked.held_iff fd).mpr isOpen), fun n => ?_⟩
  change n ∈ held w.log \ {fd} ↔ (Function.update w.shared.files fd none n).isSome
  by_cases hn : n = fd
  · simp [hn]
  · rw [Function.update_of_ne hn, ← tracked.held_iff, Set.mem_sdiff, Set.mem_singleton_iff]
    exact and_iff_left hn

/-- Changing globals does not touch the descriptors. -/
theorem Tracked.of_files (tracked : w.Tracked) {sh : Shared} (same : sh.files = w.shared.files) :
    Tracked ⟨sh, w.log⟩ :=
  ⟨tracked.balanced, fun n => by rw [tracked.held_iff, same]⟩

/-- Neither does a change of the counter of an eventfd. -/
theorem Tracked.signal (tracked : w.Tracked) (fd : ℤ) :
    Tracked ⟨w.shared.signal fd, w.log⟩ := by
  refine ⟨tracked.balanced, fun n => ?_⟩
  rw [tracked.held_iff, Shared.signal]
  split
  · next serial counter hfile =>
    by_cases hn : n = fd
    · simp [hn, hfile, Shared.setFile]
    · simp [hn, Shared.setFile]
  · rfl

end ConnWorld

open ConnWorld

/-! ### The sections as steps -/

/-- The family id of a new connection was resolved. -/
theorem family_ne_zero_of_connect {os : ConnectCalls} {sh : Shared} {c : Connection}
    (notConnected : ¬ 0 ≤ sh.gFd) (connected : (connect os sh).2 = some c) :
    (connect os sh).1.gFamilyId ≠ 0 := by
  rw [connect, if_neg notConnected] at connected ⊢
  split_ifs at connected ⊢
  split at connected
  · cases connected
  · next fid gid hresolved =>
    have hids := (Option.mem_filter_iff.mp hresolved).2
    simp only [ne_eq, decide_eq_true_eq] at hids
    split_ifs at connected ⊢
    exact hids.1

/-- Connected with a family, or not connected and without one. -/
def Shared.Settled (sh : Shared) : Prop :=
  sh.Up ∧ sh.gFamilyId ≠ 0 ∨ sh.Down ∧ sh.gFamilyId = 0

theorem Shared.Settled.wf {sh : Shared} (settled : sh.Settled) : sh.Wf :=
  settled.imp And.left And.left

/-- Run a section from a state, tracking the descriptors throughout. -/
abbrev cwp (p : ConnProc (Option Bool)) (Q : Option Bool → ConnWorld → Prop) (w : ConnWorld) :
    Prop :=
  p.wp connSem noEnv Tracked Q w

section Calls

variable {w : ConnWorld} {fd disconnectFd : ℤ} {Q : Option Bool → ConnWorld → Prop}

theorem cwp_return {a : Option Bool} (tracked : w.Tracked) (post : Q a w) :
    cwp (pure a) Q w := wp_ret_noEnv tracked post

/-- A call with one possible answer and effect. -/
theorem cwp_determined {i : ConnCall} {k : i.Answer → ConnProc (Option Bool)} {answer : i.Answer}
    {after : ConnWorld} (tracked : w.Tracked)
    (sem : ∀ r w', connSem i w r w' → r = answer ∧ w' = after) (next : cwp (k answer) Q after) :
    cwp (perform i >>= k) Q w := by
  apply wp_call_noEnv tracked
  intro r w' answered
  obtain ⟨rfl, rfl⟩ := sem r w' answered
  exact next

/-- A call that may answer anything and changes nothing here. -/
theorem cwp_undetermined {i : ConnCall} {k : i.Answer → ConnProc (Option Bool)}
    (tracked : w.Tracked) (sem : ∀ r w', connSem i w r w' → w' = w)
    (next : ∀ r, cwp (k r) Q w) : cwp (perform i >>= k) Q w := by
  apply wp_call_noEnv tracked
  intro r w' answered
  obtain rfl := sem r w' answered
  exact next r

theorem cwp_loadFd {k : ℤ → ConnProc (Option Bool)} (tracked : w.Tracked)
    (next : cwp (k w.shared.gFd) Q w) : cwp (Sys.loadFd >>= k) Q w :=
  cwp_determined tracked (fun _ _ answered => answered) next

theorem cwp_loadDisconnectFd {k : ℤ → ConnProc (Option Bool)} (tracked : w.Tracked)
    (next : cwp (k w.shared.gDisconnectFd) Q w) : cwp (Sys.loadDisconnectFd >>= k) Q w :=
  cwp_determined tracked (fun _ _ answered => answered) next

theorem cwp_exchangeFd {v : ℤ} {k : ℤ → ConnProc (Option Bool)} (tracked : w.Tracked)
    (next : cwp (k w.shared.gFd) Q { w with shared := { w.shared with gFd := v } }) :
    cwp (Sys.exchangeFd v >>= k) Q w :=
  cwp_determined tracked (fun _ _ answered => answered) next

theorem cwp_exchangeDisconnectFd {v : ℤ} {k : ℤ → ConnProc (Option Bool)} (tracked : w.Tracked)
    (next : cwp (k w.shared.gDisconnectFd) Q
      { w with shared := { w.shared with gDisconnectFd := v } }) :
    cwp (Sys.exchangeDisconnectFd v >>= k) Q w :=
  cwp_determined tracked (fun _ _ answered => answered) next

theorem cwp_storeFamilyId {fid : UInt16} {k : Unit → ConnProc (Option Bool)} (tracked : w.Tracked)
    (next : cwp (k ()) Q { w with shared := { w.shared with gFamilyId := fid } }) :
    cwp (Sys.storeFamilyId fid >>= k) Q w :=
  cwp_determined tracked (fun _ _ answered => ⟨rfl, answered⟩) next

theorem cwp_storeDisconnectFd {v : ℤ} {k : Unit → ConnProc (Option Bool)} (tracked : w.Tracked)
    (next : cwp (k ()) Q { w with shared := { w.shared with gDisconnectFd := v } }) :
    cwp (Sys.storeDisconnectFd v >>= k) Q w :=
  cwp_determined tracked (fun _ _ answered => ⟨rfl, answered⟩) next

theorem cwp_storeFd {v : ℤ} {k : Unit → ConnProc (Option Bool)} (tracked : w.Tracked)
    (next : cwp (k ()) Q
      { w with shared := { w.shared with gFd := v, serial := w.shared.serial + 1 } }) :
    cwp (Sys.storeFd v >>= k) Q w :=
  cwp_determined tracked (fun _ _ answered => ⟨rfl, answered⟩) next

theorem cwp_write {k : Unit → ConnProc (Option Bool)} (tracked : w.Tracked)
    (next : cwp (k ()) Q { w with shared := w.shared.signal fd }) :
    cwp (Sys.write fd >>= k) Q w :=
  cwp_determined tracked (fun _ _ answered => ⟨rfl, answered⟩) next

theorem cwp_close {k : Unit → ConnProc (Option Bool)} (tracked : w.Tracked)
    (next : cwp (k ()) Q (w.closed fd)) : cwp (Sys.close fd >>= k) Q w :=
  cwp_determined tracked (fun _ _ answered => ⟨rfl, answered⟩) next

theorem cwp_socket {k : ℤ → ConnProc (Option Bool)} (tracked : w.Tracked)
    (next : ∀ fd w', Creates w (.socket (w.shared.serial + 1)) fd w' → cwp (k fd) Q w') :
    cwp (Sys.socket >>= k) Q w := wp_call_noEnv tracked next

theorem cwp_eventfd {k : ℤ → ConnProc (Option Bool)} (tracked : w.Tracked)
    (next : ∀ fd w', Creates w (.event (w.shared.serial + 1) 0) fd w' → cwp (k fd) Q w') :
    cwp (Sys.eventfd >>= k) Q w := wp_call_noEnv tracked next

theorem cwp_bind {k : ℤ → ConnProc (Option Bool)} (tracked : w.Tracked)
    (next : ∀ bound, cwp (k bound) Q w) : cwp (Sys.bind fd >>= k) Q w :=
  cwp_undetermined tracked (fun _ _ answered => answered) next

theorem cwp_familyRequest {k : Option (UInt16 × UInt32) → ConnProc (Option Bool)}
    (tracked : w.Tracked) (next : ∀ reply, cwp (k reply) Q w) :
    cwp (Sys.familyRequest fd >>= k) Q w :=
  cwp_undetermined tracked (fun _ _ answered => answered) next

theorem cwp_addMembership {gid : UInt32} {k : ℤ → ConnProc (Option Bool)} (tracked : w.Tracked)
    (next : ∀ joined, cwp (k joined) Q w) : cwp (Sys.addMembership fd gid >>= k) Q w :=
  cwp_undetermined tracked (fun _ _ answered => answered) next

/-- Both descriptors are closed on the way out. -/
theorem cwp_closeBoth (tracked : w.Tracked) (hfd : (w.shared.files fd).isSome)
    (hdisconnectFd : (w.shared.files disconnectFd).isSome) (ne : disconnectFd ≠ fd)
    (post : ((w.closed fd).closed disconnectFd).Tracked →
      Q (some false) ((w.closed fd).closed disconnectFd)) :
    cwp (closeBoth fd disconnectFd) Q w := by
  have hclosed := tracked.closed hfd
  have hstill : ((w.closed fd).shared.files disconnectFd).isSome := by
    change (Function.update w.shared.files fd none disconnectFd).isSome
    rwa [Function.update_of_ne ne]
  have hboth := hclosed.closed hstill
  refine cwp_close tracked (cwp_close hclosed (cwp_return hboth (post hboth)))

/-- The globals after the stores of `connect`. -/
def Shared.stored (sh : Shared) (fd disconnectFd : ℤ) (fid : UInt16) : Shared :=
  { sh with gFamilyId := fid, gDisconnectFd := disconnectFd, gFd := fd, serial := sh.serial + 1 }

theorem cwp_storeGlobals {fid : UInt16} (tracked : w.Tracked)
    (post : Tracked ⟨w.shared.stored fd disconnectFd fid, w.log⟩ →
      Q (some true) ⟨w.shared.stored fd disconnectFd fid, w.log⟩) :
    cwp (storeGlobals fd disconnectFd fid) Q w := by
  refine cwp_storeFamilyId tracked (cwp_storeDisconnectFd (tracked.of_files rfl)
    (cwp_storeFd (tracked.of_files rfl) ?_))
  have htracked : Tracked ⟨w.shared.stored fd disconnectFd fid, w.log⟩ := tracked.of_files rfl
  exact cwp_return htracked (post htracked)

end Calls

/-- A section ended like `connect` with some answers of the system. -/
def ConnectPost (w : ConnWorld) (a : Option Bool) (w' : ConnWorld) : Prop :=
  w'.Tracked ∧ ∃ os : ConnectCalls, os.Fresh w.shared ∧ w'.shared = (connect os w.shared).1 ∧
    a = some (connect os w.shared).2.isSome

theorem fresh_of_neg {os : ConnectCalls} {sh : Shared} (socket : os.socket < 0)
    (eventfd : os.eventfd < 0) : os.Fresh sh :=
  ⟨fun h => absurd socket (not_lt.mpr h), fun h => absurd eventfd (not_lt.mpr h)⟩

section Connect

variable {w : ConnWorld} {fd disconnectFd : ℤ}

/-- The two new descriptors of an attempt. -/
abbrev ConnWorld.attempt (w : ConnWorld) (fd disconnectFd : ℤ) : ConnWorld :=
  (w.opened fd (.socket (w.shared.serial + 1))).opened disconnectFd
    (.event (w.shared.serial + 1) 0)

/-- An attempt that has its two descriptors: the numbers were free and differ. -/
structure Attempting (w : ConnWorld) (fd disconnectFd : ℤ) : Prop where
  notConnected : ¬ 0 ≤ w.shared.gFd
  fd_nonneg : ¬ fd < 0
  disconnectFd_nonneg : ¬ disconnectFd < 0
  fd_free : w.shared.files fd = none
  disconnectFd_free : w.shared.files disconnectFd = none
  distinct : disconnectFd ≠ fd
  tracked : (w.attempt fd disconnectFd).Tracked

theorem Attempting.fresh (h : Attempting w fd disconnectFd) (bound : ℤ)
    (reply : Option (UInt16 × UInt32)) (joined : ℤ) :
    ConnectCalls.Fresh ⟨fd, disconnectFd, bound, reply, joined⟩ w.shared :=
  ⟨fun _ => h.fd_free, fun _ => ⟨h.disconnectFd_free, h.distinct⟩⟩

/-- Every exit behind the eventfd closes both, like `connect` does for the same
answers. -/
theorem Attempting.closeBoth (h : Attempting w fd disconnectFd) {bound joined : ℤ}
    {reply : Option (UInt16 × UInt32)}
    (failed : connect ⟨fd, disconnectFd, bound, reply, joined⟩ w.shared =
      ((((w.attempt fd disconnectFd).shared.close fd).close disconnectFd), none)) :
    cwp (closeBoth fd disconnectFd) (ConnectPost w) (w.attempt fd disconnectFd) := by
  refine cwp_closeBoth h.tracked ?_ ?_ h.distinct fun htracked => ?_
  · simp [opened, Shared.setFile, h.distinct.symm]
  · simp [opened, Shared.setFile]
  · refine ⟨htracked, _, h.fresh bound reply joined, ?_, ?_⟩
    · rw [failed]
      rfl
    · rw [failed]
      rfl

/-- Storing the globals completes the connection, like `connect` does. -/
theorem Attempting.storeGlobals (h : Attempting w fd disconnectFd) {bound joined : ℤ}
    {reply : Option (UInt16 × UInt32)} {fid : UInt16} {c : Connection}
    (succeeded : connect ⟨fd, disconnectFd, bound, reply, joined⟩ w.shared =
      ((w.attempt fd disconnectFd).shared.stored fd disconnectFd fid, some c)) :
    cwp (storeGlobals fd disconnectFd fid) (ConnectPost w) (w.attempt fd disconnectFd) := by
  refine cwp_storeGlobals h.tracked fun htracked => ?_
  refine ⟨htracked, _, h.fresh bound reply joined, ?_, ?_⟩
  · rw [succeeded]
  · rw [succeeded]
    rfl

/-- `connect` behind the two descriptors, as a function of the other answers. -/
theorem Attempting.connect_eq (h : Attempting w fd disconnectFd) (bound : ℤ)
    (reply : Option (UInt16 × UInt32)) (joined : ℤ) :
    connect ⟨fd, disconnectFd, bound, reply, joined⟩ w.shared =
      if bound < 0 then
        (((w.attempt fd disconnectFd).shared.close fd).close disconnectFd, none)
      else
        match resolveFamilyGroup reply with
        | none => (((w.attempt fd disconnectFd).shared.close fd).close disconnectFd, none)
        | some (fid, gid) =>
          if 0 < gid ∧ joined < 0 then
            (((w.attempt fd disconnectFd).shared.close fd).close disconnectFd, none)
          else
            ((w.attempt fd disconnectFd).shared.stored fd disconnectFd fid,
              some ((w.attempt fd disconnectFd).shared.stored fd disconnectFd fid).current) := by
  rw [connect, if_neg h.notConnected, if_neg h.fd_nonneg]
  simp only [if_neg h.disconnectFd_nonneg]
  rfl

theorem cwp_bindAndJoin (h : Attempting w fd disconnectFd) :
    cwp (bindAndJoin fd disconnectFd) (ConnectPost w) (w.attempt fd disconnectFd) := by
  refine cwp_bind h.tracked fun bound => ?_
  by_cases hbound : bound < 0
  · have hconnect := h.connect_eq bound none 0
    rw [if_pos hbound] at hconnect
    simp only [if_pos hbound]
    exact h.closeBoth hconnect
  · simp only [if_neg hbound]
    refine cwp_familyRequest h.tracked fun reply => ?_
    cases hreply : resolveFamilyGroup reply with
    | none =>
      have hconnect := h.connect_eq bound reply 0
      rw [if_neg hbound, hreply] at hconnect
      exact h.closeBoth hconnect
    | some ids =>
      obtain ⟨fid, gid⟩ := ids
      have hconnect := h.connect_eq bound reply
      simp only [if_neg hbound, hreply] at hconnect
      by_cases hgid : 0 < gid
      · simp only [if_pos hgid]
        refine cwp_addMembership h.tracked fun joined => ?_
        specialize hconnect joined
        by_cases hjoined : joined < 0
        · rw [if_pos ⟨hgid, hjoined⟩] at hconnect
          simp only [if_pos hjoined]
          exact h.closeBoth hconnect
        · rw [if_neg fun hboth => hjoined hboth.2] at hconnect
          simp only [if_neg hjoined]
          exact h.storeGlobals hconnect
      · specialize hconnect 0
        rw [if_neg fun hboth => hgid hboth.1] at hconnect
        simp only [if_neg hgid]
        exact h.storeGlobals hconnect

/-- `connect`, call by call, is `connect` as one step. -/
theorem cwp_connectSection (tracked : w.Tracked) : cwp connectSection (ConnectPost w) w := by
  refine cwp_loadFd tracked ?_
  by_cases hconnected : 0 ≤ w.shared.gFd
  · simp only [if_pos hconnected]
    refine cwp_return tracked ⟨tracked, ⟨-1, -1, 0, none, 0⟩,
      fresh_of_neg (show (-1 : ℤ) < 0 by decide) (show (-1 : ℤ) < 0 by decide), ?_⟩
    rw [connect, if_pos hconnected]
    exact ⟨rfl, rfl⟩
  · simp only [if_neg hconnected]
    refine cwp_socket tracked fun fd w' hsocket => ?_
    rcases hsocket with ⟨hneg, rfl⟩ | ⟨hnonneg, hfree, rfl⟩
    · -- no socket: the later calls are not made, so any answers do for them
      simp only [if_pos hneg]
      refine cwp_return tracked ⟨tracked, ⟨fd, -1, 0, none, 0⟩,
        fresh_of_neg hneg (show (-1 : ℤ) < 0 by decide), ?_⟩
      rw [connect, if_neg hconnected, if_pos hneg]
      exact ⟨rfl, rfl⟩
    · have hfd : ¬ fd < 0 := by omega
      have htracked := tracked.opened hfree (.socket (w.shared.serial + 1))
      simp only [if_neg hfd]
      refine cwp_eventfd htracked fun disconnectFd w' heventfd => ?_
      rcases heventfd with ⟨hneg, rfl⟩ | ⟨hnonneg', hfree', rfl⟩
      · -- no eventfd: the socket is closed
        simp only [if_pos hneg]
        have hclosed : ((w.opened fd (.socket (w.shared.serial + 1))).closed fd).Tracked :=
          htracked.closed (by simp [opened, Shared.setFile])
        refine cwp_close htracked (cwp_return hclosed ⟨hclosed, ⟨fd, disconnectFd, 0, none, 0⟩,
          ⟨fun _ => hfree, fun h => absurd hneg (not_lt.mpr h)⟩, ?_⟩)
        rw [connect, if_neg hconnected, if_neg hfd]
        simp only [if_pos hneg]
        exact ⟨rfl, rfl⟩
      · have hdisconnectFd : ¬ disconnectFd < 0 := by omega
        -- the socket is open when the eventfd gets its number
        have hne : disconnectFd ≠ fd := by
          rintro rfl
          simp [opened, Shared.setFile] at hfree'
        have hfree'' : w.shared.files disconnectFd = none := by
          simpa [opened, Shared.setFile, hne] using hfree'
        simp only [if_neg hdisconnectFd]
        exact cwp_bindAndJoin ⟨hconnected, hfd, hdisconnectFd, hfree, hfree'', hne,
          htracked.opened hfree' _⟩

end Connect

section Others

variable {w : ConnWorld}

/-- `disconnect`, call by call, is `disconnect` as one step. -/
theorem cwp_disconnectSection (tracked : w.Tracked) :
    cwp disconnectSection (fun _ w' => w'.Tracked ∧ w'.shared = disconnect w.shared) w := by
  refine cwp_loadDisconnectFd tracked ?_
  by_cases hset : 0 ≤ w.shared.gDisconnectFd
  · simp only [if_pos hset]
    have htracked := tracked.signal w.shared.gDisconnectFd
    refine cwp_write tracked (cwp_return htracked ⟨htracked, ?_⟩)
    rw [disconnect, if_pos hset]
    rfl
  · simp only [if_neg hset]
    refine cwp_return tracked ⟨tracked, ?_⟩
    rw [disconnect, if_neg hset]

/-- The end of `pollEvent`, call by call, is `teardown` as one step: both
descriptors are open, or neither is there. -/
theorem cwp_teardownSection (wf : w.shared.Wf) (tracked : w.Tracked) :
    cwp teardownSection (fun _ w' => w'.Tracked ∧ w'.shared = teardown w.shared) w := by
  refine cwp_exchangeFd tracked (cwp_exchangeDisconnectFd (tracked.of_files rfl)
    (cwp_storeFamilyId (tracked.of_files rfl) ?_))
  set cleared : ConnWorld :=
    ⟨{ w.shared with gFd := -1, gDisconnectFd := -1, gFamilyId := 0 }, w.log⟩ with hcleared
  have htracked : cleared.Tracked := tracked.of_files rfl
  rcases wf with up | down
  · have hfd : (cleared.shared.files w.shared.gFd).isSome := by
      change (w.shared.files w.shared.gFd).isSome
      rw [up.socket]
      rfl
    have hclosed := htracked.closed hfd
    have hdisconnectFd : ((cleared.closed w.shared.gFd).shared.files
        w.shared.gDisconnectFd).isSome := by
      obtain ⟨counter, hevent⟩ := up.event
      change (Function.update w.shared.files w.shared.gFd none w.shared.gDisconnectFd).isSome
      rw [Function.update_of_ne up.distinct, hevent]
      rfl
    have hboth := hclosed.closed hdisconnectFd
    simp only [if_pos up.fd_nonneg, if_pos up.disconnectFd_nonneg]
    refine cwp_close htracked (cwp_close hclosed (cwp_return hboth ⟨hboth, ?_⟩))
    rw [teardown, if_pos up.fd_nonneg, if_pos up.disconnectFd_nonneg]
    rfl
  · have hfd : ¬ 0 ≤ w.shared.gFd := by
      rw [down.fd]
      decide
    have hdisconnectFd : ¬ 0 ≤ w.shared.gDisconnectFd := by
      rw [down.disconnectFd]
      decide
    simp only [if_neg hfd, if_neg hdisconnectFd]
    refine cwp_return htracked ⟨htracked, ?_⟩
    rw [teardown, if_neg hfd, if_neg hdisconnectFd]

end Others

/-! ### Every interleaving of sections -/

/-- Whenever the mutex is free: settled, and tracked. -/
structure ConnWorld.Inv (w : ConnWorld) : Prop where
  settled : w.shared.Settled
  tracked : w.Tracked

/-- Nothing has been called yet. -/
def ConnWorld.initial : ConnWorld := ⟨.initial, []⟩

theorem ConnWorld.inv_initial : ConnWorld.initial.Inv where
  settled := Or.inr ⟨⟨rfl, rfl, fun _ => rfl⟩, rfl⟩
  tracked := ⟨balanced_nil, fun n => by simp [initial, Shared.initial]⟩

theorem connect_settled {sh : Shared} (settled : sh.Settled) {os : ConnectCalls}
    (fresh : os.Fresh sh) : (connect os sh).1.Settled := by
  rcases settled with ⟨up, hfid⟩ | ⟨down, hfid⟩
  · rw [connect_of_up up]
    exact Or.inl ⟨up, hfid⟩
  · rcases connect_of_down down fresh with h | ⟨up, hsome⟩
    · rw [h]
      exact Or.inr ⟨down, hfid⟩
    · exact Or.inl ⟨up, family_ne_zero_of_connect (by rw [down.fd]; decide) hsome⟩

theorem disconnect_settled {sh : Shared} (settled : sh.Settled) : (disconnect sh).Settled := by
  rcases settled with ⟨up, hfid⟩ | ⟨down, hfid⟩
  · obtain ⟨counter, hevent⟩ := up.event
    rw [disconnect_of_up up hevent]
    exact Or.inl ⟨up.setEvent _, hfid⟩
  · rw [disconnect_of_down down]
    exact Or.inr ⟨down, hfid⟩

theorem teardown_settled {sh : Shared} (settled : sh.Settled) : (teardown sh).Settled := by
  refine Or.inr ⟨teardown_down settled.wf, ?_⟩
  rw [teardown]
  split_ifs <;> rfl

/-- What a section did as a whole, as a relation between the states at its ends. -/
def SectionPost (which : ConnSection) (w : ConnWorld) (a : Option Bool) (w' : ConnWorld) : Prop :=
  match which with
  | .connect => ∃ os : ConnectCalls, os.Fresh w.shared ∧ w'.shared = (connect os w.shared).1 ∧
      a = some (connect os w.shared).2.isSome
  | .disconnect => w'.shared = disconnect w.shared
  | .teardown => w'.shared = teardown w.shared

/-- Every section restores the invariant. -/
theorem cwp_body (which : ConnSection) {w : ConnWorld} (inv : w.Inv) :
    cwp which.body (fun a w' => w'.Inv ∧ SectionPost which w a w') w := by
  cases which with
  | connect =>
    refine wp_mono (cwp_connectSection inv.tracked) ?_
    rintro a w' ⟨htracked, os, hfresh, hshared, ha⟩
    refine ⟨⟨?_, htracked⟩, os, hfresh, hshared, ha⟩
    rw [hshared]
    exact connect_settled inv.settled hfresh
  | disconnect =>
    refine wp_mono (cwp_disconnectSection inv.tracked) ?_
    rintro a w' ⟨htracked, hshared⟩
    refine ⟨⟨?_, htracked⟩, hshared⟩
    rw [hshared]
    exact disconnect_settled inv.settled
  | teardown =>
    refine wp_mono (cwp_teardownSection inv.settled.wf inv.tracked) ?_
    rintro a w' ⟨htracked, hshared⟩
    refine ⟨⟨?_, htracked⟩, hshared⟩
    rw [hshared]
    exact teardown_settled inv.settled

/-- A failed `connect` as one step changes nothing. -/
theorem connect_of_failed {sh : Shared} (settled : sh.Settled) {os : ConnectCalls}
    (fresh : os.Fresh sh) (failed : (connect os sh).2.isSome = false) : (connect os sh).1 = sh := by
  rcases settled with ⟨up, -⟩ | ⟨down, -⟩
  · rw [connect_of_up up]
  · rcases connect_of_down down fresh with h | ⟨-, hsome⟩
    · rw [h]
    · rw [hsome] at failed
      cases failed

/-- The open descriptors, by the ledger. -/
theorem ConnWorld.Inv.cases {w : ConnWorld} (inv : w.Inv) :
    (w.shared.gFd = -1 ∧ w.shared.gDisconnectFd = -1 ∧ w.shared.gFamilyId = 0 ∧
      held w.log = ∅) ∨
    (0 ≤ w.shared.gFd ∧ 0 ≤ w.shared.gDisconnectFd ∧ w.shared.gDisconnectFd ≠ w.shared.gFd ∧
      w.shared.gFamilyId ≠ 0 ∧ held w.log = {w.shared.gFd, w.shared.gDisconnectFd}) := by
  rcases inv.settled with ⟨up, hfid⟩ | ⟨down, hfid⟩
  · refine Or.inr ⟨up.fd_nonneg, up.disconnectFd_nonneg, up.distinct, hfid, Set.ext fun n => ?_⟩
    obtain ⟨counter, hevent⟩ := up.event
    rw [inv.tracked.held_iff, Set.mem_insert_iff, Set.mem_singleton_iff]
    by_cases hfd : n = w.shared.gFd
    · simp [hfd, up.socket]
    · by_cases hdfd : n = w.shared.gDisconnectFd
      · simp [hdfd, hevent]
      · simp [hfd, hdfd, up.only n hfd hdfd]
  · refine Or.inl ⟨down.fd, down.disconnectFd, hfid, Set.ext fun n => ?_⟩
    rw [inv.tracked.held_iff, down.closed n]
    simp

/-- The threads' sections, one after another in any order, with any answers. -/
abbrev ConnRun (T : Type) :
    Option (Holder T ConnSection ConnCall ConnCall.Answer (Option Bool) ConnWorld) × ConnWorld →
      Prop :=
  LockSteps connSem ConnSection.body (none, ConnWorld.initial)

/-- **Connections are all or nothing, and every descriptor is closed once.** In
every state reached by any number of threads that run the sections of
`g_conn_mutex` call by call, whatever the system calls answer:
no descriptor is closed unless it is open, so each one is closed at most once;
while the mutex is free, the globals are all cleared and nothing is open, or they
are all set and hold the two descriptors that are open, with a family;
and a `connect` that is about to return false has left the globals and the open
descriptors as it found them. -/
theorem connection_all_or_nothing {T : Type}
    (c : Option (Holder T ConnSection ConnCall ConnCall.Answer (Option Bool) ConnWorld) × ConnWorld)
    (run : ConnRun T c) :
    (Balanced c.2.log ∧ ∀ n, c.2.log.count (.release n) ≤ c.2.log.count (.acquire n)) ∧
    (c.1 = none →
      (c.2.shared.gFd = -1 ∧ c.2.shared.gDisconnectFd = -1 ∧ c.2.shared.gFamilyId = 0 ∧
        held c.2.log = ∅) ∨
      (0 ≤ c.2.shared.gFd ∧ 0 ≤ c.2.shared.gDisconnectFd ∧
        c.2.shared.gDisconnectFd ≠ c.2.shared.gFd ∧ c.2.shared.gFamilyId ≠ 0 ∧
        held c.2.log = {c.2.shared.gFd, c.2.shared.gDisconnectFd})) ∧
    (∀ holder, c.1 = some holder → holder.which = .connect → holder.rest = .ret (some false) →
      c.2.shared = holder.entry.shared ∧ held c.2.log = held holder.entry.log) := by
  have hinv := lock_invariant (Q := fun which w a w' => w.Inv ∧ SectionPost which w a w')
    (fun which w inv => wp_mono (cwp_body which inv) fun a w' h => ⟨h.1, inv, h.2⟩)
    ConnWorld.inv_initial run
  -- also in the middle of a section
  have htracked : c.2.Tracked := by
    cases hholder : c.1 with
    | none => exact (hinv.1 hholder).tracked
    | some holder => exact wp_inside (hinv.2 holder hholder)
  refine ⟨⟨htracked.balanced, htracked.balanced.count_release_le⟩,
    fun hfree => (hinv.1 hfree).cases, fun holder hholder hwhich hrest => ?_⟩
  have hwp := hinv.2 holder hholder
  rw [hrest] at hwp
  obtain ⟨-, hentry, hpost⟩ := wp_returned hwp
  rw [hwhich] at hpost
  obtain ⟨os, hfresh, hshared, ha⟩ := hpost
  have hsame : c.2.shared = holder.entry.shared := by
    rw [hshared]
    exact connect_of_failed hentry.settled hfresh (Option.some.inj ha).symm
  refine ⟨hsame, Set.ext fun n => ?_⟩
  rw [htracked.held_iff, hentry.tracked.held_iff, hsame]

/-- A first `connect` whose eventfd cannot be made, about to return. -/
def failedAttempt :
    Option (Holder Unit ConnSection ConnCall ConnCall.Answer (Option Bool) ConnWorld) × ConnWorld :=
  (some ⟨(), .connect, .initial, .ret (some false)⟩,
    (ConnWorld.initial.opened 3 (.socket 1)).closed 3)

theorem connRun_failedAttempt : ConnRun Unit failedAttempt := by
  refine .tail (.tail (.tail (.tail (.tail .refl (.enter () .connect _))
    (.run (.call (r := (-1 : ℤ)) ⟨rfl, rfl⟩)))
    (.run (.call (r := (3 : ℤ)) (Or.inr ⟨by decide, rfl, rfl⟩))))
    (.run (.call (r := (-1 : ℤ)) (Or.inl ⟨by decide, rfl⟩))))
    (.run (.call (r := ()) rfl))

theorem connection_all_or_nothing_failedAttempt :
    failedAttempt.2.shared = ConnWorld.initial.shared ∧
      held failedAttempt.2.log = held ConnWorld.initial.log :=
  (connection_all_or_nothing failedAttempt connRun_failedAttempt).2.2 _ rfl rfl rfl

end ReKernelX.Client
