import ReKernelX.Foundation.Ledger
import ReKernelX.Foundation.Threads
import ReKernelX.Client.Decoder
import ReKernelX.Client.Receive

/-!
# The callback object

`setCallback` keeps a global reference to the Java object in `g_callback`, and
`pollEvent` makes a local reference from it for each datagram and calls the
object through that. The two meet only in the sections of `g_callback_mutex`:
everything else, the calls into Java included, happens outside.

Here both are written call by call, one access to a shared variable, one
operation of the mutex or one function of the virtual machine at a time, and any
number of native calls run at once. A call of `setCallback` that a callback makes
is a native call of its own.

The state has the references that exist, and two things the virtual machine does
not show: who is going to delete a global reference that `g_callback` has not or
no longer, and the history of what was installed, picked up and called.
-/

set_option autoImplicit false

namespace ReKernelX.Client

open Bytes Netlink Proc Ledger

/-! ### The code -/

/-- The functions of the virtual machine, the operations of `g_callback_mutex` and the accesses
to shared variables. Objects and references are numbers. -/
inductive CbCall
  | isInstanceOf (object : ℕ)
  | newGlobalRef (object : ℕ)
  | deleteGlobalRef (ref : ℕ)
  | lock
  | unlock
  | loadCallback
  | storeCallback (ref : Option ℕ)
  | newLocalRef (ref : ℕ)
  | deleteLocalRef (ref : ℕ)
  | loadFamilyId
  | newStringUtf (bytes : CString)
  | callVoidMethod (cb : ℕ) (args : Callback) (name : Option ℕ)
  | exceptionCheck
  | exceptionDescribe
  | exceptionClear
  /-- a read outside the receive buffer -/
  | wildRead

/-- What each of them answers; `none` stands for a null reference. -/
def CbCall.Answer : CbCall → Type
  | .isInstanceOf _ | .exceptionCheck => Bool
  | .newGlobalRef _ | .loadCallback | .newLocalRef _ | .newStringUtf _ => Option ℕ
  | .loadFamilyId => UInt16
  | .deleteGlobalRef _ | .lock | .unlock | .storeCallback _ | .deleteLocalRef _
  | .callVoidMethod _ _ _ | .exceptionDescribe | .exceptionClear | .wildRead => Unit

abbrev CbProc := Proc CbCall CbCall.Answer

namespace Jni

def isInstanceOf (object : ℕ) : CbProc Bool := perform (CbCall.isInstanceOf object)
def newGlobalRef (object : ℕ) : CbProc (Option ℕ) := perform (CbCall.newGlobalRef object)
def deleteGlobalRef (ref : ℕ) : CbProc Unit := perform (CbCall.deleteGlobalRef ref)
def lock : CbProc Unit := perform CbCall.lock
def unlock : CbProc Unit := perform CbCall.unlock
def loadCallback : CbProc (Option ℕ) := perform CbCall.loadCallback
def storeCallback (ref : Option ℕ) : CbProc Unit := perform (CbCall.storeCallback ref)
def newLocalRef (ref : ℕ) : CbProc (Option ℕ) := perform (CbCall.newLocalRef ref)
def deleteLocalRef (ref : ℕ) : CbProc Unit := perform (CbCall.deleteLocalRef ref)
def loadFamilyId : CbProc UInt16 := perform CbCall.loadFamilyId
def newStringUtf (bytes : CString) : CbProc (Option ℕ) := perform (CbCall.newStringUtf bytes)
def callVoidMethod (cb : ℕ) (args : Callback) (name : Option ℕ) : CbProc Unit :=
  perform (CbCall.callVoidMethod cb args name)
def exceptionCheck : CbProc Bool := perform CbCall.exceptionCheck
def exceptionDescribe : CbProc Unit := perform CbCall.exceptionDescribe
def exceptionClear : CbProc Unit := perform CbCall.exceptionClear
def wildRead : CbProc Unit := perform CbCall.wildRead

end Jni

/-- The section of `setCallback` and what follows it. -/
def swapCallback (newCb : Option ℕ) : CbProc Unit := do
  Jni.lock
  let oldCb ← Jni.loadCallback
  Jni.storeCallback newCb
  Jni.unlock
  match oldCb with
  | none => return ()
  | some ref => Jni.deleteGlobalRef ref

/-- `setCallback` -/
def setCallback : Option ℕ → CbProc Unit
  | none => swapCallback none
  | some callback => do
    let isInstance ← Jni.isInstanceOf callback
    if isInstance then
      -- without memory for the reference the callback is cleared
      let newCb ← Jni.newGlobalRef callback
      swapCallback newCb
    else return ()

/-- The method call at the end of a handler; only `handle_binder_event` makes a string. -/
def invoke (cb : ℕ) : Callback → CbProc Unit
  | .binder binderType oneway fromUid fromPid targetUid targetPid rpcName code => do
    let jRpcName ← Jni.newStringUtf rpcName
    Jni.callVoidMethod cb
      (.binder binderType oneway fromUid fromPid targetUid targetPid rpcName code) jRpcName
    match jRpcName with
    | none => return ()
    | some ref => Jni.deleteLocalRef ref
  | args => Jni.callVoidMethod cb args none

/-- The handlers that `handle_event` runs for one message, in their order. -/
def invokeAll (cb : ℕ) : List Callback → CbProc Unit
  | [] => return ()
  | args :: rest => do
    invoke cb args
    invokeAll cb rest

/-- The end of `handle_event`. -/
def clearException : CbProc Unit := do
  let thrown ← Jni.exceptionCheck
  if thrown then
    Jni.exceptionDescribe
    Jni.exceptionClear
  else return ()

/-- The checks of `handle_event` behind the load of the family id: the attributes of the event,
nothing if it returns early, `none` for a read that hits unmapped memory. -/
def eventTable (gFamilyId : UInt16) (m : Memory) (nlh type : ℕ) : Option (Option AttrTable) :=
  if type ≠ gFamilyId.toNat then some none
  else do
    let len ← readWord m nlh 4
    if len < nlmsgHdrlen + genlHdrlen then return none
    else
      let cmd ← m (nlh + nlmsgHdrlen)
      if cmd ≠ rkxCEvent then return none
      else
        let tb ← rkxNlaParse m rkxAMax (nlh + (nlmsgHdrlen + genlHdrlen))
          (subInt (castInt len) (nlmsgHdrlen + genlHdrlen : ℕ))
        match tb rkxAEvent with
        | none => return none
        | some evt =>
          let evtTb ← rkxNlaParseNested m rkxAMax evt
          return some evtTb

/-- What `handle_event` does with the attributes of an event. -/
def handleTable (m : Memory) (cb : ℕ) : Option (Option AttrTable) → CbProc Unit
  | none => Jni.wildRead
  | some none => return ()
  | some (some evtTb) =>
    match dispatchEvent m evtTb with
    | none => Jni.wildRead
    | some calls => do
      invokeAll cb calls
      clearException

/-- `handle_event` with the calls it makes. -/
def handleEventCalls (m : Memory) (cb nlh : ℕ) : CbProc Unit :=
  match readWord m (nlh + 4) 2 with
  | none => Jni.wildRead
  | some type =>
    if type = nlmsgError ∨ type = nlmsgDone then return ()
    else do
      -- the family id of now: the connection may have been closed since the datagram came
      let gFamilyId ← Jni.loadFamilyId
      handleTable m cb (eventTable gFamilyId m nlh type)

/-- The message loop of `pollEvent` over the offsets it visits. -/
def handleMessages (m : Memory) (cb : ℕ) : List ℕ → CbProc Unit
  | [] => return ()
  | nlh :: rest => do
    handleEventCalls m cb nlh
    handleMessages m cb rest

/-- What `pollEvent` does with a received datagram. -/
def dispatchDatagram (m : Memory) (messages : List ℕ) : CbProc Unit := do
  Jni.lock
  let gCallback ← Jni.loadCallback
  let localCb ← match gCallback with
    | none => pure none
    | some ref => Jni.newLocalRef ref
  Jni.unlock
  match localCb with
  | none => return ()
  | some cb => do
    handleMessages m cb messages
    Jni.deleteLocalRef cb

/-! ### Histories

What happened to the callback, newest first. -/

/-- An object (or none) was stored in `g_callback`; a native call made its local reference to
an object; it called a method of it; it gave the reference back. -/
inductive CbEvent (T : Type)
  | install (object : Option ℕ)
  | pick (t : T) (object : ℕ)
  | invoked (t : T) (object : ℕ) (args : Callback)
  | drop (t : T)

section History

variable {T : Type} [DecidableEq T]

/-- The object last installed. -/
def installed : List (CbEvent T) → Option ℕ
  | [] => none
  | .install object :: _ => object
  | .pick _ _ :: history | .invoked _ _ _ :: history | .drop _ :: history => installed history

/-- The object that a native call has picked up and not yet given back. -/
def picked (t : T) : List (CbEvent T) → Option ℕ
  | [] => none
  | .pick u object :: history => if u = t then some object else picked t history
  | .drop u :: history => if u = t then none else picked t history
  | .install _ :: history | .invoked _ _ _ :: history => picked t history

/-- What a client of `setCallback` may expect: what is picked up is what was last installed,
and only an object that was picked up, and not given back, is called. -/
def Orderly : List (CbEvent T) → Prop
  | [] => True
  | .install _ :: history => Orderly history
  | .pick t object :: history =>
    installed history = some object ∧ picked t history = none ∧ Orderly history
  | .invoked t object _ :: history => picked t history = some object ∧ Orderly history
  | .drop t :: history => (picked t history).isSome ∧ Orderly history

end History

/-! ### The world -/

/-- What a local reference refers to. -/
inductive JValue
  | object (o : ℕ)
  | string (bytes : CString)

/-- The references and what they refer to, the shared variables, the exceptions that are
pending, the ledger of the global references, and whether nothing went wrong so far. -/
structure CbWorld (T : Type) where
  globals : ℕ → Option ℕ
  locals : T → ℕ → Option JValue
  gCallback : Option ℕ
  mutex : Option T
  gFamilyId : UInt16
  pending : T → Bool
  /-- the global reference that a native call has made and not stored, or taken out -/
  hand : T → Option ℕ
  log : List (Entry ℕ)
  history : List (CbEvent T)
  ok : Bool
  /-- every function so far was one that may be called with the exceptions there were -/
  proper : Bool

namespace CbWorld

variable {T : Type}

/-- The library has been loaded. -/
def initial : CbWorld T where
  globals _ := none
  locals _ _ := none
  gCallback := none
  mutex := none
  gFamilyId := 0
  pending _ := false
  hand _ := none
  log := []
  history := []
  ok := true
  proper := true

def fault (s : CbWorld T) : CbWorld T := { s with ok := false }

/-- The object behind `g_callback`. -/
def current (s : CbWorld T) : Option ℕ := s.gCallback.bind s.globals

/-- A function that must not be called while an exception is pending. -/
def noted (s : CbWorld T) (t : T) : CbWorld T := { s with proper := s.proper && !s.pending t }

variable [DecidableEq T]

/-- An allocation failed, and the exception for it is pending. -/
def thrown (s : CbWorld T) (t : T) : CbWorld T :=
  { s with pending := Function.update s.pending t true }

def globalMade (s : CbWorld T) (t : T) (object ref : ℕ) : CbWorld T :=
  { s with
    globals := Function.update s.globals ref (some object)
    hand := Function.update s.hand t (some ref)
    log := .acquire ref :: s.log }

def globalDeleted (s : CbWorld T) (t : T) (ref : ℕ) : CbWorld T :=
  { s with
    globals := Function.update s.globals ref none
    hand := Function.update s.hand t none
    log := .release ref :: s.log }

/-- The store of `setCallback`: the old reference is now the caller's to delete. -/
def stored (s : CbWorld T) (t : T) (ref : Option ℕ) : CbWorld T :=
  { s with
    gCallback := ref
    hand := Function.update s.hand t s.gCallback
    history := .install (ref.bind s.globals) :: s.history }

def localMade (s : CbWorld T) (t : T) (ref : ℕ) (value : JValue) : CbWorld T :=
  { s with locals := Function.update s.locals t (Function.update (s.locals t) ref (some value)) }

def localDeleted (s : CbWorld T) (t : T) (ref : ℕ) : CbWorld T :=
  { s with locals := Function.update s.locals t (Function.update (s.locals t) ref none) }

/-- The history after a local reference is gone: one to an object ends a dispatch. -/
def afterDrop (t : T) (history : List (CbEvent T)) : JValue → List (CbEvent T)
  | .object _ => .drop t :: history
  | .string _ => history

end CbWorld

open CbWorld in
/-- What each function may answer and do. With `spare`, allocations succeed. -/
def cbSem {T : Type} [DecidableEq T] (implements : ℕ → Bool) (spare : Bool) (t : T) :
    Sem CbCall CbCall.Answer (CbWorld T)
  | .isInstanceOf object, s, r, s' => r = implements object ∧ s' = s.noted t
  | .newGlobalRef object, s, r, s' =>
    (∃ ref, r = some ref ∧ s.globals ref = none ∧ s' = (s.noted t).globalMade t object ref) ∨
      (spare = false ∧ r = none ∧ s' = (s.noted t).thrown t)
  -- a global reference is deleted once, by the native call that has it
  | .deleteGlobalRef ref, s, _, s' => Guarded s.fault s'
      ((s.globals ref).isSome ∧ s.hand t = some ref) (s' = s.globalDeleted t ref)
  -- the mutex is waited for; it is not recursive
  | .lock, s, _, s' => Guarded s.fault s' (s.mutex ≠ some t)
      (s.mutex = none ∧ s' = { s with mutex := some t })
  | .unlock, s, _, s' => Guarded s.fault s' (s.mutex = some t) (s' = { s with mutex := none })
  | .loadCallback, s, r, s' => Guarded s.fault s' (s.mutex = some t) (r = s.gCallback ∧ s' = s)
  | .storeCallback ref, s, _, s' => Guarded s.fault s' (s.mutex = some t ∧ s.hand t = ref)
      (s' = s.stored t ref)
  | .newLocalRef ref, s, r, s' => Guarded s.fault s' (s.globals ref).isSome
      ((∃ object l, s.globals ref = some object ∧ r = some l ∧ s.locals t l = none ∧
          s' = { (s.noted t).localMade t l (.object object) with
            history := .pick t object :: s.history }) ∨
        (spare = false ∧ r = none ∧ s' = (s.noted t).thrown t))
  | .deleteLocalRef l, s, _, s' => Guarded s.fault s' (s.locals t l).isSome
      (∃ value, s.locals t l = some value ∧
        s' = { s.localDeleted t l with history := afterDrop t s.history value })
  | .loadFamilyId, s, r, s' => r = s.gFamilyId ∧ s' = s
  | .newStringUtf bytes, s, r, s' =>
    (∃ l, r = some l ∧ s.locals t l = none ∧ s' = (s.noted t).localMade t l (.string bytes)) ∨
      (spare = false ∧ r = none ∧ s' = (s.noted t).thrown t)
  -- the method may throw whatever it likes
  | .callVoidMethod cb args name, s, _, s' => Guarded s.fault s'
      ((∃ object, s.locals t cb = some (.object object)) ∧ ∀ l, name = some l →
        ∃ bytes, s.locals t l = some (.string bytes))
      (∃ object throws, s.locals t cb = some (.object object) ∧
        s' = { s.noted t with
          pending := Function.update s.pending t throws
          history := .invoked t object args :: s.history })
  -- the functions that may be called with an exception pending
  | .exceptionCheck, s, r, s' => r = s.pending t ∧ s' = s
  | .exceptionDescribe, s, _, s' => s' = s
  | .exceptionClear, s, _, s' => s' = { s with pending := Function.update s.pending t false }
  | .wildRead, s, _, s' => s' = s.fault

/-! ### The system -/

/-- The receive buffer of `pollEvent`. -/
def rbuf (mem : ℕ → UInt8) : Memory := fun a => if a < 8192 then some (mem a) else none

theorem rbuf_of_lt {mem : ℕ → UInt8} {a : ℕ} (inside : a < 8192) : rbuf mem a = some (mem a) :=
  if_pos inside

/-- The length field that the loop and the handler read. -/
theorem readWord_rbuf {mem : ℕ → UInt8} {nlh : ℕ} (inside : nlh + 4 ≤ 8192) :
    readWord (rbuf mem) nlh 4 = some (nlmsgLen mem nlh) := by
  simp [readWord, readBytes, rbuf_of_lt (show nlh < 8192 by omega),
    rbuf_of_lt (show nlh + 1 < 8192 by omega), rbuf_of_lt (show nlh + 1 + 1 < 8192 by omega),
    rbuf_of_lt (show nlh + 1 + 1 + 1 < 8192 by omega), nlmsgLen]

/-- No message makes more than one callback. -/
def OneEach (mem : ℕ → UInt8) (messages : List ℕ) : Prop :=
  ∀ nlh ∈ messages, ∀ gFamilyId calls,
    handleEvent gFamilyId (rbuf mem) nlh = some calls → calls.length ≤ 1

/-- A native call begins: `setCallback`, or the part of `pollEvent` that dispatches a datagram
whose messages lie in the buffer. With `single`, datagrams are such as the module sends. -/
inductive CbStart (T : Type) (single : Bool) (t : T) : CbProc Unit → CbWorld T → CbWorld T → Prop
  | setCallback (callback : Option ℕ) (s : CbWorld T) :
      CbStart T single t (setCallback callback) s s
  | dispatch (mem : ℕ → UInt8) (rlen fuel : ℕ) (messages : List ℕ)
      (received : receiveLoop mem fuel 0 rlen = some messages)
      (inside : ∀ nlh ∈ messages, nlmsgHdrlen ≤ nlmsgLen mem nlh ∧ nlh + nlmsgLen mem nlh ≤ 8192)
      (one : single = true → OneEach mem messages) (s : CbWorld T) :
      CbStart T single t (dispatchDatagram (rbuf mem) messages) s s

/-- Any number of native calls, while connections come and go. -/
def cbSystem (T : Type) [DecidableEq T] (implements : ℕ → Bool) (spare single : Bool) :
    System T CbCall CbCall.Answer Unit (CbWorld T) where
  sem := cbSem implements spare
  start := CbStart T single
  finish _ s s' := s' = s
  env s s' := ∃ gFamilyId, s' = { s with gFamilyId := gFamilyId }

end ReKernelX.Client
