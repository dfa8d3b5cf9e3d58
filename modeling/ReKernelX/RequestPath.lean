import ReKernelX.Module.Requests
import ReKernelX.Client.Layout

/-!
# Requests from Java to the kernel

A call of the client is checked by its JNI function, encoded by the builder,
validated by generic netlink, checked by the handler and checked again by the
table. Each of the five narrows or refuses something else, and only the first
two can tell the caller.

Two consequences are worked out. The strategy is an `int` in Java and a byte from
the builder on, so a strategy that is none can become one on the way. And the
boolean the client returns says that the datagram was sent, which for a name that
is too long, for an invalid strategy and for an allocation that fails is not what
the kernel says. A name whose narrowed length wraps is copied over the frame of the
call, which then returns nothing at all.
-/

set_option autoImplicit false

namespace ReKernelX

open Bytes Netlink

/-! ### A call and what it leads to -/

/-- A client whose globals are set, with the id the kernel gave the family. -/
structure ConnectedClient where
  family : FamilyId
  gFd : Int32
  opened : ¬ gFd < 0

theorem ConnectedClient.id_ne_zero (client : ConnectedClient) : client.family.id ≠ 0 := by
  intro hzero
  have hdynamic := client.family.dynamic
  rw [hzero] at hdynamic
  exact absurd hdynamic (by decide)

/-- What a call depends on besides its arguments: the sequence number, what its
stack held, and whether `socket` and the kernel's `kmalloc` succeed. -/
structure CallEnv where
  seq : UInt32
  stack : ℕ → UInt8
  socketOk : Bool
  kmallocOk : Bool

/-- The native methods that send a request. A null string is `none`. -/
inductive ClientCall
  | addMonitorNet (uid : Int32)
  | delMonitorNet (uid : Int32)
  | addFreeAsync (rpcName : Option CString) (code strategy : Int32)
  | delFreeAsync (rpcName : Option CString) (code : Int32)

/-- The request a call builds: whether it is going to be sent, and its bytes. -/
def ClientCall.request (client : ConnectedClient) (env : CallEnv) :
    ClientCall → Option (Bool × Client.NlaBuilder)
  | .addMonitorNet uid =>
    (Client.addMonitorNet client.family.id client.gFd env.seq env.stack env.socketOk uid).map
      fun b => (true, b)
  | .delMonitorNet uid =>
    (Client.delMonitorNet client.family.id client.gFd env.seq env.stack env.socketOk uid).map
      fun b => (true, b)
  | .addFreeAsync rpcName code strategy =>
    Client.addFreeAsync client.family.id client.gFd env.seq env.stack env.socketOk rpcName code
      strategy
  | .delFreeAsync rpcName code =>
    Client.delFreeAsync client.family.id client.gFd env.seq env.stack env.socketOk rpcName code

/-- Whether a call copies the name past the end of its buffer. -/
def ClientCall.overruns (client : ConnectedClient) (env : CallEnv) : ClientCall → Bool
  | .addMonitorNet uid =>
    Client.overruns
      (Client.requestStart env.stack 128 client.family.id env.seq Client.rkxCAddMonitorNet)
      [.u32 (UInt16.ofNat Client.rkxAUid) uid.toUInt32]
  | .delMonitorNet uid =>
    Client.overruns
      (Client.requestStart env.stack 128 client.family.id env.seq Client.rkxCDelMonitorNet)
      [.u32 (UInt16.ofNat Client.rkxAUid) uid.toUInt32]
  | .addFreeAsync none _ _ | .delFreeAsync none _ => false
  | .addFreeAsync (some rpcName) code strategy =>
    Client.overruns
      (Client.requestStart env.stack 256 client.family.id env.seq Client.rkxCAddFreeAsync)
      (Client.addFreeAsyncPuts rpcName code strategy)
  | .delFreeAsync (some rpcName) code =>
    Client.overruns
      (Client.requestStart env.stack 256 client.family.id env.seq Client.rkxCDelFreeAsync)
      (Client.delFreeAsyncPuts rpcName code)

/-- How a call ends: what it returns to Java, nothing if its frame was overwritten; what the
handler returned if one ran; and the tables of the module. -/
structure CallResult where
  returned : Option Bool
  handled : Option ℤ
  tables : RkxTables

section Call

variable (jhash : List UInt8 → UInt32) (hash : UInt32 → Fin 64)

/-- A call over a socket that delivers: `sendto` returns the full length, and the
kernel has handled the datagram by then. -/
def ClientCall.run (client : ConnectedClient) (env : CallEnv) (s : RkxTables)
    (call : ClientCall) : CallResult :=
  match call.request client env with
  | none => ⟨some false, none, s⟩
  | some (ok, b) =>
    -- the buffer is on the stack, and what lies behind it is the frame
    if call.overruns client env then ⟨none, none, s⟩
    else if ok then
      let received := receiveRequest jhash hash client.family b.message env.kmallocOk s
      ⟨some true, received.1, received.2⟩
    else ⟨some false, none, s⟩

end Call

variable {jhash : List UInt8 → UInt32} {hash : UInt32 → Fin 64} {s : RkxTables}

/-! ### What the kernel makes of the bytes -/

section Receive

variable {family : FamilyId} {seq : ℕ} {cmd version : UInt8} {attrs : List UInt8}
  {kmallocOk : Bool}

/-- The datagram of a request to the family. -/
abbrev requestBytes (family : FamilyId) (seq : ℕ) (cmd version : UInt8) (attrs : List UInt8) :
    List UInt8 :=
  genlHeader (nlmsgHdrlen + genlHdrlen + attrs.length) family.id.toNat Client.nlmFRequest seq 0 cmd
    version ++ attrs

theorem receive_requestBytes (short : 20 + attrs.length ≤ 256) :
    (rkxGenlFamily family).receive (requestBytes family seq cmd version attrs) =
      (nlaParseStrict rkxAMax rkxGenlPolicy attrs).map fun info => (cmd, info) :=
  (rkxGenlFamily family).receive_genlHeader seq 0 cmd version attrs
    (lt_of_le_of_lt short (by decide))

theorem receiveRequest_of_invalid (short : 20 + attrs.length ≤ 256)
    (invalid : nlaParseStrict rkxAMax rkxGenlPolicy attrs = none) :
    receiveRequest jhash hash family (requestBytes family seq cmd version attrs) kmallocOk s =
      (none, s) := by
  rw [receiveRequest, receive_requestBytes short, invalid]
  rfl

theorem receiveRequest_of_valid (short : 20 + attrs.length ≤ 256) {info : GenlInfo}
    (valid : nlaParseStrict rkxAMax rkxGenlPolicy attrs = some info) {handler : Handler}
    (op : rkxGenlOps cmd = some handler) :
    receiveRequest jhash hash family (requestBytes family seq cmd version attrs) kmallocOk s =
      (some (handler.run jhash hash info kmallocOk s).1,
        (handler.run jhash hash info kmallocOk s).2) := by
  rw [receiveRequest, receive_requestBytes short, valid, Option.map_some]
  simp only [op]

end Receive

/-! ### Names -/

theorem encodable_rpcName {payload : List UInt8} (fits : nlaHdrlen + payload.length ≤ 65532) :
    Encodable (rkxAFreeAsyncRpcName, payload) :=
  ⟨show rkxAFreeAsyncRpcName < 2 ^ 16 by decide, lt_of_le_of_lt fits (by decide)⟩

theorem encodable_withNul {name : CString} (fits : name.strlen + 5 ≤ 65532) :
    Encodable (rkxAFreeAsyncRpcName, name.withNul) := by
  apply encodable_rpcName
  rw [CString.length_withNul, nlaHdrlen]
  omega

/-- The check of a name: a terminator among the first 140 bytes, and at most 139
bytes before the one at the end. -/
theorem passes_rpcName_iff {payload : List UInt8} :
    passes rkxAMax rkxGenlPolicy (rkxAFreeAsyncRpcName, payload) = true ↔
      0 ∈ payload.take 140 ∧ (dropNul payload).length ≤ 139 := by
  have hpolicy : rkxGenlPolicy (attrNumber rkxAFreeAsyncRpcName) = .nulString 139 := rfl
  have hrange : 0 < attrNumber rkxAFreeAsyncRpcName ∧
      attrNumber rkxAFreeAsyncRpcName ≤ rkxAMax := by
    decide
  have hflag : rkxAFreeAsyncRpcName < nlaFNested := by decide
  rw [passes, hpolicy, decide_eq_true hrange, Bool.true_and, NlaPolicy.accepts, decide_eq_true_iff]
  exact and_iff_right hflag

/-- A string passes exactly when it has at most 139 bytes. -/
theorem passes_withNul_iff (name : CString) :
    passes rkxAMax rkxGenlPolicy (rkxAFreeAsyncRpcName, name.withNul) = true ↔
      name.strlen ≤ 139 := by
  -- the terminator does not count towards the length
  have hdrop : dropNul name.withNul = name.bytes := by simp [dropNul, CString.withNul]
  rw [passes_rpcName_iff, hdrop]
  refine ⟨fun h => h.2, fun h => ⟨?_, h⟩⟩
  rw [List.take_of_length_le (by rw [CString.length_withNul]; omega)]
  exact List.mem_append_right _ List.mem_cons_self

/-- Without its terminator no part of a string passes. -/
theorem not_passes_take (name : CString) (r : ℕ) :
    ¬ passes rkxAMax rkxGenlPolicy (rkxAFreeAsyncRpcName, name.bytes.take r) = true := by
  intro hpasses
  have hzero := (passes_rpcName_iff.mp hpasses).1
  exact name.nul_free (List.mem_of_mem_take (List.mem_of_mem_take hzero))

section Names

variable {name : CString} {region : List UInt8} {rest : List Attr}

/-- A short name is an attribute of the request. -/
theorem exists_info_of_short (h : Client.NameRegion rkxAFreeAsyncRpcName name region)
    (short : name.strlen ≤ 139) (encodable : ∀ a ∈ rest, Encodable a)
    (valid : ∀ a ∈ rest, passes rkxAMax rkxGenlPolicy a = true) :
    ∃ info : GenlInfo,
      nlaParseStrict rkxAMax rkxGenlPolicy (region ++ encodeAttrs rest) = some info ∧
      info.payload = lastPayload ((rkxAFreeAsyncRpcName, name.withNul) :: rest) := by
  cases h with
  | whole hfits =>
    exact exists_nlaParseStrict (List.forall_mem_cons.mpr ⟨encodable_withNul hfits, encodable⟩)
      (List.forall_mem_cons.mpr ⟨(passes_withNul_iff name).mpr short, valid⟩)
  | cut _ hlong => omega
  | gone hlong => omega
  | broken _ hlong => omega

/-- A long name is refused or lost. -/
theorem parse_of_long (h : Client.NameRegion rkxAFreeAsyncRpcName name region)
    (long : 139 < name.strlen) (encodable : ∀ a ∈ rest, Encodable a)
    (valid : ∀ a ∈ rest, passes rkxAMax rkxGenlPolicy a = true)
    (others : ∀ a ∈ rest, attrNumber a.1 ≠ rkxAFreeAsyncRpcName) :
    nlaParseStrict rkxAMax rkxGenlPolicy (region ++ encodeAttrs rest) = none ∨
    ∃ info : GenlInfo,
      nlaParseStrict rkxAMax rkxGenlPolicy (region ++ encodeAttrs rest) = some info ∧
      info.payload rkxAFreeAsyncRpcName = none := by
  cases h with
  | whole hfits =>
    left
    apply nlaParseStrict_eq_none
      (List.forall_mem_cons.mpr ⟨encodable_withNul hfits, encodable⟩) List.mem_cons_self
    intro hpasses
    exact absurd ((passes_withNul_iff name).mp hpasses) (Nat.not_le_of_lt long)
  | cut r hlong hr hfits =>
    have hname : Encodable (rkxAFreeAsyncRpcName, name.bytes.take r) := by
      apply encodable_rpcName
      rw [List.length_take]
      omega
    exact Or.inl (nlaParseStrict_eq_none (List.forall_mem_cons.mpr ⟨hname, encodable⟩)
      List.mem_cons_self (not_passes_take name r))
  | gone hlong =>
    -- what is left of the request is valid, only without a name
    obtain ⟨info, hparse, hpayload⟩ := exists_nlaParseStrict encodable valid
    refine Or.inr ⟨info, hparse, ?_⟩
    rw [hpayload, lastPayload, List.find?_eq_none.mpr, Option.map_none]
    intro a ha
    simpa using others a (List.mem_reverse.mp ha)
  | broken _ hlong hlength hshort =>
    -- the walk stops at the first attribute, and strict validation refuses the rest
    refine Or.inl (nlaParseStrict_of_short ?_ ?_)
    · intro hnil
      rw [(List.append_eq_nil_iff.mp hnil).1] at hlength
      cases hlength
    · rwa [List.take_append_of_le_length (by omega)]

end Names

theorem ofArray_withNul (name : CString) : CString.ofArray name.withNul = name := by
  simpa using CString.ofArray_withNul_append name []

/-! ### Scalars -/

/-- A scalar attribute of the right size passes. -/
theorem passes_scalar {number : ℕ} {payload : List UInt8}
    (known : 0 < attrNumber number ∧ attrNumber number ≤ rkxAMax)
    (accepted : (rkxGenlPolicy (attrNumber number)).accepts number payload = true) :
    passes rkxAMax rkxGenlPolicy (number, payload) = true := by
  rw [passes, decide_eq_true known, Bool.true_and, accepted]

theorem passes_u8 (v : UInt8) :
    passes rkxAMax rkxGenlPolicy (rkxAFreeAsyncStrategy, [v]) = true :=
  passes_scalar (by decide) rfl

theorem passes_s32 (v : ℕ) :
    passes rkxAMax rkxGenlPolicy (rkxAFreeAsyncCode, leBytes 4 v) = true :=
  passes_scalar (by decide) rfl

theorem passes_u32 (v : ℕ) : passes rkxAMax rkxGenlPolicy (rkxAUid, leBytes 4 v) = true :=
  passes_scalar (by decide) rfl

theorem encodable_scalar {number : ℕ} {payload : List UInt8} (hnumber : number < 2 ^ 16)
    (hlength : payload.length ≤ 4) : Encodable (number, payload) :=
  ⟨hnumber, lt_of_le_of_lt (Nat.add_le_add_left hlength nlaHdrlen) (by decide)⟩

theorem nlaGetU32_leBytes (v : UInt32) : nlaGetU32 (leBytes 4 v.toNat) = v := by
  rw [nlaGetU32, List.take_of_length_le (length_leBytes _ _).le, ofLE_leBytes_of_lt v.toNat_lt]
  exact UInt32.ofNat_toNat

theorem nlaGetS32_leBytes (v : Int32) : nlaGetS32 (leBytes 4 v.toUInt32.toNat) = v := by
  rw [nlaGetS32, nlaGetU32_leBytes]
  rfl

theorem nlaGetU8_singleton (v : UInt8) : nlaGetU8 [v] = v := by
  simp [nlaGetU8, ofLE]

/-! ### Requests about rules -/

/-- Attributes that any request may carry besides its name. -/
structure Accompanies (rest : List Attr) : Prop where
  encodable : ∀ a ∈ rest, Encodable a
  valid : ∀ a ∈ rest, passes rkxAMax rkxGenlPolicy a = true
  others : ∀ a ∈ rest, attrNumber a.1 ≠ rkxAFreeAsyncRpcName

theorem Accompanies.cons {number : ℕ} {payload : List UInt8} {rest : List Attr}
    (h : Accompanies rest) (encodable : Encodable (number, payload))
    (valid : passes rkxAMax rkxGenlPolicy (number, payload) = true)
    (other : attrNumber number ≠ rkxAFreeAsyncRpcName) :
    Accompanies ((number, payload) :: rest) where
  encodable := List.forall_mem_cons.mpr ⟨encodable, h.encodable⟩
  valid := List.forall_mem_cons.mpr ⟨valid, h.valid⟩
  others := List.forall_mem_cons.mpr ⟨other, h.others⟩

theorem accompanies_nil : Accompanies [] :=
  ⟨List.forall_mem_nil _, List.forall_mem_nil _, List.forall_mem_nil _⟩

/-- Both requests carry a transaction code. -/
theorem Accompanies.code {rest : List Attr} (h : Accompanies rest) (v : ℕ) :
    Accompanies ((rkxAFreeAsyncCode, leBytes 4 v) :: rest) :=
  h.cons (encodable_scalar (by decide) (length_leBytes _ _).le) (passes_s32 v) (by decide)

/-- A request that starts with a name, once it is built: a short name reaches the
handler with the other attributes, a long one changes nothing and is not accepted. -/
theorem receive_stringRequest {family : FamilyId} {env : CallEnv} {cmd : UInt8} {handler : Handler}
    {name : CString} {rest : List Client.PutCall} (op : rkxGenlOps cmd = some handler)
    (short : ∀ call ∈ rest, call.Short) (accompanies : Accompanies (rest.map Client.PutCall.attr))
    (missing : ∀ info : GenlInfo, info.payload rkxAFreeAsyncRpcName = none →
      handler.run jhash hash info env.kmallocOk s = (-einval, s))
    {request : Bool × Client.NlaBuilder}
    (built : request = Client.buildRequest env.stack 256 family.id env.seq cmd
      (.string (UInt16.ofNat Client.rkxAFreeAsyncRpcName) name :: rest))
    (sent : request.1 = true) :
    (name.strlen ≤ 139 → ∃ info : GenlInfo,
      info.payload = lastPayload ((rkxAFreeAsyncRpcName, name.withNul) ::
        rest.map Client.PutCall.attr) ∧
      receiveRequest jhash hash family request.2.message env.kmallocOk s =
        (some (handler.run jhash hash info env.kmallocOk s).1,
          (handler.run jhash hash info env.kmallocOk s).2)) ∧
    (139 < name.strlen →
      (receiveRequest jhash hash family request.2.message env.kmallocOk s).1 ≠ some 0 ∧
      (receiveRequest jhash hash family request.2.message env.kmallocOk s).2 = s) := by
  subst built
  obtain ⟨region, hregion, hlength, hmessage⟩ :=
    (Client.buildRequest_string name (by decide) short).2 sent
  have hregion' : Client.NameRegion rkxAFreeAsyncRpcName name region := hregion
  rw [hmessage]
  constructor
  · intro hshort
    obtain ⟨info, hparse, hpayload⟩ :=
      exists_info_of_short hregion' hshort accompanies.encodable accompanies.valid
    exact ⟨info, hpayload, receiveRequest_of_valid hlength hparse op⟩
  · intro hlong
    rcases parse_of_long hregion' hlong accompanies.encodable accompanies.valid accompanies.others
      with hnone | ⟨info, hparse, hname⟩
    · have hreceive : receiveRequest jhash hash family (requestBytes family env.seq.toNat cmd
          Client.rkxGenlVersion (region ++ encodeAttrs (rest.map Client.PutCall.attr)))
          env.kmallocOk s = (none, s) := receiveRequest_of_invalid hlength hnone
      rw [hreceive]
      exact ⟨by simp, rfl⟩
    · have hreceive : receiveRequest jhash hash family (requestBytes family env.seq.toNat cmd
          Client.rkxGenlVersion (region ++ encodeAttrs (rest.map Client.PutCall.attr)))
          env.kmallocOk s = (some (-einval), s) := by
        rw [receiveRequest_of_valid hlength hparse op, missing info hname]
      rw [hreceive]
      exact ⟨by simp [einval], rfl⟩

/-- The checks of the client's state and of the code, before anything is built. -/
theorem ConnectedClient.not_refused (client : ConnectedClient) {code : Int32}
    (hcode : ¬ code < -1) : ¬ (client.family.id = 0 ∨ client.gFd < 0 ∨ code < -1) := by
  rintro (hid | hfd | hlow)
  · exact client.id_ne_zero hid
  · exact client.opened hfd
  · exact hcode hlow

theorem CallEnv.not_refused {env : CallEnv} {name : CString} (nonempty : name.bytes ≠ [])
    (socket : env.socketOk = true) : ¬ (name.bytes = [] ∨ env.socketOk = false) := by
  rintro (hempty | hfailed)
  · exact nonempty hempty
  · exact Bool.false_ne_true (hfailed.symm.trans socket)

section Run

variable {client : ConnectedClient} {env : CallEnv} {call : ClientCall}
  {request : Bool × Client.NlaBuilder}

theorem run_of_refused (refused : call.request client env = none) :
    call.run jhash hash client env s = ⟨some false, none, s⟩ := by
  rw [ClientCall.run, refused]

theorem run_of_overruns (requested : call.request client env = some request)
    (overruns : call.overruns client env = true) :
    call.run jhash hash client env s = ⟨none, none, s⟩ := by
  rw [ClientCall.run, requested]
  exact if_pos overruns

theorem run_of_sent (requested : call.request client env = some request)
    (inside : call.overruns client env = false) (sent : request.1 = true) :
    call.run jhash hash client env s =
      ⟨some true, (receiveRequest jhash hash client.family request.2.message env.kmallocOk s).1,
        (receiveRequest jhash hash client.family request.2.message env.kmallocOk s).2⟩ := by
  obtain ⟨ok, b⟩ := request
  obtain rfl : ok = true := sent
  rw [ClientCall.run, requested, inside]
  rfl

theorem run_of_not_built (requested : call.request client env = some request)
    (inside : call.overruns client env = false) (full : request.1 = false) :
    call.run jhash hash client env s = ⟨some false, none, s⟩ := by
  obtain ⟨ok, b⟩ := request
  obtain rfl : ok = false := full
  rw [ClientCall.run, requested, inside]
  rfl

end Run

/-- A call whose request starts with a name. The result of the handler on the
attributes of a short name is a parameter. -/
theorem run_stringCall {client : ConnectedClient} {env : CallEnv} {call : ClientCall} {cmd : UInt8}
    {handler : Handler} {name : CString} {rest : List Client.PutCall} {handled : ℤ × RkxTables}
    (requested : call.request client env = some (Client.buildRequest env.stack 256 client.family.id
      env.seq cmd (.string (UInt16.ofNat Client.rkxAFreeAsyncRpcName) name :: rest)))
    (puts : call.overruns client env = Client.overruns
      (Client.requestStart env.stack 256 client.family.id env.seq cmd)
      (.string (UInt16.ofNat Client.rkxAFreeAsyncRpcName) name :: rest))
    (op : rkxGenlOps cmd = some handler) (short : ∀ c ∈ rest, c.Short)
    (small : (rest.map Client.PutCall.size).sum ≤ 16)
    (accompanies : Accompanies (rest.map Client.PutCall.attr))
    (effect : ∀ info : GenlInfo, info.payload = lastPayload
      ((rkxAFreeAsyncRpcName, name.withNul) :: rest.map Client.PutCall.attr) →
      handler.run jhash hash info env.kmallocOk s = handled)
    (missing : ∀ info : GenlInfo, info.payload rkxAFreeAsyncRpcName = none →
      handler.run jhash hash info env.kmallocOk s = (-einval, s)) :
    let result := call.run jhash hash client env s
    (result.returned = some true ↔ (name.strlen + 1) % 2 ^ 16 < 65529 ∧
      20 + align4 (name.strlen + 5) % 2 ^ 16 + (rest.map Client.PutCall.size).sum ≤ 256) ∧
    (name.strlen ≤ 139 → result.handled = some handled.1 ∧ result.tables = handled.2) ∧
    (139 < name.strlen → result.handled ≠ some 0 ∧ result.tables = s) := by
  intro result
  have hsent := (@Client.buildRequest_string env.stack 256 client.family.id
    (UInt16.ofNat Client.rkxAFreeAsyncRpcName) env.seq cmd name rest (by decide) short).1
  set request := Client.buildRequest env.stack 256 client.family.id env.seq cmd
    (.string (UInt16.ofNat Client.rkxAFreeAsyncRpcName) name :: rest) with hrequest
  have hover : call.overruns client env = true ↔ 65529 ≤ (name.strlen + 1) % 2 ^ 16 := by
    rw [puts]
    exact Client.overruns_string_iff (show 20 + 4 ≤ 256 by decide) (show 256 < 2 ^ 16 - 7 by decide)
      _ name fun c hc => (short c hc).length_payload_lt
  by_cases hwraps : 65529 ≤ (name.strlen + 1) % 2 ^ 16
  · -- the name is far too long, and nothing is sent
    have hresult : result = ⟨none, none, s⟩ := run_of_overruns requested (hover.mpr hwraps)
    rw [hresult]
    exact ⟨iff_of_false nofun fun h => absurd hwraps (not_le.mpr h.1), fun h => by omega,
      fun _ => ⟨nofun, rfl⟩⟩
  have hinside : call.overruns client env = false :=
    Bool.eq_false_iff.mpr fun h => hwraps (hover.mp h)
  rw [not_le] at hwraps
  cases hok : request.1 with
  | true =>
    have hresult : result = _ := run_of_sent requested hinside hok
    obtain ⟨hshort, hlong⟩ := receive_stringRequest op short accompanies missing hrequest hok
    rw [hresult]
    refine ⟨⟨fun _ => ⟨hwraps, hsent.mp hok⟩, fun _ => rfl⟩, fun h => ?_, hlong⟩
    obtain ⟨info, hpayload, hreceive⟩ := hshort h
    rw [effect info hpayload] at hreceive
    simp only [hreceive, and_self]
  | false =>
    have hfull : ¬ 20 + align4 (name.strlen + 5) % 2 ^ 16 +
        (rest.map Client.PutCall.size).sum ≤ 256 := fun h => by
      rw [hsent.mpr h] at hok
      cases hok
    have hresult : result = ⟨some false, none, s⟩ := run_of_not_built requested hinside hok
    rw [hresult]
    refine ⟨iff_of_false nofun fun h => hfull h.2, fun h => ?_, fun _ => ⟨nofun, rfl⟩⟩
    -- a short name always fits
    rw [align4] at hfull
    omega

/-! #### Adding a rule -/

section Add

variable {client : ConnectedClient} {env : CallEnv} {name : CString} {code strategy : Int32}

/-- The attributes of `addFreeAsync` behind the name. -/
abbrev addRest (code strategy : Int32) : List Client.PutCall :=
  [.s32 (UInt16.ofNat Client.rkxAFreeAsyncCode) code,
    .u8 (UInt16.ofNat Client.rkxAFreeAsyncStrategy) strategy.toUInt32.toUInt8]

/-- The same as attributes, with the module's numbers. -/
theorem map_attr_addRest : (addRest code strategy).map Client.PutCall.attr =
    [(rkxAFreeAsyncCode, leBytes 4 code.toUInt32.toNat),
      (rkxAFreeAsyncStrategy, [strategy.toUInt32.toUInt8])] := rfl

theorem accompanies_addRest : Accompanies ((addRest code strategy).map Client.PutCall.attr) := by
  have hstrategy : Accompanies [(rkxAFreeAsyncStrategy, [strategy.toUInt32.toUInt8])] :=
    accompanies_nil.cons (encodable_scalar (by decide) (Nat.le_add_left 1 3)) (passes_u8 _)
      (by decide)
  exact hstrategy.code _

theorem short_addRest : ∀ call ∈ addRest code strategy, call.Short :=
  List.forall_mem_cons.mpr ⟨Client.PutCall.short_of_length_le (length_leBytes _ _).le,
    List.forall_mem_singleton.mpr (Client.PutCall.short_of_length_le (Nat.le_add_left 1 3))⟩

/-- What the handler makes of the attributes `addFreeAsync` sends. -/
theorem run_addFreeAsync_of_payload {info : GenlInfo} {kmallocOk : Bool}
    (payload : info.payload = lastPayload ((rkxAFreeAsyncRpcName, name.withNul) ::
      (addRest code strategy).map Client.PutCall.attr)) :
    let added := rkxAddFreeAsync jhash s.freeAsync (some name) code strategy.toUInt32.toUInt8
      kmallocOk
    Handler.addFreeAsync.run jhash hash info kmallocOk s =
      (added.1, { s with freeAsync := added.2 }) := by
  intro added
  rw [map_attr_addRest] at payload
  have hname : info.payload rkxAFreeAsyncRpcName = some name.withNul := by rw [payload]; rfl
  have hcode : info.payload rkxAFreeAsyncCode = some (leBytes 4 code.toUInt32.toNat) := by
    rw [payload]
    rfl
  have hstrategy : info.payload rkxAFreeAsyncStrategy = some [strategy.toUInt32.toUInt8] := by
    rw [payload]
    rfl
  simp only [Handler.run, rkxGenlAddFreeAsync, hname, hcode, hstrategy, ofArray_withNul,
    nlaGetS32_leBytes, nlaGetU8_singleton]
  rfl

theorem run_addFreeAsync_of_missing {kmallocOk : Bool} (info : GenlInfo)
    (missing : info.payload rkxAFreeAsyncRpcName = none) :
    Handler.addFreeAsync.run jhash hash info kmallocOk s = (-einval, s) := by
  simp only [Handler.run, rkxGenlAddFreeAsync, missing]

theorem request_addFreeAsync (nonempty : name.bytes ≠ []) (hcode : ¬ code < -1)
    (socket : env.socketOk = true) :
    (ClientCall.addFreeAsync (some name) code strategy).request client env =
      some (Client.buildRequest env.stack 256 client.family.id env.seq Client.rkxCAddFreeAsync
        (.string (UInt16.ofNat Client.rkxAFreeAsyncRpcName) name :: addRest code strategy)) := by
  simp only [ClientCall.request, Client.addFreeAsync, if_neg (client.not_refused hcode),
    if_neg (CallEnv.not_refused nonempty socket)]
  rfl

/-- **`addFreeAsync` end to end**, once the client's own checks are passed. It
returns true if the reduced size fits and the copy stays in the buffer; a name of at
most 139 bytes reaches the table with the low byte of the strategy; a longer one changes
nothing and is never accepted. -/
theorem addFreeAsync_spec (nonempty : name.bytes ≠ []) (hcode : ¬ code < -1)
    (socket : env.socketOk = true) :
    let result := (ClientCall.addFreeAsync (some name) code strategy).run jhash hash client env s
    let added := rkxAddFreeAsync jhash s.freeAsync (some name) code strategy.toUInt32.toUInt8
      env.kmallocOk
    (result.returned = some true ↔
      (name.strlen + 1) % 2 ^ 16 < 65529 ∧ align4 (name.strlen + 5) % 2 ^ 16 ≤ 220) ∧
    (name.strlen ≤ 139 →
      result.handled = some added.1 ∧ result.tables = { s with freeAsync := added.2 }) ∧
    (139 < name.strlen → result.handled ≠ some 0 ∧ result.tables = s) := by
  intro result added
  -- eight bytes for each of the two scalars
  have hsizes : ((addRest code strategy).map Client.PutCall.size).sum = 16 := by
    simp [Client.PutCall.size, Client.PutCall.payload, nlaHdrlen, align4]
  obtain ⟨hreturned, hshort, hlong⟩ := run_stringCall (request_addFreeAsync nonempty hcode socket)
    rfl rfl short_addRest hsizes.le accompanies_addRest
    (fun _ payload => run_addFreeAsync_of_payload payload) run_addFreeAsync_of_missing
  rw [hsizes] at hreturned
  exact ⟨hreturned.trans (and_congr_right' (by omega)), hshort, hlong⟩

end Add

/-! #### Deleting a rule -/

section Del

variable {client : ConnectedClient} {env : CallEnv} {name : CString} {code : Int32}

/-- The attribute of `delFreeAsync` behind the name. -/
abbrev delRest (code : Int32) : List Client.PutCall :=
  [.s32 (UInt16.ofNat Client.rkxAFreeAsyncCode) code]

theorem map_attr_delRest : (delRest code).map Client.PutCall.attr =
    [(rkxAFreeAsyncCode, leBytes 4 code.toUInt32.toNat)] := rfl

theorem accompanies_delRest : Accompanies ((delRest code).map Client.PutCall.attr) :=
  accompanies_nil.code _

theorem short_delRest : ∀ call ∈ delRest code, call.Short :=
  List.forall_mem_singleton.mpr (Client.PutCall.short_of_length_le (length_leBytes _ _).le)

/-- What the handler makes of the attributes `delFreeAsync` sends. -/
theorem run_delFreeAsync_of_payload {info : GenlInfo} {kmallocOk : Bool}
    (payload : info.payload = lastPayload ((rkxAFreeAsyncRpcName, name.withNul) ::
      (delRest code).map Client.PutCall.attr)) :
    let deleted := rkxDelFreeAsync jhash s.freeAsync (some name) code
    Handler.delFreeAsync.run jhash hash info kmallocOk s =
      (deleted.1, { s with freeAsync := deleted.2 }) := by
  intro deleted
  rw [map_attr_delRest] at payload
  have hname : info.payload rkxAFreeAsyncRpcName = some name.withNul := by rw [payload]; rfl
  have hcode : info.payload rkxAFreeAsyncCode = some (leBytes 4 code.toUInt32.toNat) := by
    rw [payload]
    rfl
  simp only [Handler.run, rkxGenlDelFreeAsync, hname, hcode, ofArray_withNul, nlaGetS32_leBytes]
  rfl

theorem run_delFreeAsync_of_missing {kmallocOk : Bool} (info : GenlInfo)
    (missing : info.payload rkxAFreeAsyncRpcName = none) :
    Handler.delFreeAsync.run jhash hash info kmallocOk s = (-einval, s) := by
  simp only [Handler.run, rkxGenlDelFreeAsync, missing]

theorem request_delFreeAsync (nonempty : name.bytes ≠ []) (hcode : ¬ code < -1)
    (socket : env.socketOk = true) :
    (ClientCall.delFreeAsync (some name) code).request client env =
      some (Client.buildRequest env.stack 256 client.family.id env.seq Client.rkxCDelFreeAsync
        (.string (UInt16.ofNat Client.rkxAFreeAsyncRpcName) name :: delRest code)) := by
  simp only [ClientCall.request, Client.delFreeAsync, if_neg (client.not_refused hcode),
    if_neg (CallEnv.not_refused nonempty socket)]
  rfl

/-- `delFreeAsync` end to end, likewise. -/
theorem delFreeAsync_spec (nonempty : name.bytes ≠ []) (hcode : ¬ code < -1)
    (socket : env.socketOk = true) :
    let result := (ClientCall.delFreeAsync (some name) code).run jhash hash client env s
    let deleted := rkxDelFreeAsync jhash s.freeAsync (some name) code
    (result.returned = some true ↔
      (name.strlen + 1) % 2 ^ 16 < 65529 ∧ align4 (name.strlen + 5) % 2 ^ 16 ≤ 228) ∧
    (name.strlen ≤ 139 →
      result.handled = some deleted.1 ∧ result.tables = { s with freeAsync := deleted.2 }) ∧
    (139 < name.strlen → result.handled ≠ some 0 ∧ result.tables = s) := by
  intro result deleted
  have hsizes : ((delRest code).map Client.PutCall.size).sum = 8 := by
    simp [Client.PutCall.size, Client.PutCall.payload, nlaHdrlen, align4]
  obtain ⟨hreturned, hshort, hlong⟩ := run_stringCall (request_delFreeAsync nonempty hcode socket)
    rfl rfl short_delRest (by omega) accompanies_delRest
    (fun _ payload => run_delFreeAsync_of_payload payload) run_delFreeAsync_of_missing
  rw [hsizes] at hreturned
  exact ⟨hreturned.trans (and_congr_right' (by omega)), hshort, hlong⟩

end Del

/-! #### User ids -/

section Monitor

variable {env : CallEnv} {family : FamilyId} {cmd : UInt8} {handler : Handler} {uid : Int32}

/-- A request about a user id reaches its handler with that id. -/
theorem receive_monitorRequest (op : rkxGenlOps cmd = some handler) :
    ∃ info : GenlInfo, info.payload rkxAUid = some (leBytes 4 uid.toUInt32.toNat) ∧
      receiveRequest jhash hash family (Client.buildRequest env.stack 128 family.id env.seq cmd
        [.u32 (UInt16.ofNat Client.rkxAUid) uid.toUInt32]).2.message env.kmallocOk s =
        (some (handler.run jhash hash info env.kmallocOk s).1,
          (handler.run jhash hash info env.kmallocOk s).2) := by
  set attrs : List Attr := [(rkxAUid, leBytes 4 uid.toUInt32.toNat)] with hattrs
  have hmessage : (Client.buildRequest env.stack 128 family.id env.seq cmd
      [.u32 (UInt16.ofNat Client.rkxAUid) uid.toUInt32]).2.message =
      requestBytes family env.seq.toNat cmd Client.rkxGenlVersion (encodeAttrs attrs) :=
    Client.buildRequest_short
      (List.forall_mem_singleton.mpr (Client.PutCall.short_of_length_le (length_leBytes _ _).le))
      (by simp [Client.PutCall.size, Client.PutCall.payload, nlaHdrlen, align4])
  have hencodable : ∀ a ∈ attrs, Encodable a :=
    List.forall_mem_singleton.mpr (encodable_scalar (by decide) (length_leBytes _ _).le)
  have hvalid : ∀ a ∈ attrs, passes rkxAMax rkxGenlPolicy a = true :=
    List.forall_mem_singleton.mpr (passes_u32 _)
  obtain ⟨info, hparse, hpayload⟩ := exists_nlaParseStrict hencodable hvalid
  have hlength : 20 + (encodeAttrs attrs).length ≤ 256 := by
    rw [hattrs, encodeAttrs_singleton, length_encodeAttr, length_leBytes]
    decide
  refine ⟨info, by rw [hpayload]; rfl, ?_⟩
  rw [hmessage, receiveRequest_of_valid hlength hparse op]

variable {client : ConnectedClient} {call : ClientCall}

theorem overruns_monitorCall (builder : Client.NlaBuilder) (uid : UInt32) :
    Client.overruns builder [.u32 (UInt16.ofNat Client.rkxAUid) uid] = false :=
  Client.overruns_of_short (List.forall_mem_singleton.mpr (Nat.lt_of_le_of_lt
    (length_leBytes 4 uid.toNat).le (by decide))) builder

/-- A call about a user id that returns true was accepted: its request is always
valid, and its handler has no other answer. -/
theorem monitorCall_accepted (op : rkxGenlOps cmd = some handler)
    (monitors : handler = .monitorNet ∨ handler = .delMonitorNet)
    (requested : call.request client env = (Client.monitorNetRequest cmd client.family.id client.gFd
      env.seq env.stack env.socketOk uid).map fun b => (true, b))
    (inside : call.overruns client env = false)
    (returned : (call.run jhash hash client env s).returned = some true) :
    (call.run jhash hash client env s).handled = some 0 := by
  rw [Client.monitorNetRequest] at requested
  split_ifs at requested with hdown
  · rw [run_of_refused requested] at returned
    cases returned
  · rw [run_of_sent requested inside rfl]
    obtain ⟨info, hpayload, hreceive⟩ := receive_monitorRequest op
    rw [hreceive]
    rcases monitors with rfl | rfl
    · simp only [Handler.run, rkxGenlMonitorNet, hpayload]
    · simp only [Handler.run, rkxGenlDelMonitorNet, hpayload]

end Monitor

/-! ### What addFreeAsync installs -/

/-- Storing a rule changes nothing exactly when it is there already. -/
theorem RuleMap.insert_eq_self_iff {m : RuleMap} {k : RuleKey} {strategy : UInt8} :
    Finmap.insert k strategy m = m ↔ m.lookup k = some strategy := by
  constructor
  · intro h
    rw [← h]
    exact Finmap.lookup_insert m
  · intro h
    refine Finmap.ext_lookup fun k' => ?_
    by_cases hk : k' = k
    · rw [hk, Finmap.lookup_insert, h]
    · exact Finmap.lookup_insert_of_ne m hk

section Installs

variable {client : ConnectedClient} {env : CallEnv} {name : CString} {code strategy : Int32}

/-- A strategy is one of the three as a 32-bit integer. -/
def IsStrategy (strategy : Int32) : Prop := strategy = 1 ∨ strategy = 2 ∨ strategy = 3

instance (strategy : Int32) : Decidable (IsStrategy strategy) := by
  unfold IsStrategy
  infer_instance

theorem valid_of_isStrategy (h : IsStrategy strategy) :
    rkxFreeAsyncStrategyValid strategy.toUInt32.toUInt8 = true := by
  rcases h with rfl | rfl | rfl <;> decide

/-- What the table checks of a name that is not empty. -/
theorem admissible_iff (nonempty : name.bytes ≠ []) {low : UInt8} :
    RuleMap.Admissible name code low ↔
      name.strlen ≤ 139 ∧ ¬ code < -1 ∧ rkxFreeAsyncStrategyValid low = true := by
  have hpos : 0 < name.strlen := List.length_pos_of_ne_nil nonempty
  simp only [RuleMap.Admissible, rkxInterfacetokenBuffSize, Nat.lt_succ_iff]
  exact and_iff_right hpos

/-- The rules a call of `addFreeAsync` asks for. -/
def intendedRules (m : RuleMap) (name : CString) (code strategy : Int32) : RuleMap :=
  if name.strlen ≤ 139 ∧ ¬ code < -1 ∧ IsStrategy strategy then
    Finmap.insert (name, code) strategy.toUInt32.toUInt8 m
  else m

/-- The rules it leaves behind: the strategy is judged by its low byte. -/
theorem contents_addFreeAsync (inv : s.Inv jhash hash) (nonempty : name.bytes ≠ [])
    (socket : env.socketOk = true) (memory : env.kmallocOk = true) :
    ((ClientCall.addFreeAsync (some name) code strategy).run jhash hash client env
      s).tables.freeAsync.contents =
      if name.strlen ≤ 139 ∧ ¬ code < -1 ∧
          rkxFreeAsyncStrategyValid strategy.toUInt32.toUInt8 = true then
        Finmap.insert (name, code) strategy.toUInt32.toUInt8 s.freeAsync.contents
      else s.freeAsync.contents := by
  by_cases hcode : code < -1
  · rw [if_neg fun h => h.2.1 hcode, run_of_refused]
    simp [ClientCall.request, Client.addFreeAsync, hcode]
  · obtain ⟨-, hshort, hlong⟩ := @addFreeAsync_spec jhash hash s client env name code strategy
      nonempty hcode socket
    by_cases hname : name.strlen ≤ 139
    · rw [(hshort hname).2, memory]
      have hadd := congrArg Prod.snd
        (inv.freeAsync.contents_add (some name) code strategy.toUInt32.toUInt8 true)
      refine hadd.trans ?_
      simp only [RuleMap.add, admissible_iff nonempty, or_true, if_true]
      split_ifs <;> rfl
    · rw [(hlong (by omega)).2, if_neg fun h => hname h.1]

/-- **What `addFreeAsync` installs is what it was asked for, unless an invalid
strategy has a valid low byte.** For every connected client, every non-empty name,
every code and strategy and every well formed table, with the datagram delivered and
memory available: the rules afterwards are the old ones with the new one if it is
admissible and the old ones otherwise, if and only if it is not the case that the name
and the code are admissible, the strategy is none of the three, its low byte is one,
and the rule is not there with that byte already. -/
theorem addFreeAsync_installs_iff (jhash : List UInt8 → UInt32) (hash : UInt32 → Fin 64)
    (client : ConnectedClient) (env : CallEnv) (s : RkxTables) (inv : s.Inv jhash hash)
    (name : CString) (nonempty : name.bytes ≠ []) (code strategy : Int32)
    (socket : env.socketOk = true) (memory : env.kmallocOk = true) :
    ((ClientCall.addFreeAsync (some name) code strategy).run jhash hash client env
      s).tables.freeAsync.contents = intendedRules s.freeAsync.contents name code strategy ↔
    ¬ (name.strlen ≤ 139 ∧ ¬ code < -1 ∧ ¬ IsStrategy strategy ∧
      rkxFreeAsyncStrategyValid strategy.toUInt32.toUInt8 = true ∧
      s.freeAsync.contents.lookup (name, code) ≠ some strategy.toUInt32.toUInt8) := by
  rw [contents_addFreeAsync inv nonempty socket memory, intendedRules]
  by_cases hargs : name.strlen ≤ 139 ∧ ¬ code < -1
  · obtain ⟨hname, hcode⟩ := hargs
    by_cases hstrategy : IsStrategy strategy
    · have hvalid := valid_of_isStrategy hstrategy
      simp [hname, hcode, hstrategy, hvalid]
    · by_cases hvalid : rkxFreeAsyncStrategyValid strategy.toUInt32.toUInt8 = true
      · simp [hname, hcode, hstrategy, hvalid, RuleMap.insert_eq_self_iff]
      · simp [hstrategy, hvalid]
  · -- a bad name or code is refused whatever the strategy is
    have hneither (p : Prop) : ¬ (name.strlen ≤ 139 ∧ ¬ code < -1 ∧ p) :=
      fun h => hargs ⟨h.1, h.2.1⟩
    simp only [if_neg (hneither _), true_iff]
    exact hneither _

/-- A client with family 20 and descriptor 3, and a call for which all goes well. -/
def someClient : ConnectedClient := ⟨⟨20, by decide⟩, 3, by decide⟩

def someEnv : CallEnv := ⟨1, fun _ => 0, true, true⟩

def noTables : RkxTables := ⟨rkxInitNetUid, rkxInitFreeAsync⟩

theorem inv_noTables : noTables.Inv jhash hash := RkxTables.inv_init

theorem addFreeAsync_installs_byCode :
    ((ClientCall.addFreeAsync (some RkxFreeAsync.nameA) 0 2).run (fun _ => 0) (fun _ => 0)
      someClient someEnv noTables).tables.freeAsync.contents =
        intendedRules noTables.freeAsync.contents RkxFreeAsync.nameA 0 2 :=
  (addFreeAsync_installs_iff (fun _ => 0) (fun _ => 0) someClient someEnv noTables
    inv_noTables RkxFreeAsync.nameA (by decide) 0 2 rfl rfl).mpr fun h => h.2.2.1 (by decide)

/-- The strategy 257 is none, and asking for it installs the strategy 1. -/
theorem addFreeAsync_installs_truncated_strategy :
    ¬ IsStrategy 257 ∧
    ((ClientCall.addFreeAsync (some RkxFreeAsync.nameA) 0 257).run (fun _ => 0) (fun _ => 0)
      someClient someEnv noTables).tables.freeAsync.contents.lookup (RkxFreeAsync.nameA, 0) =
        some 1 ∧
    noTables.freeAsync.contents.lookup (RkxFreeAsync.nameA, 0) = none := by
  refine ⟨by decide, ?_, ?_⟩
  · have hname : RkxFreeAsync.nameA.bytes ≠ [] := by decide
    rw [contents_addFreeAsync inv_noTables hname rfl rfl, if_pos (by decide)]
    exact Finmap.lookup_insert _
  · exact (congrArg (Finmap.lookup _) RkxFreeAsync.contents_init).trans (Finmap.lookup_empty _)

end Installs

/-! ### What the returned boolean says -/

/-- When a call that returns true was accepted by the kernel: always for user ids;
for rules when the client does not send the request at all, or its frame is overwritten
and it does not return, or the name has at most 139 bytes and, to add one, the low byte
of the strategy is valid and there is memory if it is needed. -/
def ClientCall.Acceptable (env : CallEnv) (s : RkxTables) : ClientCall → Prop
  | .addMonitorNet _ | .delMonitorNet _ => True
  | .addFreeAsync none _ _ | .delFreeAsync none _ => True
  | .addFreeAsync (some name) code strategy =>
    name.bytes = [] ∨ code < -1 ∨ env.socketOk = false ∨
      65529 ≤ (name.strlen + 1) % 2 ^ 16 ∨ 220 < align4 (name.strlen + 5) % 2 ^ 16 ∨
      (name.strlen ≤ 139 ∧ rkxFreeAsyncStrategyValid strategy.toUInt32.toUInt8 = true ∧
        ((name, code) ∈ s.freeAsync.contents ∨ env.kmallocOk = true))
  | .delFreeAsync (some name) code =>
    name.bytes = [] ∨ code < -1 ∨ env.socketOk = false ∨
      65529 ≤ (name.strlen + 1) % 2 ^ 16 ∨ 228 < align4 (name.strlen + 5) % 2 ^ 16 ∨
      name.strlen ≤ 139

section Agrees

variable {client : ConnectedClient} {env : CallEnv} {name : CString} {code strategy : Int32}

/-- When adding a rule returns 0, for the names the client sends. -/
theorem added_eq_zero_iff (inv : s.Inv jhash hash) (nonempty : name.bytes ≠ [])
    (short : name.strlen ≤ 139) (hcode : ¬ code < -1) {low : UInt8} {kmallocOk : Bool} :
    (rkxAddFreeAsync jhash s.freeAsync (some name) code low kmallocOk).1 = 0 ↔
      rkxFreeAsyncStrategyValid low = true ∧
        ((name, code) ∈ s.freeAsync.contents ∨ kmallocOk = true) := by
  have hreturn := congrArg Prod.fst (inv.freeAsync.contents_add (some name) code low kmallocOk)
  simp only [Prod.map_fst, id_eq] at hreturn
  have hadmissible : RuleMap.Admissible name code low ↔ rkxFreeAsyncStrategyValid low = true := by
    rw [admissible_iff nonempty, and_iff_right short, and_iff_right hcode]
  rw [hreturn, RuleMap.add]
  simp only [hadmissible]
  split_ifs with hvalid hroom
  · exact iff_of_true rfl ⟨hvalid, hroom⟩
  · exact iff_of_false (by simp [enomem]) fun h => hroom h.2
  · exact iff_of_false (by simp [einval]) fun h => hvalid h.1

theorem deleted_eq_zero (nonempty : name.bytes ≠ []) (hcode : ¬ code < -1) :
    (rkxDelFreeAsync jhash s.freeAsync (some name) code).1 = 0 := by
  have haccepted : ¬ (name.strlen = 0 ∨ code < -1) := by
    rintro (hzero | hneg)
    · exact nonempty (List.length_eq_zero_iff.mp hzero)
    · exact hcode hneg
  rw [RkxFreeAsync.del_of_accepted haccepted]
  split <;> rfl

/-- A call the client refuses returns false, which agrees with anything. -/
theorem agrees_of_refused {call : ClientCall} (refused : call.request client env = none) :
    (call.run jhash hash client env s).returned = some true →
      (call.run jhash hash client env s).handled = some 0 := by
  rw [run_of_refused refused]
  nofun

/-- When a call about a rule agrees with the kernel: unless it is refused, it returns true
if its name does not wrap and its size is at most `room`, and a short name is accepted under
some condition. -/
theorem ruleCall_agrees_iff {call : ClientCall} {room : ℕ} {accepts : Prop}
    (refused : name.bytes = [] ∨ code < -1 ∨ env.socketOk = false →
      call.request client env = none)
    (built : name.bytes ≠ [] → ¬ code < -1 → env.socketOk = true →
      ((call.run jhash hash client env s).returned = some true ↔
        (name.strlen + 1) % 2 ^ 16 < 65529 ∧ align4 (name.strlen + 5) % 2 ^ 16 ≤ room) ∧
      (name.strlen ≤ 139 → ((call.run jhash hash client env s).handled = some 0 ↔ accepts)) ∧
      (139 < name.strlen → (call.run jhash hash client env s).handled ≠ some 0)) :
    ((call.run jhash hash client env s).returned = some true →
      (call.run jhash hash client env s).handled = some 0) ↔
    name.bytes = [] ∨ code < -1 ∨ env.socketOk = false ∨
      65529 ≤ (name.strlen + 1) % 2 ^ 16 ∨ room < align4 (name.strlen + 5) % 2 ^ 16 ∨
      (name.strlen ≤ 139 ∧ accepts) := by
  by_cases hrefused : name.bytes = [] ∨ code < -1 ∨ env.socketOk = false
  · apply iff_of_true (agrees_of_refused (refused hrefused))
    rcases hrefused with hempty | hlow | hsocket
    · exact Or.inl hempty
    · exact Or.inr (Or.inl hlow)
    · exact Or.inr (Or.inr (Or.inl hsocket))
  · simp only [not_or, Bool.not_eq_false] at hrefused
    obtain ⟨hnonempty, hcode, hsocket⟩ := hrefused
    obtain ⟨hreturned, hshort, hlong⟩ := built hnonempty hcode hsocket
    rw [hreturned]
    simp only [hnonempty, hcode, hsocket, Bool.true_eq_false, false_or]
    by_cases hname : name.strlen ≤ 139
    · rw [hshort hname, imp_iff_not_or, not_and_or, not_lt, not_le, or_assoc, and_iff_right hname]
    · -- nothing accepts a long name, so the request must not have been sent
      have hnot := hlong (not_le.mp hname)
      simp only [hnot, hname, false_and, or_false, imp_false, not_and_or, not_lt, not_le]

theorem addFreeAsync_agrees_iff (inv : s.Inv jhash hash) :
    (((ClientCall.addFreeAsync (some name) code strategy).run jhash hash client env s).returned =
        some true →
      ((ClientCall.addFreeAsync (some name) code strategy).run jhash hash client env s).handled =
        some 0) ↔ (ClientCall.addFreeAsync (some name) code strategy).Acceptable env s := by
  apply ruleCall_agrees_iff
  · rintro (h | h | h) <;> simp [ClientCall.request, Client.addFreeAsync, h]
  · intro hnonempty hcode hsocket
    obtain ⟨hreturned, hshort, hlong⟩ := @addFreeAsync_spec jhash hash s client env name code
      strategy hnonempty hcode hsocket
    refine ⟨hreturned, fun hname => ?_, fun hname => (hlong hname).1⟩
    rw [(hshort hname).1, Option.some.injEq, added_eq_zero_iff inv hnonempty hname hcode]

theorem delFreeAsync_agrees_iff :
    (((ClientCall.delFreeAsync (some name) code).run jhash hash client env s).returned =
        some true →
      ((ClientCall.delFreeAsync (some name) code).run jhash hash client env s).handled = some 0) ↔
      (ClientCall.delFreeAsync (some name) code).Acceptable env s := by
  rw [ClientCall.Acceptable, ← and_true (name.strlen ≤ 139)]
  apply ruleCall_agrees_iff
  · rintro (h | h | h) <;> simp [ClientCall.request, Client.delFreeAsync, h]
  · intro hnonempty hcode hsocket
    obtain ⟨hreturned, hshort, hlong⟩ := @delFreeAsync_spec jhash hash s client env name code
      hnonempty hcode hsocket
    refine ⟨hreturned, fun hname => ?_, fun hname => (hlong hname).1⟩
    rw [(hshort hname).1, deleted_eq_zero hnonempty hcode]
    exact iff_of_true rfl trivial

/-- **When true means accepted.** For every connected client, every call with any
arguments and every well formed state of the module: if the call returns true then
its handler ran and returned 0, if and only if the call is acceptable, which is a
condition on its arguments, the rules before it and the allocation. A call that
overwrites its own frame returns nothing. -/
theorem returned_true_iff_acceptable (jhash : List UInt8 → UInt32) (hash : UInt32 → Fin 64)
    (client : ConnectedClient) (env : CallEnv) (s : RkxTables) (inv : s.Inv jhash hash)
    (call : ClientCall) :
    ((call.run jhash hash client env s).returned = some true →
      (call.run jhash hash client env s).handled = some 0) ↔ call.Acceptable env s := by
  cases call with
  | addMonitorNet uid =>
    exact iff_of_true (monitorCall_accepted rfl (Or.inl rfl) rfl (overruns_monitorCall _ _)) trivial
  | delMonitorNet uid =>
    exact iff_of_true (monitorCall_accepted rfl (Or.inr rfl) rfl (overruns_monitorCall _ _)) trivial
  | addFreeAsync rpcName code strategy =>
    cases rpcName with
    | none =>
      refine iff_of_true (agrees_of_refused ?_) trivial
      simp only [ClientCall.request, Client.addFreeAsync, ite_self]
    | some name => exact addFreeAsync_agrees_iff inv
  | delFreeAsync rpcName code =>
    cases rpcName with
    | none =>
      refine iff_of_true (agrees_of_refused ?_) trivial
      simp only [ClientCall.request, Client.delFreeAsync, ite_self]
    | some name => exact delFreeAsync_agrees_iff

theorem returned_true_accepts_uid :
    ((ClientCall.addMonitorNet 10000).run (fun _ => 0) (fun _ => 0) someClient someEnv
        noTables).returned = some true ∧
      ((ClientCall.addMonitorNet 10000).run (fun _ => 0) (fun _ => 0) someClient someEnv
        noTables).handled = some 0 := by
  have hreturned : ((ClientCall.addMonitorNet 10000).run (fun _ => 0) (fun _ => 0) someClient
      someEnv noTables).returned = some true := rfl
  have hagrees := (returned_true_iff_acceptable (fun _ => 0) (fun _ => 0) someClient someEnv
    noTables inv_noTables (.addMonitorNet 10000)).mpr trivial
  exact ⟨hreturned, hagrees hreturned⟩

/-- The strategy 0 is none. The client returns true, and the handler returns
`-EINVAL`. -/
theorem returned_true_of_refused_strategy :
    let result := (ClientCall.addFreeAsync (some RkxFreeAsync.nameA) 0 0).run (fun _ => 0)
      (fun _ => 0) someClient someEnv noTables
    result.returned = some true ∧ result.handled = some (-einval) := by
  have hname : RkxFreeAsync.nameA.bytes ≠ [] := by decide
  obtain ⟨hreturned, hshort, -⟩ := @addFreeAsync_spec (fun _ => 0) (fun _ => 0) noTables someClient
    someEnv RkxFreeAsync.nameA 0 0 hname (by decide) rfl
  refine ⟨hreturned.mpr (by decide), (hshort (by decide)).1.trans ?_⟩
  rw [RkxFreeAsync.add_of_not_admissible (by decide)]

end Agrees

end ReKernelX
