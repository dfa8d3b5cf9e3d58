import ReKernelX.Foundation.Netlink
import ReKernelX.Client.Uapi

/-!
# Building requests

`NlaBuilder` writes a generic netlink request into a caller's buffer. The size
of an attribute passes through `uint16_t` three times before it is compared
with the room left: the payload length, the length with its header, and the
padded length. The copy then uses the narrowed payload length.

The memory below is all of the memory from the start of the buffer on, so a
write past the capacity is visible. The builder does what it should at a put
exactly when the padded size fits, or does not fit after reduction modulo
`2 ^ 16` either; a put whose size wraps to something that fits is accepted, and
the copy may leave the buffer.
-/

set_option autoImplicit false

namespace ReKernelX.Client

open Bytes Netlink

/-- A write: the offset from the start of the buffer and the bytes written. -/
abbrev Write := ℕ × List UInt8

/-- Memory after a write. -/
def Write.apply (w : Write) (mem : ℕ → UInt8) : ℕ → UInt8 := fun i =>
  if w.1 ≤ i ∧ i < w.1 + w.2.length then w.2.getD (i - w.1) 0 else mem i

/-- The bytes a write touches. -/
def Write.Touches (w : Write) (i : ℕ) : Prop := w.1 ≤ i ∧ i < w.1 + w.2.length

/-- A write leaves every other byte alone. -/
theorem Write.apply_of_not_touches {w : Write} {i : ℕ} (h : ¬ w.Touches i) (mem : ℕ → UInt8) :
    w.apply mem i = mem i := if_neg h

theorem Write.foldl_apply_of_not_touches {writes : List Write} {i : ℕ}
    (h : ∀ w ∈ writes, ¬ w.Touches i) (mem : ℕ → UInt8) :
    writes.foldl (fun mem w => w.apply mem) mem i = mem i := by
  induction writes generalizing mem with
  | nil => rfl
  | cons w rest ih =>
    rw [List.foldl_cons, ih fun v hv => h v (List.mem_cons_of_mem w hv),
      apply_of_not_touches (h w List.mem_cons_self)]

/-- `class NlaBuilder`. `buf` is the memory from `buf_` on; the first `cap` bytes
of it are the buffer. -/
structure NlaBuilder where
  buf : ℕ → UInt8
  cap : ℕ
  len : ℕ

namespace NlaBuilder

/-- The constructor clears the headers and starts behind them. -/
def new (buf : ℕ → UInt8) (cap : ℕ) : NlaBuilder where
  buf := Write.apply (0, List.replicate (nlmsgHdrlen + genlHdrlen) 0) buf
  cap := cap
  len := nlmsgHdrlen + genlHdrlen

/-- `putGenlHeader` -/
def putGenlHeader (b : NlaBuilder) (family : UInt16) (seq : UInt32) (cmd version : UInt8) :
    NlaBuilder :=
  let nlmsghdr := leBytes 4 0 ++ leBytes 2 family.toNat ++ leBytes 2 nlmFRequest ++
    leBytes 4 seq.toNat ++ leBytes 4 0
  let genlmsghdr := [cmd, version] ++ leBytes 2 0
  { b with buf := Write.apply (0, nlmsghdr ++ genlmsghdr) b.buf }

/-- `attr_len` of `put` -/
def attrLen (datalen : UInt16) : UInt16 := UInt16.ofNat nlaHdrlen + datalen

/-- `aligned` of `put` -/
def aligned (datalen : UInt16) : UInt16 := UInt16.ofNat (align4 (attrLen datalen).toNat)

/-- The writes `put` makes once it has decided that the attribute fits: the
header, the payload, and the padding. -/
def putWrites (len : ℕ) (type : UInt16) (data : List UInt8) (datalen : UInt16) : List Write :=
  -- the payload is copied by its own length, whatever became of the attribute's
  [(len, leBytes 2 (attrLen datalen).toNat ++ leBytes 2 type.toNat),
    (len + nlaHdrlen, data.take datalen.toNat),
    (len + (attrLen datalen).toNat,
      List.replicate ((aligned datalen).toNat - (attrLen datalen).toNat) 0)]

/-- `put` -/
def put (b : NlaBuilder) (type : UInt16) (data : List UInt8) (datalen : UInt16) :
    Bool × NlaBuilder :=
  -- the only comparison with the capacity, and it sees the narrowed size
  if b.cap < b.len + (aligned datalen).toNat then (false, b)
  else
    (true, { b with
      buf := (putWrites b.len type data datalen).foldl (fun mem w => w.apply mem) b.buf
      len := b.len + (aligned datalen).toNat })

/-- `putU32` -/
def putU32 (b : NlaBuilder) (type : UInt16) (v : UInt32) : Bool × NlaBuilder :=
  b.put type (leBytes 4 v.toNat) 4

/-- `putS32` -/
def putS32 (b : NlaBuilder) (type : UInt16) (v : Int32) : Bool × NlaBuilder :=
  b.put type (leBytes 4 v.toUInt32.toNat) 4

/-- `putU8` -/
def putU8 (b : NlaBuilder) (type : UInt16) (v : UInt8) : Bool × NlaBuilder :=
  b.put type [v] 1

/-- `putString` -/
def putString (b : NlaBuilder) (type : UInt16) (s : CString) : Bool × NlaBuilder :=
  b.put type s.withNul (UInt16.ofNat (s.strlen + 1))

/-- `finish` -/
def finish (b : NlaBuilder) : NlaBuilder :=
  { b with buf := Write.apply (0, leBytes 4 b.len) b.buf }

end NlaBuilder

/-- A call of one of the four puts. -/
inductive PutCall
  | u8 (type : UInt16) (v : UInt8)
  | u32 (type : UInt16) (v : UInt32)
  | s32 (type : UInt16) (v : Int32)
  | string (type : UInt16) (s : CString)

namespace PutCall

/-- The attribute type of a call. -/
def type : PutCall → UInt16
  | .u8 type _ | .u32 type _ | .s32 type _ | .string type _ => type

/-- The payload of a call in full. -/
def payload : PutCall → List UInt8
  | .u8 _ v => [v]
  | .u32 _ v => leBytes 4 v.toNat
  | .s32 _ v => leBytes 4 v.toUInt32.toNat
  | .string _ s => s.withNul

/-- The payload length as `put` receives it. -/
def datalen (call : PutCall) : UInt16 := UInt16.ofNat call.payload.length

/-- The size of the attribute, padded. -/
def size (call : PutCall) : ℕ := align4 (nlaHdrlen + call.payload.length)

/-- Make the call. -/
def run (call : PutCall) (b : NlaBuilder) : Bool × NlaBuilder :=
  match call with
  | .u8 type v => b.putU8 type v
  | .u32 type v => b.putU32 type v
  | .s32 type v => b.putS32 type v
  | .string type s => b.putString type s

/-- Every call is `put` with its payload and the narrowed length of it. -/
theorem run_eq_put (call : PutCall) (b : NlaBuilder) :
    call.run b = b.put call.type call.payload call.datalen := by
  cases call with
  | u8 type v => rfl
  | u32 type v => rfl
  | s32 type v => rfl
  | string type s =>
    rw [datalen, payload, CString.length_withNul]
    rfl

theorem size_lt_of_length_payload_le {call : PutCall} (h : call.payload.length ≤ 4) :
    call.size < 2 ^ 16 := by
  have hpad := align4_lt (nlaHdrlen + call.payload.length)
  rw [size]
  rw [nlaHdrlen] at hpad ⊢
  omega

end PutCall

/-! ### What a put should do, and when it does -/

/-- A put that keeps to its buffer: it succeeds exactly when the whole attribute
fits, writes only below the capacity, keeps the length there, and on failure
changes nothing. -/
structure PutOk (b : NlaBuilder) (call : PutCall) : Prop where
  succeeds : (call.run b).1 = true ↔ b.len + call.size ≤ b.cap
  inside : (call.run b).1 = true →
    ∀ w ∈ NlaBuilder.putWrites b.len call.type call.payload call.datalen,
      ∀ i, w.Touches i → i < b.cap
  length : (call.run b).2.len ≤ b.cap
  unchanged : (call.run b).1 = false → (call.run b).2 = b

/-- The size fits, or it does not fit after reduction to sixteen bits either. -/
def Unwrapped (b : NlaBuilder) (call : PutCall) : Prop :=
  b.len + call.size ≤ b.cap ∨ b.cap < b.len + call.size % 2 ^ 16

section Put

variable {b : NlaBuilder} {call : PutCall}

theorem toNat_attrLen (call : PutCall) :
    (NlaBuilder.attrLen call.datalen).toNat = (nlaHdrlen + call.payload.length) % 2 ^ 16 := by
  simp [NlaBuilder.attrLen, PutCall.datalen]

/-- Padding commutes with the reduction to sixteen bits. -/
theorem toNat_aligned (call : PutCall) :
    (NlaBuilder.aligned call.datalen).toNat = call.size % 2 ^ 16 := by
  rw [NlaBuilder.aligned, toNat_attrLen, UInt16.toNat_ofNat', PutCall.size]
  simp only [align4]
  omega

/-- What a call does, in terms of the size it should have had. -/
theorem run_cases (b : NlaBuilder) (call : PutCall) :
    b.cap < b.len + call.size % 2 ^ 16 ∧ call.run b = (false, b) ∨
    b.len + call.size % 2 ^ 16 ≤ b.cap ∧ (call.run b).1 = true ∧
      (call.run b).2.len = b.len + call.size % 2 ^ 16 ∧ (call.run b).2.cap = b.cap := by
  rw [PutCall.run_eq_put, NlaBuilder.put, toNat_aligned]
  split_ifs with hfull
  · exact Or.inl ⟨hfull, rfl⟩
  · exact Or.inr ⟨Nat.le_of_not_lt hfull, rfl, rfl, rfl⟩

/-- A call that succeeds found room for its reduced size. -/
theorem PutCall.le_of_run (accepted : (call.run b).1 = true) :
    b.len + call.size % 2 ^ 16 ≤ b.cap := by
  rcases run_cases b call with ⟨-, hfull⟩ | ⟨hfits, -⟩
  · rw [hfull] at accepted
    cases accepted
  · exact hfits

/-- No call moves the length past the capacity. -/
theorem len_run_le (h : b.len ≤ b.cap) :
    (call.run b).2.len ≤ (call.run b).2.cap ∧ (call.run b).2.cap = b.cap := by
  rcases run_cases b call with ⟨-, hfull⟩ | ⟨hfits, -, hlen, hcap⟩
  · rw [hfull]
    exact ⟨h, rfl⟩
  · rw [hlen, hcap]
    exact ⟨hfits, rfl⟩

/-- When the whole attribute fits, so does everything written. -/
theorem putWrites_inside (fits : b.len + call.size ≤ b.cap) :
    ∀ w ∈ NlaBuilder.putWrites b.len call.type call.payload call.datalen,
      ∀ i, w.Touches i → i < b.cap := by
  have hsize : nlaHdrlen + call.payload.length ≤ call.size := le_align4 _
  have hattr := toNat_attrLen call
  have haligned := toNat_aligned call
  have hhdr : nlaHdrlen = 4 := rfl
  intro w hw i htouch
  simp only [NlaBuilder.putWrites, List.mem_cons, List.not_mem_nil, or_false] at hw
  -- header, payload and padding end at or before the padded size
  rcases hw with rfl | rfl | rfl
  · have hi := htouch.2
    simp only [List.length_append, length_leBytes] at hi
    omega
  · have hi := htouch.2
    simp only [List.length_take] at hi
    omega
  · have hi := htouch.2
    have hwrap : call.size % 2 ^ 16 ≤ call.size := Nat.mod_le _ _
    simp only [List.length_replicate] at hi
    omega

/-- **One put.** It keeps to its buffer exactly when its size does not wrap to
one that fits. -/
theorem putOk_iff (h : b.len ≤ b.cap) : PutOk b call ↔ Unwrapped b call := by
  constructor
  · intro ok
    rcases run_cases b call with ⟨hfull, -⟩ | ⟨-, htrue, -, -⟩
    · exact Or.inr hfull
    · exact Or.inl (ok.succeeds.mp htrue)
  · intro unwrapped
    have hwrap : call.size % 2 ^ 16 ≤ call.size := Nat.mod_le _ _
    have hlength := @len_run_le b call h
    refine ⟨⟨fun htrue => ?_, fun hfits => ?_⟩, fun htrue => ?_, hlength.2 ▸ hlength.1,
      fun hfalse => ?_⟩
    -- a put that was accepted fits as reduced, hence in full; one that was refused does neither
    all_goals rcases run_cases b call with ⟨hfull, hrun⟩ | ⟨hfits', hrun, -, -⟩
    · rw [hrun] at htrue
      cases htrue
    · exact unwrapped.resolve_right (by omega)
    · omega
    · exact hrun
    · rw [hrun] at htrue
      cases htrue
    · exact putWrites_inside (unwrapped.resolve_right (by omega))
    · rw [hrun]
    · rw [hrun] at hfalse
      cases hfalse

end Put

/-! ### Sequences of puts -/

/-- A property of each call of a sequence in the state the earlier calls left. -/
def Each (P : NlaBuilder → PutCall → Prop) : NlaBuilder → List PutCall → Prop
  | _, [] => True
  | b, call :: rest => P b call ∧ Each P (call.run b).2 rest

/-- Every put of a sequence keeps to the buffer exactly when none wraps. -/
theorem each_putOk_iff {b : NlaBuilder} (h : b.len ≤ b.cap) (calls : List PutCall) :
    Each PutOk b calls ↔ Each Unwrapped b calls := by
  induction calls generalizing b with
  | nil => exact Iff.rfl
  | cons call rest ih => exact and_congr (putOk_iff h) (ih (len_run_le h).1)

theorem unwrapped_of_small {b : NlaBuilder} {call : PutCall} (small : call.size < 2 ^ 16) :
    Unwrapped b call := by
  rw [Unwrapped, Nat.mod_eq_of_lt small]
  omega

/-! ### The requests of the client -/

/-- Puts joined by `&&`: whether all succeeded, and the builder after the last
one made. -/
def putAll (b : NlaBuilder) : List PutCall → Bool × NlaBuilder
  | [] => (true, b)
  | call :: rest => if (call.run b).1 then putAll (call.run b).2 rest else call.run b

/-- The puts that are made before `&&` stops. -/
def executed (b : NlaBuilder) : List PutCall → List PutCall
  | [] => []
  | call :: rest => if (call.run b).1 then call :: executed (call.run b).2 rest else [call]

/-! ### Writes behind the buffer -/

/-- Some byte of a write is past the capacity. -/
def Write.leaves (w : Write) (cap : ℕ) : Bool := decide (w.2 ≠ [] ∧ cap < w.1 + w.2.length)

/-- An accepted put writes past the capacity. -/
def PutCall.overruns (call : PutCall) (b : NlaBuilder) : Bool :=
  (call.run b).1 &&
    (NlaBuilder.putWrites b.len call.type call.payload call.datalen).any fun w => w.leaves b.cap

/-- One of the puts joined by `&&` writes past the capacity. -/
def overruns (b : NlaBuilder) : List PutCall → Bool
  | [] => false
  | call :: rest => call.overruns b || ((call.run b).1 && overruns (call.run b).2 rest)

section Overrun

variable {b : NlaBuilder} {call : PutCall}

/-- Only a payload whose narrowed length wraps when the header is added, or when the sum is
padded, is copied past the capacity. -/
theorem PutCall.le_of_overruns (h : call.overruns b = true) :
    65529 ≤ call.payload.length % 2 ^ 16 := by
  by_contra hshort
  obtain ⟨haccepted, hany⟩ := Bool.and_eq_true_iff.mp h
  obtain ⟨w, hw, hleaves⟩ := List.any_eq_true.mp hany
  obtain ⟨hsome, hend⟩ := of_decide_eq_true hleaves
  have hfits := PutCall.le_of_run haccepted
  have hattr := toNat_attrLen call
  have haligned := toNat_aligned call
  have hdatalen : call.datalen.toNat = call.payload.length % 2 ^ 16 := UInt16.toNat_ofNat'
  rw [PutCall.size, nlaHdrlen, align4] at hfits haligned
  rw [nlaHdrlen] at hattr
  simp only [NlaBuilder.putWrites, nlaHdrlen, List.mem_cons, List.not_mem_nil, or_false] at hw
  rcases hw with rfl | rfl | rfl
  · simp only [List.length_append, length_leBytes] at hend
    omega
  · simp only [List.length_take] at hend
    omega
  · simp only [List.length_replicate] at hend
    omega

/-- In a small buffer every such payload is. -/
theorem PutCall.overruns_of_le (room : b.len + 4 ≤ b.cap) (narrow : b.cap < 2 ^ 16 - 7)
    (long : 65529 ≤ call.payload.length % 2 ^ 16) : call.overruns b = true := by
  have hdatalen : call.datalen.toNat = call.payload.length % 2 ^ 16 := UInt16.toNat_ofNat'
  have haccepted : (call.run b).1 = true := by
    rcases run_cases b call with ⟨hfull, -⟩ | ⟨-, htrue, -⟩
    · rw [PutCall.size, nlaHdrlen, align4] at hfull
      omega
    · exact htrue
  rw [PutCall.overruns, haccepted, Bool.true_and, List.any_eq_true]
  refine ⟨_, List.mem_cons_of_mem _ List.mem_cons_self, decide_eq_true ⟨?_, ?_⟩⟩
  · rw [← List.length_pos_iff, List.length_take]
    omega
  · rw [List.length_take, nlaHdrlen]
    omega

/-- Short payloads are never copied past the capacity, however many of them are put. -/
theorem overruns_of_short {calls : List PutCall}
    (short : ∀ call ∈ calls, call.payload.length < 65529) (b : NlaBuilder) :
    overruns b calls = false := by
  induction calls generalizing b with
  | nil => rfl
  | cons call rest ih =>
    obtain ⟨hcall, hrest⟩ := List.forall_mem_cons.mp short
    have hfirst : call.overruns b = false := by
      rw [Bool.eq_false_iff]
      intro hover
      have hlong := PutCall.le_of_overruns hover
      omega
    rw [overruns, hfirst, ih hrest, Bool.and_false, Bool.or_false]

/-- A request that puts one string and then short attributes overruns its buffer exactly when
the narrowed length of the string is one of the seven that wrap. -/
theorem overruns_string_iff (room : b.len + 4 ≤ b.cap) (narrow : b.cap < 2 ^ 16 - 7)
    (type : UInt16) (s : CString) {rest : List PutCall}
    (short : ∀ call ∈ rest, call.payload.length < 65529) :
    overruns b (.string type s :: rest) = true ↔ 65529 ≤ (s.strlen + 1) % 2 ^ 16 := by
  have hlength : (PutCall.string type s).payload.length = s.strlen + 1 := s.length_withNul
  rw [overruns, overruns_of_short short, Bool.and_false, Bool.or_false, ← hlength]
  exact ⟨PutCall.le_of_overruns, PutCall.overruns_of_le room narrow⟩

end Overrun

/-- The builder of a request with its headers in place. -/
def requestStart (stack : ℕ → UInt8) (cap : ℕ) (family : UInt16) (seq : UInt32) (cmd : UInt8) :
    NlaBuilder :=
  (NlaBuilder.new stack cap).putGenlHeader family seq cmd rkxGenlVersion

/-- A request: whether it was built, and the builder that holds it. -/
def buildRequest (stack : ℕ → UInt8) (cap : ℕ) (family : UInt16) (seq : UInt32) (cmd : UInt8)
    (puts : List PutCall) : Bool × NlaBuilder :=
  let built := putAll (requestStart stack cap family seq cmd) puts
  (built.1, built.2.finish)

/-- The attributes of `addFreeAsync`. -/
def addFreeAsyncPuts (rpcName : CString) (code strategy : Int32) : List PutCall :=
  [.string (UInt16.ofNat rkxAFreeAsyncRpcName) rpcName, .s32 (UInt16.ofNat rkxAFreeAsyncCode) code,
    .u8 (UInt16.ofNat rkxAFreeAsyncStrategy) strategy.toUInt32.toUInt8]

/-- The attributes of `delFreeAsync`. -/
def delFreeAsyncPuts (rpcName : CString) (code : Int32) : List PutCall :=
  [.string (UInt16.ofNat rkxAFreeAsyncRpcName) rpcName, .s32 (UInt16.ofNat rkxAFreeAsyncCode) code]

/-- The request of `addFreeAsync` for the globals it loads, or `none` when it
returns before it builds one. A null string or pointer is `none`. -/
def addFreeAsync (gFamilyId : UInt16) (gFd : Int32) (seq : UInt32) (stack : ℕ → UInt8)
    (socketOk : Bool) (rpcName : Option CString) (code strategy : Int32) :
    Option (Bool × NlaBuilder) :=
  if gFamilyId = 0 ∨ gFd < 0 ∨ code < -1 then none
  else
    match rpcName with
    | none => none
    | some rpcName =>
      if rpcName.bytes = [] ∨ socketOk = false then none
      else
        some (buildRequest stack 256 gFamilyId seq rkxCAddFreeAsync
          (addFreeAsyncPuts rpcName code strategy))

/-- The request of `delFreeAsync`, likewise. -/
def delFreeAsync (gFamilyId : UInt16) (gFd : Int32) (seq : UInt32) (stack : ℕ → UInt8)
    (socketOk : Bool) (rpcName : Option CString) (code : Int32) : Option (Bool × NlaBuilder) :=
  if gFamilyId = 0 ∨ gFd < 0 ∨ code < -1 then none
  else
    match rpcName with
    | none => none
    | some rpcName =>
      if rpcName.bytes = [] ∨ socketOk = false then none
      else
        some (buildRequest stack 256 gFamilyId seq rkxCDelFreeAsync
          (delFreeAsyncPuts rpcName code))

/-- The request of `addMonitorNet` and `delMonitorNet`; the result of the put is
not looked at. -/
def monitorNetRequest (cmd : UInt8) (gFamilyId : UInt16) (gFd : Int32) (seq : UInt32)
    (stack : ℕ → UInt8) (socketOk : Bool) (uid : Int32) : Option NlaBuilder :=
  if gFamilyId = 0 ∨ gFd < 0 ∨ socketOk = false then none
  else
    some (buildRequest stack 128 gFamilyId seq cmd
      [.u32 (UInt16.ofNat rkxAUid) uid.toUInt32]).2

/-- `addMonitorNet` -/
def addMonitorNet : UInt16 → Int32 → UInt32 → (ℕ → UInt8) → Bool → Int32 → Option NlaBuilder :=
  monitorNetRequest rkxCAddMonitorNet

/-- `delMonitorNet` -/
def delMonitorNet : UInt16 → Int32 → UInt32 → (ℕ → UInt8) → Bool → Int32 → Option NlaBuilder :=
  monitorNetRequest rkxCDelMonitorNet

/-- Small attributes never wrap, however many of them are put. -/
theorem each_unwrapped_executed {puts : List PutCall} (small : ∀ call ∈ puts, call.size < 2 ^ 16)
    (b : NlaBuilder) : Each Unwrapped b (executed b puts) := by
  induction puts generalizing b with
  | nil => trivial
  | cons call rest ih =>
    have hcall : Unwrapped b call := unwrapped_of_small (small call List.mem_cons_self)
    rw [executed]
    split_ifs
    · exact ⟨hcall, ih (fun c hc => small c (List.mem_cons_of_mem call hc)) _⟩
    · exact ⟨hcall, trivial⟩

/-- A request that puts one string and then small attributes keeps to its buffer
exactly when the string does not wrap. -/
theorem each_putOk_string_iff {b : NlaBuilder} (h : b.len ≤ b.cap) (type : UInt16) (s : CString)
    {rest : List PutCall} (small : ∀ call ∈ rest, call.size < 2 ^ 16) :
    Each PutOk b (executed b (.string type s :: rest)) ↔ Unwrapped b (.string type s) := by
  rw [each_putOk_iff h, executed]
  split_ifs
  · exact and_iff_left (each_unwrapped_executed small _)
  · exact and_iff_left trivial

/-- The attributes behind the name in `addFreeAsync`. -/
theorem small_of_mem_addFreeAsyncRest {codeType strategyType : UInt16} {code : Int32}
    {strategy : UInt8} :
    ∀ call ∈ [PutCall.s32 codeType code, .u8 strategyType strategy], call.size < 2 ^ 16 := by
  intro call hcall
  simp only [List.mem_cons, List.not_mem_nil, or_false] at hcall
  rcases hcall with rfl | rfl <;>
    exact PutCall.size_lt_of_length_payload_le (by simp [PutCall.payload])

theorem small_of_mem_delFreeAsyncRest {codeType : UInt16} {code : Int32} :
    ∀ call ∈ [PutCall.s32 codeType code], call.size < 2 ^ 16 := by
  intro call hcall
  rw [List.mem_singleton.mp hcall]
  exact PutCall.size_lt_of_length_payload_le (by simp [PutCall.payload])

theorem len_requestStart_le (stack : ℕ → UInt8) (cap : ℕ) (room : 20 ≤ cap) (family : UInt16)
    (seq : UInt32) (cmd : UInt8) :
    (requestStart stack cap family seq cmd).len ≤ (requestStart stack cap family seq cmd).cap :=
  room

/-- **Requests stay inside their buffer unless a size wraps to one that fits.**
For every capacity of at least 20 and every sequence of puts, each put succeeds
exactly when its attribute fits, writes below the capacity only and on failure
changes nothing, if and only if at each put the padded size fits or does not fit
even modulo `2 ^ 16`. For the requests of `addFreeAsync` and `delFreeAsync`,
built in 256 bytes, this is a condition on the length of the string alone. -/
theorem puts_inside_buffer_iff (buf : ℕ → UInt8) (cap : ℕ) (hcap : 20 ≤ cap)
    (calls : List PutCall) (family : UInt16) (seq : UInt32) (rpcName : CString)
    (code strategy : Int32) :
    (Each PutOk (NlaBuilder.new buf cap) calls ↔
      Each (fun b call => b.len + align4 (4 + call.payload.length) ≤ b.cap ∨
        b.cap < b.len + align4 (4 + call.payload.length) % 2 ^ 16) (NlaBuilder.new buf cap) calls) ∧
    (let start := requestStart buf 256 family seq rkxCAddFreeAsync;
      Each PutOk start (executed start (addFreeAsyncPuts rpcName code strategy)) ↔
        20 + align4 (4 + (rpcName.strlen + 1)) ≤ 256 ∨
          256 < 20 + align4 (4 + (rpcName.strlen + 1)) % 2 ^ 16) ∧
    (let start := requestStart buf 256 family seq rkxCDelFreeAsync;
      Each PutOk start (executed start (delFreeAsyncPuts rpcName code)) ↔
        20 + align4 (4 + (rpcName.strlen + 1)) ≤ 256 ∨
          256 < 20 + align4 (4 + (rpcName.strlen + 1)) % 2 ^ 16) := by
  have hstart := len_requestStart_le buf 256 (by decide) family seq
  have hstring : ∀ cmd, Unwrapped (requestStart buf 256 family seq cmd)
      (.string (UInt16.ofNat rkxAFreeAsyncRpcName) rpcName) ↔
        20 + align4 (4 + (rpcName.strlen + 1)) ≤ 256 ∨
          256 < 20 + align4 (4 + (rpcName.strlen + 1)) % 2 ^ 16 := fun cmd => by
    rw [← CString.length_withNul]
    exact Iff.rfl
  refine ⟨each_putOk_iff hcap calls, ?_, ?_⟩
  · rw [← hstring rkxCAddFreeAsync]
    exact each_putOk_string_iff (hstart _) _ _ small_of_mem_addFreeAsyncRest
  · rw [← hstring rkxCDelFreeAsync]
    exact each_putOk_string_iff (hstart _) _ _ small_of_mem_delFreeAsyncRest

theorem puts_inside_buffer_short_name :
    Each PutOk (requestStart (fun _ => 0) 256 20 1 rkxCDelFreeAsync)
      (executed (requestStart (fun _ => 0) 256 20 1 rkxCDelFreeAsync)
        (delFreeAsyncPuts ⟨[97], by decide⟩ (-1))) :=
  (puts_inside_buffer_iff (fun _ => 0) 20 (by decide) [] 20 1 ⟨[97], by decide⟩ (-1) 0).2.2.mpr
    (Or.inl (by decide))

/-- Once a put is accepted, the bytes of its narrowed payload are all written. -/
theorem exists_write_touches {len i : ℕ} (type : UInt16) {data : List UInt8} {datalen : UInt16}
    (start : len + nlaHdrlen ≤ i)
    (inside : i < len + nlaHdrlen + min datalen.toNat data.length) :
    ∃ w ∈ NlaBuilder.putWrites len type data datalen, w.Touches i := by
  refine ⟨_, List.mem_cons_of_mem _ List.mem_cons_self, start, ?_⟩
  rwa [List.length_take]

/-- A name whose attribute is exactly `2 ^ 16` bytes long. -/
def wrappingName : CString where
  bytes := List.replicate 65531 97
  nul_free h := by cases List.eq_of_mem_replicate h

/-- The first put of `addFreeAsync` accepts that name into its 256 bytes and
writes past them. -/
theorem wrapping_name_leaves_buffer :
    ((PutCall.string (UInt16.ofNat rkxAFreeAsyncRpcName) wrappingName).run
      (requestStart (fun _ => 0) 256 20 1 rkxCAddFreeAsync)).1 = true ∧
    ∃ w ∈ NlaBuilder.putWrites 20 (UInt16.ofNat rkxAFreeAsyncRpcName) wrappingName.withNul
      (UInt16.ofNat (wrappingName.strlen + 1)), w.Touches 65555 := by
  have hlength : wrappingName.strlen = 65531 := List.length_replicate
  have hsize : (PutCall.string (UInt16.ofNat rkxAFreeAsyncRpcName) wrappingName).size = 2 ^ 16 := by
    rw [PutCall.size, PutCall.payload, CString.length_withNul, hlength]
    rfl
  constructor
  · rcases run_cases (requestStart (fun _ => 0) 256 20 1 rkxCAddFreeAsync)
      (.string (UInt16.ofNat rkxAFreeAsyncRpcName) wrappingName) with ⟨hfull, -⟩ | ⟨-, htrue, -⟩
    · -- the size wraps to zero, which always fits
      rw [hsize, Nat.mod_self] at hfull
      exact absurd hfull (by decide)
    · exact htrue
  · refine exists_write_touches _ (by decide) ?_
    rw [CString.length_withNul, hlength]
    decide

end ReKernelX.Client
