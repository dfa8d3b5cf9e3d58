import ReKernelX.Client.Builder
import ReKernelX.Client.Events
import ReKernelX.Client.Walk

/-!
# Requests as bytes

What a sequence of puts leaves in the buffer, whatever was there before: the
headers, and the encoding of the attributes that were accepted, in order. A put
that is refused leaves no trace. Walking the attributes gives them back, as long
as their length is an `int`: `nlmsg_len` has 32 bits and the walk counts with
31, while the builder counts with `size_t`.
-/

set_option autoImplicit false

namespace ReKernelX.Client

open Bytes Netlink

/-! ### Bytes of a buffer -/

/-- `n` bytes of a buffer from an offset on. -/
def bytesAt (mem : ℕ → UInt8) (o n : ℕ) : List UInt8 := (List.range' o n).map mem

@[simp] theorem length_bytesAt (mem : ℕ → UInt8) (o n : ℕ) : (bytesAt mem o n).length = n := by
  rw [bytesAt, List.length_map, List.length_range']

theorem bytesAt_add (mem : ℕ → UInt8) (o n k : ℕ) :
    bytesAt mem o (n + k) = bytesAt mem o n ++ bytesAt mem (o + n) k := by
  rw [bytesAt, bytesAt, bytesAt, ← List.map_append, List.range'_append_1]

/-- A write is what is read at its place. -/
theorem bytesAt_apply_self (mem : ℕ → UInt8) (o : ℕ) (bytes : List UInt8) :
    bytesAt (Write.apply (o, bytes) mem) o bytes.length = bytes := by
  refine List.ext_getElem (length_bytesAt _ _ _) fun i hi hi' => ?_
  have hinside : o ≤ o + i ∧ o + i < o + bytes.length := ⟨Nat.le_add_right o i, by omega⟩
  simp only [bytesAt, List.getElem_map, List.getElem_range', Nat.one_mul, Write.apply,
    if_pos hinside, Nat.add_sub_cancel_left]
  rw [List.getD_eq_getElem?_getD, List.getElem?_eq_getElem hi', Option.getD_some]

/-- A write is not seen elsewhere. -/
theorem bytesAt_apply_of_disjoint (mem : ℕ → UInt8) {w : Write} {o n : ℕ}
    (apart : o + n ≤ w.1 ∨ w.1 + w.2.length ≤ o) :
    bytesAt (w.apply mem) o n = bytesAt mem o n := by
  refine List.map_congr_left fun i hi => Write.apply_of_not_touches (fun htouch => ?_) mem
  obtain ⟨hlo, hhi⟩ := List.mem_range'_1.mp hi
  obtain ⟨hstart, hend⟩ := htouch
  omega

/-- A write right behind some bytes extends them. -/
theorem bytesAt_apply_behind (mem : ℕ → UInt8) (o n : ℕ) (bytes : List UInt8) :
    bytesAt (Write.apply (o + n, bytes) mem) o (n + bytes.length) = bytesAt mem o n ++ bytes := by
  rw [bytesAt_add, bytesAt_apply_of_disjoint mem (Or.inl le_rfl), bytesAt_apply_self]

/-- Writes that follow one another without a gap. -/
def writesFrom (o : ℕ) : List (List UInt8) → List Write
  | [] => []
  | chunk :: rest => (o, chunk) :: writesFrom (o + chunk.length) rest

theorem bytesAt_writesFrom (mem : ℕ → UInt8) (o : ℕ) (chunks : List (List UInt8)) :
    bytesAt ((writesFrom o chunks).foldl (fun mem w => w.apply mem) mem) 0
      (o + chunks.flatten.length) = bytesAt mem 0 o ++ chunks.flatten := by
  induction chunks generalizing mem o with
  | nil => simp [writesFrom]
  | cons chunk rest ih =>
    have hbehind := bytesAt_apply_behind mem 0 o chunk
    rw [Nat.zero_add] at hbehind
    rw [writesFrom, List.foldl_cons, List.flatten_cons, List.length_append, ← Nat.add_assoc, ih,
      hbehind, List.append_assoc]

/-! ### One put -/

/-- The pieces of an attribute that `put` writes one behind the other. -/
def attrChunks (type : ℕ) (payload : List UInt8) : List (List UInt8) :=
  [leBytes 2 (nlaHdrlen + payload.length) ++ leBytes 2 type, payload,
    List.replicate (align4 (nlaHdrlen + payload.length) - (nlaHdrlen + payload.length)) 0]

theorem flatten_attrChunks (type : ℕ) (payload : List UInt8) :
    (attrChunks type payload).flatten = encodeAttr type payload := by
  simp [attrChunks, encodeAttr]

section Put

variable {datalen : UInt16}

theorem toNat_attrLen_of_fits (fits : nlaHdrlen + datalen.toNat ≤ 65532) :
    (NlaBuilder.attrLen datalen).toNat = nlaHdrlen + datalen.toNat := by
  rw [nlaHdrlen] at fits ⊢
  rw [NlaBuilder.attrLen, UInt16.toNat_add, UInt16.toNat_ofNat']
  simp only [nlaHdrlen]
  omega

theorem toNat_aligned_of_fits (fits : nlaHdrlen + datalen.toNat ≤ 65532) :
    (NlaBuilder.aligned datalen).toNat = align4 (nlaHdrlen + datalen.toNat) := by
  have hattr := toNat_attrLen_of_fits fits
  rw [NlaBuilder.aligned, hattr, UInt16.toNat_ofNat', Nat.mod_eq_of_lt]
  rw [align4]
  omega

/-- When no length wraps, the writes of `put` follow one another. -/
theorem putWrites_eq_writesFrom (fits : nlaHdrlen + datalen.toNat ≤ 65532) (len : ℕ)
    (type : UInt16) {data : List UInt8} (enough : datalen.toNat ≤ data.length) :
    NlaBuilder.putWrites len type data datalen =
      writesFrom len (attrChunks type.toNat (data.take datalen.toNat)) := by
  have hlength : (data.take datalen.toNat).length = datalen.toNat := by
    rw [List.length_take, Nat.min_eq_left enough]
  have hheader : (leBytes 2 (nlaHdrlen + datalen.toNat) ++ leBytes 2 type.toNat).length =
      nlaHdrlen := by
    rw [List.length_append, length_leBytes, length_leBytes]
    rfl
  simp only [NlaBuilder.putWrites, attrChunks, writesFrom, toNat_attrLen_of_fits fits,
    toNat_aligned_of_fits fits, hlength, hheader, Nat.add_assoc]

/-- The bytes a builder holds. -/
def NlaBuilder.message (b : NlaBuilder) : List UInt8 := bytesAt b.buf 0 b.len

/-- A put that is accepted appends the attribute with the payload it was told the
length of, when no length wraps. -/
theorem message_put_of_fits {b : NlaBuilder} {type : UInt16} {data : List UInt8}
    (fits : nlaHdrlen + datalen.toNat ≤ 65532) (enough : datalen.toNat ≤ data.length)
    (accepted : (b.put type data datalen).1 = true) :
    (b.put type data datalen).2.message =
      b.message ++ encodeAttr type.toNat (data.take datalen.toNat) := by
  have hsize : (encodeAttr type.toNat (data.take datalen.toNat)).length =
      (NlaBuilder.aligned datalen).toNat := by
    rw [length_encodeAttr, List.length_take, Nat.min_eq_left enough, toNat_aligned_of_fits fits]
  rw [NlaBuilder.put] at accepted ⊢
  split_ifs at accepted ⊢
  simp only [NlaBuilder.message, putWrites_eq_writesFrom fits _ _ enough]
  rw [← hsize, ← flatten_attrChunks, bytesAt_writesFrom]

end Put

/-- The attribute a call stands for. -/
def PutCall.attr (call : PutCall) : Attr := (call.type.toNat, call.payload)

/-- The length of the attribute fits its field, padding included. -/
def PutCall.Short (call : PutCall) : Prop := nlaHdrlen + call.payload.length ≤ 65532

theorem PutCall.short_of_length_le {call : PutCall} (h : call.payload.length ≤ 4) : call.Short :=
  (Nat.add_le_add_left h nlaHdrlen).trans (by decide)

theorem PutCall.Short.length_payload_lt {call : PutCall} (short : call.Short) :
    call.payload.length < 65529 := by
  rw [PutCall.Short, nlaHdrlen] at short
  omega

theorem PutCall.Short.size_lt {call : PutCall} (short : call.Short) : call.size < 2 ^ 16 := by
  rw [PutCall.Short, nlaHdrlen] at short
  rw [PutCall.size, align4, nlaHdrlen]
  omega

theorem PutCall.Short.toNat_datalen {call : PutCall} (short : call.Short) :
    call.datalen.toNat = call.payload.length := by
  rw [PutCall.Short, nlaHdrlen] at short
  rw [PutCall.datalen, UInt16.toNat_ofNat', Nat.mod_eq_of_lt (by omega)]

/-- A put either appends its attribute or changes nothing. -/
theorem PutCall.Short.run_cases {call : PutCall} (short : call.Short) (b : NlaBuilder) :
    call.run b = (false, b) ∧ b.cap < b.len + call.size ∨
      (call.run b).1 = true ∧ (call.run b).2.len = b.len + call.size ∧
        (call.run b).2.cap = b.cap ∧
        (call.run b).2.message = b.message ++ encodeAttr call.attr.1 call.attr.2 := by
  have hdata := short.toNat_datalen
  have hcases := Client.run_cases b call
  rw [Nat.mod_eq_of_lt short.size_lt] at hcases
  rcases hcases with ⟨hfull, hrun⟩ | ⟨-, htrue, hlen, hcap⟩
  · exact Or.inl ⟨hrun, hfull⟩
  · refine Or.inr ⟨htrue, hlen, hcap, ?_⟩
    rw [PutCall.run_eq_put] at htrue ⊢
    rw [message_put_of_fits (by rwa [hdata]) hdata.le htrue, hdata, List.take_length]
    rfl

/-! ### Sequences of puts -/

/-- The builder after a sequence of puts, whatever each of them returned. -/
def putEach (b : NlaBuilder) (calls : List PutCall) : NlaBuilder :=
  calls.foldl (fun b call => (call.run b).2) b

/-- The calls of a sequence that are accepted. -/
def accepted (b : NlaBuilder) : List PutCall → List PutCall
  | [] => []
  | call :: rest =>
    if (call.run b).1 then call :: accepted (call.run b).2 rest else accepted (call.run b).2 rest

theorem putEach_cons (b : NlaBuilder) (call : PutCall) (rest : List PutCall) :
    putEach b (call :: rest) = putEach (call.run b).2 rest := rfl

/-- The message grows by the accepted attributes, in the order of the calls. -/
theorem message_putEach (b : NlaBuilder) {calls : List PutCall}
    (short : ∀ call ∈ calls, call.Short) :
    (putEach b calls).message =
      b.message ++ encodeAttrs ((accepted b calls).map PutCall.attr) := by
  induction calls generalizing b with
  | nil => simp [putEach, accepted]
  | cons call rest ih =>
    have hrest := ih (call.run b).2 fun c hc => short c (List.mem_cons_of_mem call hc)
    rw [putEach_cons, hrest, accepted]
    rcases (short call List.mem_cons_self).run_cases b with ⟨hrun, -⟩ | ⟨htrue, -, -, hmessage⟩
    · rw [hrun]
      rfl
    · rw [if_pos htrue, hmessage, List.map_cons, encodeAttrs_cons, List.append_assoc]

theorem accepted_subset (b : NlaBuilder) (calls : List PutCall) : accepted b calls ⊆ calls := by
  induction calls generalizing b with
  | nil => exact List.Subset.refl _
  | cons call rest ih =>
    rw [accepted]
    split_ifs
    · exact List.cons_subset_cons call (ih _)
    · exact List.subset_cons_of_subset call (ih _)

/-- Puts joined by `&&` leave all their attributes behind when all succeed, which
is when they fit together. -/
theorem putAll_short {calls : List PutCall} (short : ∀ call ∈ calls, call.Short) {b : NlaBuilder}
    (inside : b.len ≤ b.cap) :
    ((putAll b calls).1 = true ↔ b.len + (calls.map PutCall.size).sum ≤ b.cap) ∧
      ((putAll b calls).1 = true →
        (putAll b calls).2.message = b.message ++ encodeAttrs (calls.map PutCall.attr)) := by
  induction calls generalizing b with
  | nil => simpa [putAll] using inside
  | cons call rest ih =>
    have hrest : ∀ c ∈ rest, c.Short := fun c hc => short c (List.mem_cons_of_mem call hc)
    have hinside := (@len_run_le b call inside).1
    rw [putAll, List.map_cons, List.sum_cons, List.map_cons, encodeAttrs_cons]
    rcases (short call List.mem_cons_self).run_cases b with
      ⟨hrun, hfull⟩ | ⟨htrue, hlen, hcap, hmessage⟩
    · rw [if_neg (by rw [hrun]; exact Bool.false_ne_true), hrun]
      refine ⟨⟨fun h => (Bool.false_ne_true h).elim, fun h => ?_⟩,
        fun h => (Bool.false_ne_true h).elim⟩
      omega
    · obtain ⟨hiff, happend⟩ := ih hrest hinside
      rw [if_pos htrue]
      refine ⟨hiff.trans (by rw [hlen, hcap, Nat.add_assoc]), fun h => ?_⟩
      rw [happend h, hmessage, List.append_assoc]

/-! ### Headers -/

theorem length_message (b : NlaBuilder) : b.message.length = b.len := length_bytesAt _ _ _

/-- The headers replace whatever the buffer held. -/
theorem message_putGenlHeader (buf : ℕ → UInt8) (cap : ℕ) (family : UInt16) (seq : UInt32)
    (cmd version : UInt8) :
    ((NlaBuilder.new buf cap).putGenlHeader family seq cmd version).message =
      genlHeader 0 family.toNat nlmFRequest seq.toNat 0 cmd version := by
  have hheader := bytesAt_apply_self (NlaBuilder.new buf cap).buf 0
    (genlHeader 0 family.toNat nlmFRequest seq.toNat 0 cmd version)
  rw [length_genlHeader] at hheader
  rw [← hheader, NlaBuilder.message, NlaBuilder.putGenlHeader]
  simp only [genlHeader, List.append_assoc]
  rfl

/-- `finish` sets the first word and nothing else. -/
theorem message_finish {b : NlaBuilder} (room : 4 ≤ b.len) :
    b.finish.message = leBytes 4 b.len ++ b.message.drop 4 := by
  have hsplit : b.len = 4 + (b.len - 4) := by omega
  have hfirst := bytesAt_apply_self b.buf 0 (leBytes 4 b.len)
  rw [length_leBytes] at hfirst
  have hrest : bytesAt (Write.apply (0, leBytes 4 b.len) b.buf) 4 (b.len - 4) =
      bytesAt b.buf 4 (b.len - 4) :=
    bytesAt_apply_of_disjoint b.buf (Or.inr (by rw [length_leBytes]))
  have hdrop : b.message.drop 4 = bytesAt b.buf 4 (b.len - 4) := by
    rw [NlaBuilder.message, hsplit, bytesAt_add, Nat.add_sub_cancel_left]
    exact List.drop_left' (length_bytesAt _ _ _)
  rw [hdrop]
  calc b.finish.message
      = bytesAt (Write.apply (0, leBytes 4 b.len) b.buf) 0 (4 + (b.len - 4)) := by
        rw [← hsplit]
        rfl
    _ = _ := by rw [bytesAt_add, hfirst, Nat.zero_add, hrest]

/-- Finishing a builder that holds headers and some bytes of attributes sets the
length in the headers. -/
theorem message_finish_headed {b : NlaBuilder} {family flags seq pid : ℕ} {cmd version : UInt8}
    {attrs : List UInt8}
    (holds : b.message = genlHeader 0 family flags seq pid cmd version ++ attrs) :
    b.finish.message = genlHeader (nlmsgHdrlen + genlHdrlen + attrs.length) family flags seq pid
      cmd version ++ attrs := by
  have hlen : b.len = nlmsgHdrlen + genlHdrlen + attrs.length := by
    rw [← length_message, holds, List.length_append, length_genlHeader]
  have hroom : 4 ≤ b.len := by
    rw [hlen, nlmsgHdrlen]
    omega
  rw [message_finish hroom, holds, hlen,
    List.drop_append_of_le_length (by rw [length_genlHeader]; decide)]
  simp only [genlHeader, List.append_assoc]
  rfl

/-- A finished request: the headers with the length in place, and the accepted
attributes. -/
theorem message_finish_putEach (buf : ℕ → UInt8) (cap : ℕ) (family : UInt16) (seq : UInt32)
    (cmd version : UInt8) {calls : List PutCall} (short : ∀ call ∈ calls, call.Short) :
    let start := (NlaBuilder.new buf cap).putGenlHeader family seq cmd version
    let attrs := (accepted start calls).map PutCall.attr
    (putEach start calls).finish.message =
      genlHeader (nlmsgHdrlen + genlHdrlen + (encodeAttrs attrs).length) family.toNat nlmFRequest
        seq.toNat 0 cmd version ++ encodeAttrs attrs := by
  intro start attrs
  refine message_finish_headed ?_
  rw [message_putEach start short, message_putGenlHeader]

/-! ### A name of any length -/

/-- A write at or behind the end of some bytes is not seen in them. -/
theorem bytesAt_foldl_of_behind {writes : List Write} {n : ℕ} (behind : ∀ w ∈ writes, n ≤ w.1)
    (mem : ℕ → UInt8) :
    bytesAt (writes.foldl (fun mem w => w.apply mem) mem) 0 n = bytesAt mem 0 n := by
  refine List.map_congr_left fun i hi =>
    Write.foldl_apply_of_not_touches (fun w hw htouch => ?_) mem
  have hstart := behind w hw
  have hend := (List.mem_range'_1.mp hi).2
  have := htouch.1
  omega

/-- A put that is accepted appends something of the size it computed, whatever it
is. -/
theorem message_put {b : NlaBuilder} {type : UInt16} {data : List UInt8} {datalen : UInt16}
    (accepted : (b.put type data datalen).1 = true) :
    (b.put type data datalen).2.message = b.message ++
      bytesAt (b.put type data datalen).2.buf b.len (NlaBuilder.aligned datalen).toNat := by
  rw [NlaBuilder.put] at accepted ⊢
  split_ifs at accepted ⊢
  simp only [NlaBuilder.message]
  rw [bytesAt_add, Nat.zero_add, bytesAt_foldl_of_behind]
  intro w hw
  simp only [NlaBuilder.putWrites, List.mem_cons, List.not_mem_nil, or_false] at hw
  rcases hw with rfl | rfl | rfl
  · exact le_rfl
  · exact Nat.le_add_right _ _
  · exact Nat.le_add_right _ _

/-- What can become of a name in a request. Up to 65527 bytes it is a string
attribute. A longer one loses its end and its terminator, or leaves no trace, or
leaves four bytes that are no attribute. -/
inductive NameRegion (type : ℕ) (s : CString) : List UInt8 → Prop
  | whole : s.strlen + 5 ≤ 65532 → NameRegion type s (encodeAttr type s.withNul)
  | cut (r : ℕ) : 65528 ≤ s.strlen → r ≤ s.strlen → nlaHdrlen + r ≤ 65532 →
      NameRegion type s (encodeAttr type (s.bytes.take r))
  | gone : 65528 ≤ s.strlen → NameRegion type s []
  | broken (bytes : List UInt8) : 65528 ≤ s.strlen → bytes.length = 4 →
      ofLE (bytes.take 2) < nlaHdrlen → NameRegion type s bytes

/-- When the length of an attribute wraps to less than its header, the first two
bytes of it still hold that length. -/
theorem buf_put_of_wrapped {b : NlaBuilder} {type : UInt16} {data : List UInt8} {datalen : UInt16}
    (accepted : (b.put type data datalen).1 = true)
    (pos : 0 < (NlaBuilder.attrLen datalen).toNat)
    (short : (NlaBuilder.attrLen datalen).toNat < 4) :
    (b.put type data datalen).2.buf b.len =
        UInt8.ofNat (NlaBuilder.attrLen datalen).toNat ∧
      (b.put type data datalen).2.buf (b.len + 1) = 0 := by
  have haligned : (NlaBuilder.aligned datalen).toNat = 4 := by
    rw [NlaBuilder.aligned, UInt16.toNat_ofNat', align4]
    omega
  rw [NlaBuilder.put] at accepted ⊢
  split_ifs at accepted ⊢
  simp only [NlaBuilder.putWrites, List.foldl_cons, List.foldl_nil, haligned]
  generalize (NlaBuilder.attrLen datalen).toNat = k at pos short ⊢
  -- the payload starts behind the header, and the padding behind the first byte
  constructor
  · simp [Write.apply, nlaHdrlen, leBytes]
    omega
  · have hk : k = 1 ∨ k = 2 ∨ k = 3 := by omega
    rcases hk with rfl | rfl | rfl <;> simp [Write.apply, nlaHdrlen, leBytes]

/-- What is appended when the length of the attribute does not fit its field: nothing,
or four bytes with a length that is less than that of a header. -/
theorem region_of_wrapped {b : NlaBuilder} {type : UInt16} {data : List UInt8} {datalen : UInt16}
    (accepted : (b.put type data datalen).1 = true) (long : 65532 < nlaHdrlen + datalen.toNat) :
    let region := bytesAt (b.put type data datalen).2.buf b.len (NlaBuilder.aligned datalen).toNat
    region = [] ∨ region.length = 4 ∧ ofLE (region.take 2) < nlaHdrlen := by
  intro region
  have hattr : (NlaBuilder.attrLen datalen).toNat = (4 + datalen.toNat) % 2 ^ 16 := by
    rw [NlaBuilder.attrLen, UInt16.toNat_add, UInt16.toNat_ofNat']
    rfl
  have haligned : (NlaBuilder.aligned datalen).toNat =
      ((NlaBuilder.attrLen datalen).toNat + 3) / 4 * 4 % 2 ^ 16 := by
    rw [NlaBuilder.aligned, UInt16.toNat_ofNat', align4]
  have hbound := datalen.toNat_lt
  rw [nlaHdrlen] at long
  -- a padded length of 2 ^ 16 becomes 0, and one that wrapped before padding becomes 4
  by_cases hbroken : 65533 ≤ datalen.toNat
  · right
    have hfour : (NlaBuilder.aligned datalen).toNat = 4 := by omega
    have hless : (NlaBuilder.attrLen datalen).toNat < 4 := by omega
    obtain ⟨hfirst, hsecond⟩ := buf_put_of_wrapped accepted (by omega) hless
    have htake : region.take 2 = [UInt8.ofNat (NlaBuilder.attrLen datalen).toNat, 0] := by
      rw [← hfirst, ← hsecond]
      simp only [region, hfour]
      rfl
    have hvalue : ofLE (region.take 2) = (NlaBuilder.attrLen datalen).toNat % 256 := by
      rw [htake]
      simp [ofLE]
    refine ⟨by rw [length_bytesAt, hfour], ?_⟩
    rw [hvalue, nlaHdrlen]
    omega
  · left
    have hzero : (NlaBuilder.aligned datalen).toNat = 0 := by omega
    simp only [region, hzero]
    rfl

/-- The region of a name that was accepted. -/
theorem nameRegion_of_run {b : NlaBuilder} {type : UInt16} {s : CString}
    (accepted : ((PutCall.string type s).run b).1 = true) :
    ∃ region, NameRegion type.toNat s region ∧
      ((PutCall.string type s).run b).2.message = b.message ++ region := by
  set datalen := (PutCall.string type s).datalen with hdatalen
  have hdata : datalen.toNat = (s.strlen + 1) % 2 ^ 16 := by
    rw [hdatalen, PutCall.datalen, UInt16.toNat_ofNat', PutCall.payload, CString.length_withNul]
  rw [PutCall.run_eq_put, ← hdatalen] at accepted ⊢
  simp only [PutCall.type, PutCall.payload] at accepted ⊢
  have henough : datalen.toNat ≤ s.withNul.length := by
    rw [CString.length_withNul, hdata]
    exact Nat.mod_le _ _
  by_cases hfits : nlaHdrlen + datalen.toNat ≤ 65532
  · refine ⟨_, ?_, message_put_of_fits hfits henough accepted⟩
    by_cases hwhole : datalen.toNat = s.strlen + 1
    · rw [hwhole, ← CString.length_withNul, List.take_length]
      exact .whole (by rw [hwhole, nlaHdrlen] at hfits; omega)
    · -- the length was reduced, so the terminator is behind the part that is copied
      have hcut : datalen.toNat ≤ s.strlen := by
        rw [CString.length_withNul] at henough
        omega
      rw [CString.withNul, List.take_append_of_le_length hcut]
      exact .cut _ (by omega) hcut hfits
  · refine ⟨_, ?_, message_put accepted⟩
    have hlong : 65528 ≤ s.strlen := by
      rw [nlaHdrlen] at hfits
      omega
    rcases region_of_wrapped accepted (not_le.mp hfits) with hnil | ⟨hlength, hless⟩
    · rw [hnil]
      exact .gone hlong
    · exact .broken _ hlong hlength hless

/-- A request of short attributes that fit together holds them all. -/
theorem buildRequest_short {stack : ℕ → UInt8} {cap : ℕ} {family : UInt16} {seq : UInt32}
    {cmd : UInt8} {calls : List PutCall} (short : ∀ call ∈ calls, call.Short)
    (fits : 20 + (calls.map PutCall.size).sum ≤ cap) :
    (buildRequest stack cap family seq cmd calls).2.message =
      genlHeader (nlmsgHdrlen + genlHdrlen + (encodeAttrs (calls.map PutCall.attr)).length)
        family.toNat nlmFRequest seq.toNat 0 cmd rkxGenlVersion ++
        encodeAttrs (calls.map PutCall.attr) := by
  have hinside : (requestStart stack cap family seq cmd).len ≤
      (requestStart stack cap family seq cmd).cap := (Nat.le_add_right 20 _).trans fits
  obtain ⟨hiff, happend⟩ := putAll_short short hinside
  refine message_finish_headed ?_
  rw [happend (hiff.mpr fits), requestStart, message_putGenlHeader]

theorem len_putAll_le {b : NlaBuilder} (inside : b.len ≤ b.cap) (calls : List PutCall) :
    (putAll b calls).2.len ≤ (putAll b calls).2.cap ∧ (putAll b calls).2.cap = b.cap := by
  induction calls generalizing b with
  | nil => exact ⟨inside, rfl⟩
  | cons call rest ih =>
    have hcall := @len_run_le b call inside
    rw [putAll]
    split_ifs
    · obtain ⟨hlen, hcap⟩ := ih hcall.1
      exact ⟨hlen, hcap.trans hcall.2⟩
    · exact hcall

/-- A request that starts with a name is built when the sizes fit, that of the name
reduced to sixteen bits. It holds the region of the name and the other attributes. -/
theorem buildRequest_string {stack : ℕ → UInt8} {cap : ℕ} {family type : UInt16} {seq : UInt32}
    {cmd : UInt8} (s : CString) {rest : List PutCall} (room : 20 ≤ cap)
    (short : ∀ call ∈ rest, call.Short) :
    let built := buildRequest stack cap family seq cmd (.string type s :: rest)
    (built.1 = true ↔
      20 + align4 (s.strlen + 5) % 2 ^ 16 + (rest.map PutCall.size).sum ≤ cap) ∧
    (built.1 = true → ∃ region, NameRegion type.toNat s region ∧
      20 + (region ++ encodeAttrs (rest.map PutCall.attr)).length ≤ cap ∧
      built.2.message =
        genlHeader
          (nlmsgHdrlen + genlHdrlen + (region ++ encodeAttrs (rest.map PutCall.attr)).length)
          family.toNat nlmFRequest seq.toNat 0 cmd rkxGenlVersion ++
          (region ++ encodeAttrs (rest.map PutCall.attr))) := by
  intro built
  set start := requestStart stack cap family seq cmd with hstart
  have hinside : start.len ≤ start.cap := room
  have hsize : (PutCall.string type s).size = align4 (s.strlen + 5) := by
    rw [PutCall.size, PutCall.payload, CString.length_withNul, nlaHdrlen]
    congr 1
    omega
  have hbuilt : built = ((putAll start (.string type s :: rest)).1,
      (putAll start (.string type s :: rest)).2.finish) := rfl
  have hcases := run_cases start (.string type s)
  rw [hsize] at hcases
  rcases hcases with ⟨hfull, hrun⟩ | ⟨hfits, htrue, hlen, hcap⟩
  · have hfalse : built.1 = false := by
      rw [hbuilt, putAll, hrun]
      rfl
    rw [hfalse]
    refine ⟨⟨fun h => (Bool.false_ne_true h).elim, fun h => ?_⟩,
      fun h => (Bool.false_ne_true h).elim⟩
    have hfull' : cap < 20 + align4 (s.strlen + 5) % 2 ^ 16 := hfull
    omega
  · obtain ⟨region, hregion, hmessage⟩ := nameRegion_of_run htrue
    have hinside' := (@len_run_le start (.string type s) hinside).1
    obtain ⟨hiff, happend⟩ := putAll_short short hinside'
    rw [hlen, hcap] at hiff
    rw [hbuilt, putAll, if_pos htrue]
    refine ⟨hiff, fun hall => ⟨region, hregion, ?_, ?_⟩⟩
    · obtain ⟨hle, hcap'⟩ := len_putAll_le hinside' rest
      rw [← length_message, happend hall, hmessage, List.append_assoc, List.length_append,
        length_message, hcap', hcap] at hle
      exact hle
    · refine message_finish_headed ?_
      rw [happend hall, hmessage, hstart, requestStart, message_putGenlHeader, List.append_assoc]

/-! ### Reading a request back -/

/-- What `nla_for_each_attr` yields: number and payload of each visited attribute. -/
def walkAttrs (m : Memory) (nla : ℕ) (rem : ℤ) : Option (List Attr) :=
  (nlaWalk m nla rem).bind fun visited => visited.mapM (attrAt m)

section ReadBack

variable {m : Memory} {attrs : List Attr} {pos : ℕ}

theorem plain_of_accepted {b : NlaBuilder} {calls : List PutCall}
    (short : ∀ call ∈ calls, call.Short) (types : ∀ call ∈ calls, call.type.toNat < 2 ^ 14) :
    ∀ a ∈ (accepted b calls).map PutCall.attr, Plain a := by
  intro a ha
  obtain ⟨call, hcall, rfl⟩ := List.mem_map.mp ha
  have hmem := accepted_subset b calls hcall
  exact ⟨types call hmem, lt_of_le_of_lt (short call hmem) (by decide)⟩

/-- A region of less than `2 ^ 31` bytes is walked completely, a longer one never:
its length as an `int` is too small by a multiple of `2 ^ 32`. -/
theorem walkAttrs_castInt_iff (plain : ∀ a ∈ attrs, Plain a) (h : Holds m pos (encodeAttrs attrs)) :
    walkAttrs m pos (castInt (encodeAttrs attrs).length) = some attrs ↔
      (encodeAttrs attrs).length < 2 ^ 31 := by
  constructor
  · intro hwalk
    obtain ⟨visited, hvisited, hread⟩ := Option.bind_eq_some_iff.mp hwalk
    by_contra hlong
    have hnonempty : attrs ≠ [] := by
      rintro rfl
      exact hlong (by decide)
    have hall : visited.length = attrs.length := length_of_mapM_eq_some hread
    have hlt := length_encodeAttrs_lt_of_walk plain hnonempty h hvisited hall
    have hcast := castInt_lt_of_le (Nat.le_of_not_lt hlong)
    omega
  · intro hshort
    obtain ⟨visited, hvisited, hread⟩ := nlaWalk_encodeAttrs plain h
    rw [walkAttrs, castInt_of_lt hshort, hvisited, Option.bind_some, hread]

/-- The parser returns the last attribute of each number. -/
theorem rkxNlaParse_last (plain : ∀ a ∈ attrs, Plain a) (h : Holds m pos (encodeAttrs attrs))
    (maxtype : ℕ) :
    ∃ tb, rkxNlaParse m maxtype pos (encodeAttrs attrs).length = some tb ∧
      ∀ type, 0 < type → type ≤ maxtype →
        (tb type).map (attrAt m) = (lastAttr attrs type).map some := by
  obtain ⟨visited, hvisited, hread⟩ := nlaWalk_encodeAttrs plain h
  obtain ⟨tb, htb⟩ := exists_foldlM_of_mapM hread maxtype fun _ => none
  refine ⟨tb, by rw [rkxNlaParse, nlaForEach_eq_foldlM, hvisited, Option.bind_some, htb], ?_⟩
  intro type hpos hle
  rw [foldlM_remember htb, if_pos ⟨hpos, hle⟩, Option.or_none, map_attrAt_lastOf hread]

end ReadBack

/-! ### The whole builder -/

section Request

variable (buf : ℕ → UInt8) (cap : ℕ) (family : UInt16) (seq : UInt32) (cmd version : UInt8)

/-- A builder right after its headers were put. -/
def headed : NlaBuilder := (NlaBuilder.new buf cap).putGenlHeader family seq cmd version

/-- The attributes a sequence of puts leaves in the request. -/
def requestAttrs (calls : List PutCall) : List Attr :=
  (accepted (headed buf cap family seq cmd version) calls).map PutCall.attr

variable {calls : List PutCall} (short : ∀ call ∈ calls, call.Short)

include short

theorem len_finish_putEach :
    (putEach (headed buf cap family seq cmd version) calls).finish.len =
      20 + (encodeAttrs (requestAttrs buf cap family seq cmd version calls)).length := by
  rw [← length_message]
  refine (congrArg List.length
    (message_finish_putEach buf cap family seq cmd version short)).trans ?_
  rw [List.length_append, length_genlHeader]
  rfl

theorem nlmsgLen_finish_putEach :
    ofLE ((putEach (headed buf cap family seq cmd version) calls).finish.message.take 4) =
      (putEach (headed buf cap family seq cmd version) calls).finish.len % 2 ^ 32 := by
  have hmessage := message_finish_putEach buf cap family seq cmd version short
  rw [len_finish_putEach buf cap family seq cmd version short, headed, hmessage, genlHeader,
    List.append_assoc, List.append_assoc, List.take_left' (length_leBytes _ _), ofLE_leBytes]
  rfl

theorem holds_finish_putEach :
    Holds (Memory.ofList (putEach (headed buf cap family seq cmd version) calls).finish.message) 20
      (encodeAttrs (requestAttrs buf cap family seq cmd version calls)) := by
  have hmessage := message_finish_putEach buf cap family seq cmd version short
  have hholds := holds_ofList (genlHeader (nlmsgHdrlen + genlHdrlen +
    (encodeAttrs (requestAttrs buf cap family seq cmd version calls)).length) family.toNat
    nlmFRequest seq.toNat 0 cmd version)
    (encodeAttrs (requestAttrs buf cap family seq cmd version calls))
  rw [length_genlHeader] at hholds
  rw [headed, hmessage]
  exact hholds

end Request

/-- What is accepted depends on the length and the capacity, not on the bytes. -/
theorem accepted_congr {b b' : NlaBuilder} (len : b.len = b'.len) (cap : b.cap = b'.cap)
    {calls : List PutCall} (short : ∀ call ∈ calls, call.Short) :
    accepted b calls = accepted b' calls := by
  induction calls generalizing b b' with
  | nil => rfl
  | cons call rest ih =>
    have hrest : ∀ c ∈ rest, c.Short := fun c hc => short c (List.mem_cons_of_mem call hc)
    have hcall := short call List.mem_cons_self
    rw [accepted, accepted]
    rcases hcall.run_cases b with ⟨hrun, hfull⟩ | ⟨htrue, hlen, hcap, -⟩
    · rcases hcall.run_cases b' with ⟨hrun', -⟩ | ⟨htrue', hlen', hcap', -⟩
      · rw [hrun, hrun']
        exact ih len cap hrest
      · have hle := (PutCall.le_of_run htrue').trans_eq cap.symm
        rw [Nat.mod_eq_of_lt hcall.size_lt] at hle
        omega
    · rcases hcall.run_cases b' with ⟨hrun', hfull'⟩ | ⟨htrue', hlen', hcap', -⟩
      · have hle := PutCall.le_of_run htrue
        rw [Nat.mod_eq_of_lt hcall.size_lt] at hle
        omega
      · have hlens : (call.run b).2.len = (call.run b').2.len := by rw [hlen, hlen', len]
        have hcaps : (call.run b).2.cap = (call.run b').2.cap := by rw [hcap, hcap', cap]
        rw [if_pos htrue, if_pos htrue', ih hlens hcaps hrest]

/-- **Building, then parsing.** For every capacity that holds the headers, every
content of the buffer, every header and every sequence of puts whose attributes fit
a 16-bit length: the finished bytes are the headers, with the length modulo
`2 ^ 32` in `nlmsg_len`, and the encoding of the accepted attributes in order,
whatever the buffer held; a put that is refused changes nothing. With types below
the flag bits, walking the attributes yields exactly the accepted ones if and only
if they take less than `2 ^ 31` bytes, and then the parser returns for each number
the last accepted one. -/
theorem build_then_parse (buf : ℕ → UInt8) (cap : ℕ) (family : UInt16) (seq : UInt32)
    (cmd version : UInt8) (calls : List PutCall) (_headers : 20 ≤ cap)
    (short : ∀ call ∈ calls, 4 + call.payload.length ≤ 65532) :
    let request := (putEach (headed buf cap family seq cmd version) calls).finish
    let attrs := requestAttrs buf cap family seq cmd version calls
    request.message = genlHeader request.len family.toNat nlmFRequest seq.toNat 0 cmd version ++
        encodeAttrs attrs ∧
    ofLE (request.message.take 4) = request.len % 2 ^ 32 ∧
    (∀ buf', (putEach (headed buf' cap family seq cmd version) calls).finish.message =
      request.message) ∧
    (∀ (b : NlaBuilder), ∀ call ∈ calls, (call.run b).1 = false → (call.run b).2 = b) ∧
    ((∀ call ∈ calls, call.type.toNat < 2 ^ 14) →
      (walkAttrs (Memory.ofList request.message) 20 (castInt (request.len - 20)) = some attrs ↔
        request.len - 20 < 2 ^ 31) ∧
      (request.len - 20 < 2 ^ 31 → ∀ maxtype, ∃ tb,
        rkxNlaParse (Memory.ofList request.message) maxtype 20 (castInt (request.len - 20)) =
          some tb ∧
        ∀ type, 0 < type → type ≤ maxtype →
          (tb type).map (attrAt (Memory.ofList request.message)) =
            (lastAttr attrs type).map some)) := by
  intro request attrs
  have hlen : request.len = 20 + (encodeAttrs attrs).length :=
    len_finish_putEach buf cap family seq cmd version short
  have hmessage : request.message = genlHeader request.len family.toNat nlmFRequest seq.toNat 0
      cmd version ++ encodeAttrs attrs := by
    rw [hlen]
    exact message_finish_putEach buf cap family seq cmd version short
  refine ⟨hmessage, nlmsgLen_finish_putEach buf cap family seq cmd version short, fun buf' => ?_,
    fun b call hcall hfalse => ?_, fun types => ?_⟩
  · have hattrs : requestAttrs buf' cap family seq cmd version calls = attrs := by
      have hstart : (headed buf' cap family seq cmd version).len =
          (headed buf cap family seq cmd version).len := rfl
      exact congrArg (List.map PutCall.attr) (accepted_congr hstart rfl short)
    rw [hmessage, hlen, ← hattrs]
    exact message_finish_putEach buf' cap family seq cmd version short
  · rcases (show call.Short from short call hcall).run_cases b with ⟨hrun, -⟩ | ⟨htrue, -⟩
    · rw [hrun]
    · rw [htrue] at hfalse
      cases hfalse
  · have hplain : ∀ a ∈ attrs, Plain a := plain_of_accepted short types
    have hholds := holds_finish_putEach buf cap family seq cmd version short
    have hregion : request.len - 20 = (encodeAttrs attrs).length := by omega
    rw [hregion]
    refine ⟨walkAttrs_castInt_iff hplain hholds, fun hshort maxtype => ?_⟩
    rw [castInt_of_lt hshort]
    exact rkxNlaParse_last hplain hholds maxtype

theorem build_then_parse_twoPuts :
    let request := (putEach (headed (fun _ => 7) 64 20 1 5 1)
      [.u8 41 3, .string 42 ⟨[97], by decide⟩]).finish
    walkAttrs (Memory.ofList request.message) 20 (castInt (request.len - 20)) =
      some [(41, [3]), (42, [97, 0])] := by
  intro request
  have hwalk := (build_then_parse (fun _ => 7) 64 20 1 5 1 [.u8 41 3, .string 42 ⟨[97], by decide⟩]
    (by decide) (by decide)).2.2.2.2 (by decide)
  exact hwalk.1.mpr (by decide)

/-- As long as there is room, one call repeated is accepted each time. -/
theorem accepted_replicate {call : PutCall} (short : call.Short) {n : ℕ} {b : NlaBuilder}
    (room : b.len + n * call.size ≤ b.cap) :
    accepted b (List.replicate n call) = List.replicate n call := by
  induction n generalizing b with
  | zero => rfl
  | succ n ih =>
    rw [Nat.succ_mul] at room
    rw [List.replicate_succ, accepted]
    rcases short.run_cases b with ⟨-, hfull⟩ | ⟨htrue, hlen, hcap, -⟩
    · omega
    · rw [if_pos htrue, ih (by omega)]

theorem length_encodeAttrs_replicate (n : ℕ) (a : Attr) :
    (encodeAttrs (List.replicate n a)).length = n * (encodeAttr a.1 a.2).length := by
  induction n with
  | zero => simp
  | succ n ih =>
    rw [List.replicate_succ, encodeAttrs_cons, List.length_append, ih, Nat.succ_mul, Nat.add_comm]

section Words

variable {n cap : ℕ}

theorem short_of_mem_words {call : PutCall} (h : call ∈ List.replicate n (PutCall.u32 40 0)) :
    call.Short := by
  rw [List.eq_of_mem_replicate h, PutCall.Short]
  decide

/-- The attributes of `n` words for which there is room. -/
theorem requestAttrs_words (room : 20 + n * 8 ≤ cap) :
    requestAttrs (fun _ => 0) cap 20 1 4 1 (List.replicate n (.u32 40 0)) =
      List.replicate n (40, [0, 0, 0, 0]) := by
  have hshort : (PutCall.u32 40 0).Short := by
    rw [PutCall.Short]
    decide
  rw [requestAttrs, accepted_replicate hshort room, List.map_replicate]
  rfl

/-- The length of a request of `n` words, and when its attributes can be walked. -/
theorem request_words (room : 20 + n * 8 ≤ cap) :
    let request := (putEach (headed (fun _ => 0) cap 20 1 4 1)
      (List.replicate n (.u32 40 0))).finish
    request.len = n * 8 + 20 ∧ ofLE (request.message.take 4) = (n * 8 + 20) % 2 ^ 32 ∧
      (walkAttrs (Memory.ofList request.message) 20 (castInt (request.len - 20)) =
        some (List.replicate n (40, [0, 0, 0, 0])) ↔ n * 8 < 2 ^ 31) := by
  intro request
  have hshort : ∀ call ∈ List.replicate n (PutCall.u32 40 0), call.Short :=
    fun _ => short_of_mem_words
  have hregion : (encodeAttrs (List.replicate n ((40, [0, 0, 0, 0]) : Attr))).length = n * 8 :=
    length_encodeAttrs_replicate n _
  have hlen : request.len = n * 8 + 20 := by
    have h := len_finish_putEach (fun _ => 0) cap 20 1 4 1 hshort
    rw [requestAttrs_words room, hregion] at h
    exact h.trans (Nat.add_comm _ _)
  have hplain : ∀ a ∈ List.replicate n ((40, [0, 0, 0, 0]) : Attr), Plain a := by
    intro a ha
    rw [List.eq_of_mem_replicate ha]
    exact ⟨by decide, by decide⟩
  have hholds := holds_finish_putEach (fun _ => 0) cap 20 1 4 1 hshort
  rw [requestAttrs_words room] at hholds
  refine ⟨hlen, ?_, ?_⟩
  · rw [← hlen]
    exact nlmsgLen_finish_putEach (fun _ => 0) cap 20 1 4 1 hshort
  · rw [hlen, Nat.add_sub_cancel, ← hregion]
    exact walkAttrs_castInt_iff hplain hholds

end Words

/-- With room for them, `2 ^ 29` words make a request of `2 ^ 32 + 20` bytes whose
`nlmsg_len` says 20, and of which the walk does not yield the attributes. -/
theorem nlmsg_len_wraps :
    let request := (putEach (headed (fun _ => 0) (2 ^ 32 + 20) 20 1 4 1)
      (List.replicate (2 ^ 29) (.u32 40 0))).finish
    request.len = 2 ^ 32 + 20 ∧ ofLE (request.message.take 4) = 20 ∧
      walkAttrs (Memory.ofList request.message) 20 (castInt (request.len - 20)) ≠
        some (List.replicate (2 ^ 29) (40, [0, 0, 0, 0])) := by
  obtain ⟨hlen, hword, hwalk⟩ := @request_words (2 ^ 29) (2 ^ 32 + 20) (by decide)
  exact ⟨hlen, hword, fun h => absurd (hwalk.mp h) (by decide)⟩

end ReKernelX.Client
