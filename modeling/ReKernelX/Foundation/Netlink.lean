import ReKernelX.Foundation.Bytes

/-!
# Generic netlink messages

The wire format (headers, padded attributes, attributes nested in attributes)
and the kernel's functions that write it into a socket buffer: each put fails
when the buffer's room is exhausted, a nested attribute is opened with an empty
header whose length is set when it is closed, and closing the message sets its
length. A sequence of puts that fits leaves the encoding of its attributes
behind, and a closed nest is the encoding of an attribute.
-/

set_option autoImplicit false

namespace Netlink

open Bytes

/-! ### The wire format -/

/-- `NLMSG_HDRLEN` -/
def nlmsgHdrlen : ℕ := 16

/-- `GENL_HDRLEN` -/
def genlHdrlen : ℕ := 4

/-- `NLA_HDRLEN` -/
def nlaHdrlen : ℕ := 4

/-- `NLA_F_NESTED` -/
def nlaFNested : ℕ := 2 ^ 15

/-- `NLMSG_ERROR` -/
def nlmsgError : ℕ := 2

/-- `NLMSG_DONE` -/
def nlmsgDone : ℕ := 3

/-- The two headers of a generic netlink message. -/
def genlHeader (len type flags seq pid : ℕ) (cmd version : UInt8) : List UInt8 :=
  leBytes 4 len ++ (leBytes 2 type ++ (leBytes 2 flags ++ (leBytes 4 seq ++ (leBytes 4 pid ++
    ([cmd, version] ++ leBytes 2 0)))))

@[simp] theorem length_genlHeader (len type flags seq pid : ℕ) (cmd version : UInt8) :
    (genlHeader len type flags seq pid cmd version).length = nlmsgHdrlen + genlHdrlen := by
  simp [genlHeader, nlmsgHdrlen, genlHdrlen]

/-- One attribute: length, type, payload, and padding to four bytes. -/
def encodeAttr (type : ℕ) (payload : List UInt8) : List UInt8 :=
  leBytes 2 (nlaHdrlen + payload.length) ++ (leBytes 2 type ++ (payload ++
    List.replicate (align4 (nlaHdrlen + payload.length) - (nlaHdrlen + payload.length)) 0))

@[simp] theorem length_encodeAttr (type : ℕ) (payload : List UInt8) :
    (encodeAttr type payload).length = align4 (nlaHdrlen + payload.length) := by
  have hpad := le_align4 (nlaHdrlen + payload.length)
  simp only [encodeAttr, List.length_append, length_leBytes, List.length_replicate, nlaHdrlen]
    at hpad ⊢
  omega

/-- An attribute before it is written: its type and its payload. -/
abbrev Attr := ℕ × List UInt8

/-- Attributes one after another. -/
def encodeAttrs (attrs : List Attr) : List UInt8 := attrs.flatMap fun a => encodeAttr a.1 a.2

@[simp] theorem encodeAttrs_nil : encodeAttrs [] = [] := rfl

theorem encodeAttrs_cons (a : Attr) (rest : List Attr) :
    encodeAttrs (a :: rest) = encodeAttr a.1 a.2 ++ encodeAttrs rest := List.flatMap_cons

theorem encodeAttrs_singleton (type : ℕ) (payload : List UInt8) :
    encodeAttrs [(type, payload)] = encodeAttr type payload := by
  rw [encodeAttrs_cons, encodeAttrs_nil, List.append_nil]

theorem length_encodeAttrs_mod (attrs : List Attr) : (encodeAttrs attrs).length % 4 = 0 := by
  induction attrs with
  | nil => rfl
  | cons a rest ih =>
    have hattr := align4_mod (nlaHdrlen + a.2.length)
    rw [encodeAttrs_cons, List.length_append, length_encodeAttr]
    omega

/-- What a reader finds at an attribute: its length, its type and its payload. -/
theorem read_of_holds_encodeAttr {m : Memory} {pos type : ℕ} {payload : List UInt8}
    (h : Holds m pos (encodeAttr type payload)) (short : nlaHdrlen + payload.length < 2 ^ 16)
    (htype : type < 2 ^ 16) :
    readWord m pos 2 = some (nlaHdrlen + payload.length) ∧ readWord m (pos + 2) 2 = some type ∧
      Holds m (pos + nlaHdrlen) payload := by
  rw [encodeAttr, holds_append, holds_append, holds_append, length_leBytes, length_leBytes] at h
  obtain ⟨hlen, hty, hpayload, -⟩ := h
  exact ⟨readWord_of_holds hlen (by omega), readWord_of_holds hty (by omega), hpayload⟩

/-! ### Writing messages -/

/-- A socket buffer: what was written, and how much there is room for. -/
structure SkBuff where
  data : List UInt8
  size : ℕ

/-- `nla_total_size` -/
def nlaTotalSize (payload : ℕ) : ℕ := align4 (nlaHdrlen + payload)

/-- `genlmsg_new`: the requested room behind the headers and whatever the
allocator gives on top, or nothing when the allocation fails. -/
def genlmsgNew (payload : ℕ) (spare : Option ℕ) : Option SkBuff :=
  spare.map fun spare => ⟨[], nlmsgHdrlen + genlHdrlen + payload + spare⟩

/-- `genlmsg_put` without port, sequence number and flags -/
def genlmsgPut (skb : SkBuff) (family : ℕ) (cmd version : UInt8) : Option SkBuff :=
  if skb.data.length + (nlmsgHdrlen + genlHdrlen) ≤ skb.size then
    some { skb with
      data := skb.data ++ genlHeader (nlmsgHdrlen + genlHdrlen) family 0 0 0 cmd version }
  else none

/-- `genlmsg_end` of the message at the start of the buffer -/
def genlmsgEnd (skb : SkBuff) : SkBuff :=
  { skb with data := leBytes 4 skb.data.length ++ skb.data.drop 4 }

/-- `nla_put` -/
def nlaPut (type : ℕ) (payload : List UInt8) (skb : SkBuff) : Option SkBuff :=
  if skb.data.length + nlaTotalSize payload.length ≤ skb.size then
    some { skb with data := skb.data ++ encodeAttr type payload }
  else none

/-- Puts joined by `||`, stopping at the first that fails. -/
def nlaPutEach : List Attr → SkBuff → Option SkBuff
  | [], skb => some skb
  | a :: rest, skb => (nlaPut a.1 a.2 skb).bind (nlaPutEach rest)

/-- `nla_nest_start`: the buffer, and where the nest begins -/
def nlaNestStart (skb : SkBuff) (type : ℕ) : Option (SkBuff × ℕ) :=
  (nlaPut (type ||| nlaFNested) [] skb).map fun started => (started, skb.data.length)

/-- `nla_nest_end`: the length of the nest is everything written since -/
def nlaNestEnd (skb : SkBuff) (start : ℕ) : SkBuff :=
  { skb with
    data := skb.data.take start ++
      (leBytes 2 (skb.data.length - start) ++ skb.data.drop (start + 2)) }

/-- A nest around what the body writes. -/
def nlaNest (type : ℕ) (body : SkBuff → Option SkBuff) (skb : SkBuff) : Option SkBuff := do
  let (skb, start) ← nlaNestStart skb type
  let skb ← body skb
  return nlaNestEnd skb start

/-- Given the room for them, the operation appends exactly these bytes. -/
def Appends (op : SkBuff → Option SkBuff) (bytes : List UInt8) : Prop :=
  ∀ skb : SkBuff, skb.data.length + bytes.length ≤ skb.size →
    op skb = some { skb with data := skb.data ++ bytes }

theorem nlaPut_appends (type : ℕ) (payload : List UInt8) :
    Appends (nlaPut type payload) (encodeAttr type payload) := by
  intro skb fits
  rw [length_encodeAttr] at fits
  exact if_pos fits

theorem nlaPutEach_appends (attrs : List Attr) :
    Appends (nlaPutEach attrs) (encodeAttrs attrs) := by
  induction attrs with
  | nil =>
    intro skb _
    simp [nlaPutEach]
  | cons a rest ih =>
    intro skb fits
    rw [encodeAttrs_cons, List.length_append] at fits
    have hput := nlaPut_appends a.1 a.2 skb (by omega)
    have hrest := ih { skb with data := skb.data ++ encodeAttr a.1 a.2 }
      (by simp only [List.length_append]; omega)
    rw [nlaPutEach, hput, Option.bind_some, hrest, encodeAttrs_cons, List.append_assoc]

/-- Closing a nest around aligned content makes it an attribute. -/
theorem nlaNestEnd_eq (before content : List UInt8) (type size : ℕ)
    (aligned : content.length % 4 = 0) :
    nlaNestEnd ⟨before ++ (encodeAttr type [] ++ content), size⟩ before.length =
      ⟨before ++ encodeAttr type content, size⟩ := by
  have hlen : (before ++ (encodeAttr type [] ++ content)).length - before.length =
      nlaHdrlen + content.length := by
    rw [List.length_append, List.length_append, length_encodeAttr, Nat.add_sub_cancel_left]
    rfl
  have hempty : encodeAttr type [] = leBytes 2 nlaHdrlen ++ leBytes 2 type := by
    simp [encodeAttr, align4, nlaHdrlen]
  have hpad : align4 (nlaHdrlen + content.length) - (nlaHdrlen + content.length) = 0 := by
    rw [align4_of_dvd (by rw [nlaHdrlen]; omega), Nat.sub_self]
  rw [nlaNestEnd, hlen, List.take_left, ← List.drop_drop, List.drop_left, hempty,
    List.append_assoc, List.drop_append_of_le_length (by simp), encodeAttr, hpad]
  simp [List.drop_of_length_le]

theorem nlaNest_appends {type : ℕ} {body : SkBuff → Option SkBuff} {content : List UInt8}
    (hbody : Appends body content) (aligned : content.length % 4 = 0) :
    Appends (nlaNest type body) (encodeAttr (type ||| nlaFNested) content) := by
  intro skb fits
  have hsize : (encodeAttr (type ||| nlaFNested) content).length =
      (encodeAttr (type ||| nlaFNested) []).length + content.length := by
    rw [length_encodeAttr, length_encodeAttr, align4_of_dvd (by rw [nlaHdrlen]; omega)]
    rfl
  rw [hsize] at fits
  have hstart : nlaNestStart skb type =
      some ({ skb with data := skb.data ++ encodeAttr (type ||| nlaFNested) [] },
        skb.data.length) := by
    rw [nlaNestStart, nlaPut_appends _ _ _ (by omega), Option.map_some]
  have hcontent := hbody { skb with data := skb.data ++ encodeAttr (type ||| nlaFNested) [] }
    (by simp only [List.length_append]; omega)
  rw [nlaNest, hstart]
  simp only [Option.bind_eq_bind, Option.bind_some, hcontent, List.append_assoc,
    nlaNestEnd_eq _ _ _ _ aligned]
  rfl

/-- Closing a message leaves its header with the final length. -/
theorem genlmsgEnd_eq (len family size : ℕ) (cmd version : UInt8) (attrs : List UInt8) :
    genlmsgEnd ⟨genlHeader len family 0 0 0 cmd version ++ attrs, size⟩ =
      ⟨genlHeader (nlmsgHdrlen + genlHdrlen + attrs.length) family 0 0 0 cmd version ++ attrs,
        size⟩ := by
  rw [genlmsgEnd]
  simp only [List.length_append, length_genlHeader]
  rw [List.drop_append_of_le_length (by simp [nlmsgHdrlen, genlHdrlen])]
  simp [genlHeader]

end Netlink
