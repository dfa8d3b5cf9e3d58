import ReKernelX.Foundation.Netlink

/-!
# Receiving generic netlink requests

The kernel's side of a request: the headers of a datagram, the walk over its
attributes, and the strict validation of each of them against the policy of the
family. What passes is a table of payloads that carries the proof of its
validity; everything else is refused before any handler runs.
-/

set_option autoImplicit false

namespace Netlink

open Bytes

/-! ### Attributes of a request -/

/-- `nla_for_each_attr`: the attributes in order, and what the walk leaves behind
when it meets something that is not an attribute. -/
def splitAttrs (bytes : List UInt8) : List Attr × List UInt8 :=
  let len := ofLE (bytes.take 2)
  if _ok : nlaHdrlen ≤ bytes.length ∧ nlaHdrlen ≤ len ∧ len ≤ bytes.length then
    let rest := splitAttrs (bytes.drop (align4 len))
    ((ofLE ((bytes.drop 2).take 2), (bytes.drop nlaHdrlen).take (len - nlaHdrlen)) :: rest.1,
      rest.2)
  else ([], bytes)
termination_by bytes.length
decreasing_by
  have hpad := le_align4 (ofLE (bytes.take 2))
  simp only [nlaHdrlen] at _ok
  rw [List.length_drop]
  omega

@[simp] theorem splitAttrs_nil : splitAttrs [] = ([], []) := by
  rw [splitAttrs]
  simp [nlaHdrlen]

/-- The type and the length of an attribute fit their fields. -/
def Encodable (a : Attr) : Prop := a.1 < 2 ^ 16 ∧ nlaHdrlen + a.2.length < 2 ^ 16

theorem splitAttrs_encodeAttr {a : Attr} (h : Encodable a) (rest : List UInt8) :
    splitAttrs (encodeAttr a.1 a.2 ++ rest) =
      (a :: (splitAttrs rest).1, (splitAttrs rest).2) := by
  obtain ⟨htype, hlen⟩ := h
  have hsplit : encodeAttr a.1 a.2 ++ rest = leBytes 2 (nlaHdrlen + a.2.length) ++
      (leBytes 2 a.1 ++ (a.2 ++ (List.replicate (align4 (nlaHdrlen + a.2.length) -
        (nlaHdrlen + a.2.length)) 0 ++ rest))) := by
    simp only [encodeAttr, List.append_assoc]
  have hword : ofLE ((encodeAttr a.1 a.2 ++ rest).take 2) = nlaHdrlen + a.2.length := by
    rw [hsplit, List.take_left' (length_leBytes _ _), ofLE_leBytes_of_lt hlen]
  have hkind : ofLE (((encodeAttr a.1 a.2 ++ rest).drop 2).take 2) = a.1 := by
    rw [hsplit, List.drop_left' (length_leBytes _ _), List.take_left' (length_leBytes _ _),
      ofLE_leBytes_of_lt htype]
  have hpayload : ((encodeAttr a.1 a.2 ++ rest).drop nlaHdrlen).take a.2.length = a.2 := by
    rw [hsplit, ← List.append_assoc, List.drop_left' (by simp [nlaHdrlen]), List.take_left' rfl]
  have hrest : (encodeAttr a.1 a.2 ++ rest).drop (align4 (nlaHdrlen + a.2.length)) = rest :=
    List.drop_left' (length_encodeAttr _ _)
  have hpad := le_align4 (nlaHdrlen + a.2.length)
  have hroom : nlaHdrlen + a.2.length ≤ (encodeAttr a.1 a.2 ++ rest).length := by
    rw [List.length_append, length_encodeAttr]
    omega
  rw [splitAttrs, hword, dif_pos ⟨by omega, by omega, hroom⟩, hrest, hkind,
    Nat.add_sub_cancel_left, hpayload]

/-- What was encoded is what the walk finds, with nothing left behind. -/
theorem splitAttrs_encodeAttrs {attrs : List Attr} (h : ∀ a ∈ attrs, Encodable a) :
    splitAttrs (encodeAttrs attrs) = (attrs, []) := by
  induction attrs with
  | nil => exact splitAttrs_nil
  | cons a rest ih =>
    rw [encodeAttrs_cons, splitAttrs_encodeAttr (h a List.mem_cons_self),
      ih fun b hb => h b (List.mem_cons_of_mem a hb)]

/-- An attribute whose length does not even cover its header ends the walk. -/
theorem splitAttrs_of_short {bytes : List UInt8} (h : ofLE (bytes.take 2) < nlaHdrlen) :
    splitAttrs bytes = ([], bytes) := by
  rw [splitAttrs, dif_neg fun hok => by omega]

/-! ### Policies -/

/-- What a policy says about one attribute: `NLA_UNSPEC` for those it does not
list, and the kinds of scalars, strings and nests. -/
inductive NlaPolicy
  | unspec
  | u8
  | u32
  | s32
  | nested
  | nulString (len : ℕ)
  deriving DecidableEq

/-- The type field without its two flag bits. -/
def attrNumber (type : ℕ) : ℕ := type % 2 ^ 14

/-- A payload without the terminator at its end. -/
def dropNul (payload : List UInt8) : List UInt8 :=
  if payload.getLast? = some 0 then payload.dropLast else payload

/-- `validate_nla` under `NL_VALIDATE_STRICT`. The highest bit of the type field
is `NLA_F_NESTED`. -/
def NlaPolicy.accepts (policy : NlaPolicy) (type : ℕ) (payload : List UInt8) : Bool :=
  match policy with
  | .unspec => false
  | .u8 => decide (type < nlaFNested ∧ payload.length = 1)
  | .u32 | .s32 => decide (type < nlaFNested ∧ payload.length = 4)
  | .nested => decide (nlaFNested ≤ type ∧ (payload = [] ∨ nlaHdrlen ≤ payload.length))
  | .nulString len =>
    decide (type < nlaFNested ∧ 0 ∈ payload.take (len + 1) ∧ (dropNul payload).length ≤ len)

/-- The attributes of a request by number, each valid for the policy. -/
structure AttrTable (policy : ℕ → NlaPolicy) where
  payload : ℕ → Option (List UInt8)
  valid : ∀ number bytes, payload number = some bytes →
    ∃ type, attrNumber type = number ∧ (policy number).accepts type bytes = true

/-- The last payload with a number, as `tb[type] = nla` leaves it. -/
def lastPayload (attrs : List Attr) (number : ℕ) : Option (List UInt8) :=
  (attrs.reverse.find? fun a => decide (attrNumber a.1 = number)).map Prod.snd

/-- Whether an attribute passes the strict check of a family. -/
def passes (maxattr : ℕ) (policy : ℕ → NlaPolicy) (a : Attr) : Bool :=
  decide (0 < attrNumber a.1 ∧ attrNumber a.1 ≤ maxattr) &&
    (policy (attrNumber a.1)).accepts a.1 a.2

theorem valid_lastPayload {maxattr : ℕ} {policy : ℕ → NlaPolicy} {attrs : List Attr}
    (h : ∀ a ∈ attrs, passes maxattr policy a = true) (number : ℕ) (bytes : List UInt8)
    (found : lastPayload attrs number = some bytes) :
    ∃ type, attrNumber type = number ∧ (policy number).accepts type bytes = true := by
  obtain ⟨a, ha, rfl⟩ := Option.map_eq_some_iff.mp found
  have hnumber : attrNumber a.1 = number := by simpa using List.find?_some ha
  have hpasses := h a (List.mem_reverse.mp (List.mem_of_find?_eq_some ha))
  rw [passes, Bool.and_eq_true] at hpasses
  exact ⟨a.1, hnumber, hnumber ▸ hpasses.2⟩

/-- `__nla_validate_parse` under `NL_VALIDATE_STRICT`: every attribute has to pass
and nothing may be left behind them. -/
def nlaParseStrict (maxattr : ℕ) (policy : ℕ → NlaPolicy) (bytes : List UInt8) :
    Option (AttrTable policy) :=
  if h : (∀ a ∈ (splitAttrs bytes).1, passes maxattr policy a = true) ∧ (splitAttrs bytes).2 = []
  then some ⟨lastPayload (splitAttrs bytes).1, valid_lastPayload h.1⟩
  else none

section Parse

variable {maxattr : ℕ} {policy : ℕ → NlaPolicy} {attrs : List Attr}

/-- Attributes that all pass are all there is in the table. -/
theorem exists_nlaParseStrict (encodable : ∀ a ∈ attrs, Encodable a)
    (valid : ∀ a ∈ attrs, passes maxattr policy a = true) :
    ∃ table, nlaParseStrict maxattr policy (encodeAttrs attrs) = some table ∧
      table.payload = lastPayload attrs := by
  have hsplit := splitAttrs_encodeAttrs encodable
  have hok : (∀ a ∈ (splitAttrs (encodeAttrs attrs)).1, passes maxattr policy a = true) ∧
      (splitAttrs (encodeAttrs attrs)).2 = [] := by
    rw [hsplit]
    exact ⟨valid, rfl⟩
  exact ⟨_, dif_pos hok, congrArg (fun split => lastPayload split.1) hsplit⟩

/-- One attribute that does not pass is enough to refuse a request. -/
theorem nlaParseStrict_eq_none (encodable : ∀ a ∈ attrs, Encodable a) {a : Attr} (mem : a ∈ attrs)
    (invalid : ¬ passes maxattr policy a = true) :
    nlaParseStrict maxattr policy (encodeAttrs attrs) = none := by
  refine dif_neg fun hok => ?_
  rw [splitAttrs_encodeAttrs encodable] at hok
  exact invalid (hok.1 a mem)

/-- So is something that is not an attribute. -/
theorem nlaParseStrict_of_short {bytes : List UInt8} (nonempty : bytes ≠ [])
    (h : ofLE (bytes.take 2) < nlaHdrlen) : nlaParseStrict maxattr policy bytes = none := by
  refine dif_neg fun hok => ?_
  rw [splitAttrs_of_short h] at hok
  exact nonempty hok.2

end Parse

/-! ### Requests -/

/-- `struct genl_family`, as far as receiving goes. -/
structure GenlFamily where
  id : UInt16
  maxattr : ℕ
  policy : ℕ → NlaPolicy

/-- `netlink_rcv_skb` and `genl_rcv_msg` for a datagram of one message: the command
and the attributes, when the message is a request to the family that passes
validation. -/
def GenlFamily.receive (family : GenlFamily) (datagram : List UInt8) :
    Option (UInt8 × AttrTable family.policy) :=
  let len := ofLE (datagram.take 4)
  let type := ofLE ((datagram.drop 4).take 2)
  let flags := ofLE ((datagram.drop 6).take 2)
  if nlmsgHdrlen + genlHdrlen ≤ len ∧ len ≤ datagram.length ∧ type = family.id.toNat ∧
      flags % 2 = 1 ∧ flags &&& 0x300 ≠ 0x300 then
    (nlaParseStrict family.maxattr family.policy
      ((datagram.take len).drop (nlmsgHdrlen + genlHdrlen))).map fun attrs =>
        (datagram.getD nlmsgHdrlen 0, attrs)
  else none

/-- A request with its own length in the header is received when its attributes
are valid. -/
theorem GenlFamily.receive_genlHeader (family : GenlFamily) (seq pid : ℕ) (cmd version : UInt8)
    (attrs : List UInt8) (short : nlmsgHdrlen + genlHdrlen + attrs.length < 2 ^ 32) :
    family.receive (genlHeader (nlmsgHdrlen + genlHdrlen + attrs.length) family.id.toNat 1 seq pid
      cmd version ++ attrs) =
      (nlaParseStrict family.maxattr family.policy attrs).map fun table => (cmd, table) := by
  set total := nlmsgHdrlen + genlHdrlen + attrs.length with htotal
  set datagram := genlHeader total family.id.toNat 1 seq pid cmd version ++ attrs with hdatagram
  have hlength : datagram.length = total := by
    rw [hdatagram, List.length_append, length_genlHeader]
  have hlen : ofLE (datagram.take 4) = total := by
    rw [hdatagram, genlHeader, List.append_assoc, List.take_left' (length_leBytes _ _),
      ofLE_leBytes_of_lt short]
  have htype : ofLE ((datagram.drop 4).take 2) = family.id.toNat := by
    rw [hdatagram, genlHeader, List.append_assoc, List.drop_left' (length_leBytes _ _),
      List.append_assoc, List.take_left' (length_leBytes _ _),
      ofLE_leBytes_of_lt family.id.toNat_lt]
  have hflags : ofLE ((datagram.drop 6).take 2) = 1 := by
    rw [hdatagram, genlHeader, ← List.append_assoc, List.append_assoc,
      List.drop_left' (by simp), List.append_assoc, List.take_left' (length_leBytes _ _)]
    rfl
  have hcmd : datagram.getD nlmsgHdrlen 0 = cmd := by
    simp [hdatagram, genlHeader, nlmsgHdrlen, leBytes]
  have hattrs : (datagram.take total).drop (nlmsgHdrlen + genlHdrlen) = attrs := by
    rw [← hlength, List.take_length, hdatagram, List.drop_left' (length_genlHeader ..)]
  simp only [GenlFamily.receive, hlen, htype, hflags, hcmd, hattrs]
  exact if_pos ⟨by omega, hlength.ge, trivial, trivial, by decide⟩

end Netlink
