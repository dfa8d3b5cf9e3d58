import ReKernelX.Client.Builder
import ReKernelX.Client.Connection
import ReKernelX.Client.Decoder

/-!
# Resolving the family

`resolve_family_group` asks the controller of generic netlink for the family by
name and takes two numbers from the reply: the id of the family, and the id of
the multicast group called `events`. The groups are nested two levels deep, and
the name of a group is compared with `strcmp`, which looks at the bytes and not
at the length of the attribute.

On every well-formed reply the result is what looking up the name among the
groups gives. On arbitrary bytes the reader ends and stays within seven bytes of
what was received, the length of `events` with its terminator, unless the length in
the header is one of the twenty from `2 ^ 31` on: then a subtraction of `int`s wraps,
and nothing limits the walk over the attributes to the datagram.
-/

set_option autoImplicit false

namespace ReKernelX.Client

open Bytes Netlink

/-! ### Numbers and names -/

/-- `GENL_ID_CTRL` -/
def genlIdCtrl : ℕ := 16

/-- `CTRL_CMD_GETFAMILY` -/
def ctrlCmdGetfamily : UInt8 := 3

def ctrlAttrFamilyId : ℕ := 1
def ctrlAttrFamilyName : ℕ := 2
def ctrlAttrMcastGroups : ℕ := 7
def ctrlAttrMax : ℕ := 10

def ctrlAttrMcastGrpName : ℕ := 1
def ctrlAttrMcastGrpId : ℕ := 2
def ctrlAttrMcastGrpMax : ℕ := 2

/-- The bytes of an ASCII literal. -/
def ascii (s : String) : List UInt8 := s.toList.map fun c => UInt8.ofNat c.toNat

/-- `RKX_GENL_FAMILY_NAME` -/
def rkxGenlFamilyName : CString := ⟨ascii "rekernel_x2", by decide⟩

/-- `RKX_GENL_MCGRP_NAME` -/
def rkxGenlMcgrpName : CString := ⟨ascii "events", by decide⟩

/-! ### The request -/

/-- `name_len` -/
def familyNameLen : UInt16 := UInt16.ofNat (rkxGenlFamilyName.strlen + 1)

/-- `attr_len` -/
def familyAttrLen : UInt16 := UInt16.ofNat nlaHdrlen + familyNameLen

/-- `total` -/
def familyTotal : UInt16 :=
  UInt16.ofNat (nlmsgHdrlen + genlHdrlen + align4 familyAttrLen.toNat)

/-- The stores into `buf`, in their order. -/
def familyRequestWrites (seq : UInt32) : List Write :=
  [(0, leBytes 4 familyTotal.toNat), (4, leBytes 2 genlIdCtrl), (6, leBytes 2 nlmFRequest),
    (8, leBytes 4 seq.toNat), (nlmsgHdrlen, [ctrlCmdGetfamily]), (nlmsgHdrlen + 1, [1]),
    (nlmsgHdrlen + genlHdrlen, leBytes 2 familyAttrLen.toNat),
    (nlmsgHdrlen + genlHdrlen + 2, leBytes 2 ctrlAttrFamilyName),
    (nlmsgHdrlen + genlHdrlen + nlaHdrlen, rkxGenlFamilyName.withNul.take familyNameLen.toNat)]

/-- The bytes handed to `sendto`: the first `total` of a buffer that was cleared. -/
def familyRequest (seq : UInt32) : List UInt8 :=
  (List.range familyTotal.toNat).map
    ((familyRequestWrites seq).foldl (fun mem w => w.apply mem) fun _ => 0)

/-- The request is a message to the controller that carries the name. -/
theorem familyRequest_eq (seq : UInt32) :
    familyRequest seq = genlHeader 36 genlIdCtrl nlmFRequest seq.toNat 0 ctrlCmdGetfamily 1 ++
      encodeAttr ctrlAttrFamilyName rkxGenlFamilyName.withNul := rfl

/-! ### Reading the reply -/

/-- `rkx_nla_get` of a type of `size` bytes: a missing or short attribute leaves the
variable as it was. -/
def rkxNlaGetAs {α : Type} (size : ℕ) (ofWord : ℕ → α) (m : Memory) (nla : Option ℕ) (out : α) :
    Option α :=
  match nla with
  | none => some out
  | some nla =>
    (nlaLen m nla).bind fun len =>
      if len < size then some out else (readWord m (nla + nlaHdrlen) size).map ofWord

/-- `rkx_nla_get` of a `uint16_t` -/
def rkxNlaGetU16 : Memory → Option ℕ → UInt16 → Option UInt16 := rkxNlaGetAs 2 UInt16.ofNat

/-- `rkx_nla_get` of a `uint32_t` -/
def rkxNlaGetU32 : Memory → Option ℕ → UInt32 → Option UInt32 := rkxNlaGetAs 4 UInt32.ofNat

/-- `strcmp(s, literal) == 0` for the string at an address: it stops at the first byte that
differs, and behind the literal it wants a terminator. -/
def strcmpEq (m : Memory) (a : ℕ) : List UInt8 → Option Bool
  | [] => (m a).map fun b => decide (b = 0)
  | c :: literal => (m a).bind fun b => if b = c then strcmpEq m (a + 1) literal else some false

/-- The body of the loop over the groups: the id of the group if it is the one, nothing
if the loop goes on. -/
def matchGroup (m : Memory) (mcgrp : ℕ) : Option (Option UInt32) := do
  let tb ← rkxNlaParseNested m ctrlAttrMcastGrpMax mcgrp
  match tb ctrlAttrMcastGrpName, tb ctrlAttrMcastGrpId with
  | some name, some id => do
    let same ← strcmpEq m (name + nlaHdrlen) rkxGenlMcgrpName.bytes
    if same then (rkxNlaGetU32 m (some id) 0).map some else return none
  | _, _ => return none

/-- `nla_for_each_nested` over the groups, which a group of the name ends. -/
def findGroup (m : Memory) (nla : ℕ) (rem : ℤ) : Option UInt32 :=
  if _enough : (nlaHdrlen : ℤ) ≤ rem then
    match readWord m nla 2 with
    | none => none
    | some len =>
      if _ok : nlaHdrlen ≤ len ∧ (len : ℤ) ≤ rem then
        match matchGroup m nla with
        | none => none
        | some (some gid) => some gid
        | some none => findGroup m (nla + align4 len) (rem - align4 len)
      else some 0
  else some 0
termination_by rem.toNat
decreasing_by
  have hpos := le_align4 len
  simp only [nlaHdrlen] at _enough _ok
  omega

/-- The group id from the table of the reply. -/
def groupOf (m : Memory) (tb : AttrTable) : Option UInt32 :=
  match tb ctrlAttrMcastGroups with
  | none => some 0
  | some groups => (nlaLen m groups).bind fun len => findGroup m (groups + nlaHdrlen) len

/-- `payload_len` -/
def familyPayloadLen (len : ℕ) (rlen : ℤ) : ℤ :=
  subInt (min (castInt len) rlen) (nlmsgHdrlen + genlHdrlen : ℕ)

/-- The ids in a reply of `rlen` bytes, `0` for those that are missing; nothing if the reply is
too short or an error, `none` for a read that hits unmapped memory. -/
def familyIds (m : Memory) (rlen : ℤ) : Option (Option (UInt16 × UInt32)) :=
  if rlen < nlmsgHdrlen then some none
  else do
    let type ← readWord m 4 2
    if type = nlmsgError then return none
    else
      let len ← readWord m 0 4
      let tb ← rkxNlaParse m ctrlAttrMax (nlmsgHdrlen + genlHdrlen) (familyPayloadLen len rlen)
      let fid ← rkxNlaGetU16 m (tb ctrlAttrFamilyId) 0
      let gid ← groupOf m tb
      return some (fid, gid)

/-- `resolve_family_group` behind the receive. -/
def resolveReply (m : Memory) (rlen : ℤ) : Option (Option (UInt16 × UInt32)) :=
  (familyIds m rlen).map resolveFamilyGroup

/-! ### Well-formed replies -/

/-- A multicast group: its number in the list, its name and its id. -/
structure McastGroup where
  number : ℕ
  name : CString
  id : UInt32

/-- The attribute the controller writes for a group. -/
def McastGroup.attr (g : McastGroup) : Attr :=
  (g.number, encodeAttrs
    [(ctrlAttrMcastGrpId, leBytes 4 g.id.toNat), (ctrlAttrMcastGrpName, g.name.withNul)])

/-- The id of the first group called `events`, `0` without one. -/
def eventsGroup (groups : List McastGroup) : UInt32 :=
  ((groups.find? fun g => decide (g.name = rkxGenlMcgrpName)).map McastGroup.id).getD 0

variable {m : Memory}

/-- Comparing strings compares their bytes. -/
theorem strcmpEq_of_holds {bytes literal : List UInt8} (nul_free : 0 ∉ bytes)
    (nul_free' : 0 ∉ literal) {a : ℕ} (h : Holds m a (bytes ++ [0])) :
    strcmpEq m a literal = some (decide (bytes = literal)) := by
  induction literal generalizing bytes a with
  | nil =>
    cases bytes with
    | nil =>
      have hbyte : m a = some 0 := h.1
      simp [strcmpEq, hbyte]
    | cons b bytes =>
      have hbyte : m a = some b := h.1
      have hb : b ≠ 0 := fun hzero => nul_free (hzero ▸ List.mem_cons_self)
      simp [strcmpEq, hbyte, hb]
  | cons c literal ih =>
    rw [List.mem_cons, not_or] at nul_free'
    cases bytes with
    | nil =>
      have hbyte : m a = some 0 := h.1
      simp [strcmpEq, hbyte, nul_free'.1]
    | cons b bytes =>
      have hbyte : m a = some b := h.1
      rw [List.mem_cons, not_or] at nul_free
      rw [strcmpEq, hbyte, Option.bind_some]
      by_cases hb : b = c
      · rw [if_pos hb, ih nul_free.2 nul_free'.2 h.2]
        simp [hb]
      · rw [if_neg hb]
        simp [hb]

/-- A number that was written is read back. -/
theorem rkxNlaGetAs_of_holds {α : Type} {size : ℕ} {ofWord : ℕ → α} {pos type n : ℕ}
    (h : Holds m pos (encodeAttr type (leBytes size n))) (htype : type < 2 ^ 16)
    (short : nlaHdrlen + size < 2 ^ 16) (fits : n < 256 ^ size) (out : α) :
    rkxNlaGetAs size ofWord m (some pos) out = some (ofWord n) := by
  have hshort : nlaHdrlen + (leBytes size n).length < 2 ^ 16 := by rwa [length_leBytes]
  have hword := readWord_of_holds (read_of_holds_encodeAttr h hshort htype).2.2 fits
  rw [rkxNlaGetAs]
  simp only [nlaLen_of_holds h hshort htype, length_leBytes, Option.bind_some, lt_irrefl,
    if_false, hword, Option.map_some]

/-- The loop's body at a group. -/
theorem matchGroup_of_holds {g : McastGroup} {pos : ℕ}
    (h : Holds m pos (encodeAttr g.attr.1 g.attr.2)) (number : g.number < 2 ^ 16)
    (short : nlaHdrlen + g.attr.2.length < 2 ^ 16) :
    matchGroup m pos = some (if g.name = rkxGenlMcgrpName then some g.id else none) := by
  have hreadable : Readable ctrlAttrMcastGrpMax
      [(ctrlAttrMcastGrpId, leBytes 4 g.id.toNat), (ctrlAttrMcastGrpName, g.name.withNul)] :=
    ⟨show ∀ type ∈ [2, 1], type < 2 ^ 16 ∧ 0 < nlaType type ∧ nlaType type ≤ 2 by decide,
      show ([2, 1].map nlaType).Nodup by decide, Nat.lt_of_le_of_lt (Nat.le_add_left _ _) short⟩
  obtain ⟨tb, hparse, hfinds⟩ := rkxNlaParseNested_encodeAttrs hreadable h short number
  obtain ⟨id, hid, hidAt⟩ := hfinds.found _ List.mem_cons_self
  obtain ⟨name, hname, hnameAt⟩ :=
    hfinds.found _ (List.mem_cons_of_mem _ (List.mem_singleton_self _))
  have hid' : tb ctrlAttrMcastGrpId = some id := hid
  have hname' : tb ctrlAttrMcastGrpName = some name := hname
  have hgid : rkxNlaGetU32 m (some id) 0 = some g.id := by
    rw [rkxNlaGetU32, rkxNlaGetAs_of_holds hidAt (show 2 < 2 ^ 16 by decide) (by decide)
      g.id.toNat_lt, UInt32.ofNat_toNat]
  -- the name is inside its group, so it is short as well
  have hfits : nlaHdrlen + g.name.withNul.length < 2 ^ 16 := by
    have hpad := le_align4 (nlaHdrlen + g.name.withNul.length)
    have hshort := hreadable.short
    rw [encodeAttrs_cons, encodeAttrs_singleton, List.length_append, length_encodeAttr,
      length_encodeAttr] at hshort
    omega
  have hnul := (read_of_holds_encodeAttr hnameAt hfits (show 1 < 2 ^ 16 by decide)).2.2
  have hcmp := strcmpEq_of_holds g.name.nul_free rkxGenlMcgrpName.nul_free hnul
  rw [matchGroup, hparse, Option.bind_eq_bind, Option.bind_some, hname', hid']
  simp only [hcmp, Option.bind_eq_bind, Option.bind_some, CString.bytes_inj, hgid,
    Option.map_some, decide_eq_true_eq]
  split_ifs <;> rfl

/-- The loop over the groups of a reply. -/
theorem findGroup_of_holds {groups : List McastGroup} (numbers : ∀ g ∈ groups, g.number < 2 ^ 16)
    (short : (encodeAttrs (groups.map McastGroup.attr)).length < 2 ^ 16) {pos : ℕ}
    (h : Holds m pos (encodeAttrs (groups.map McastGroup.attr))) :
    findGroup m pos (encodeAttrs (groups.map McastGroup.attr)).length =
      some (eventsGroup groups) := by
  induction groups generalizing pos with
  | nil =>
    rw [findGroup, dif_neg (by decide)]
    rfl
  | cons g rest ih =>
    rw [List.map_cons, encodeAttrs_cons, holds_append] at h
    rw [List.map_cons, encodeAttrs_cons, List.length_append, length_encodeAttr] at short ⊢
    rw [List.forall_mem_cons] at numbers
    have hpad := le_align4 (nlaHdrlen + g.attr.2.length)
    have hfits : nlaHdrlen + g.attr.2.length < 2 ^ 16 := by omega
    have hlen := (read_of_holds_encodeAttr h.1 hfits numbers.1).1
    rw [findGroup, dif_pos (by omega), hlen]
    simp only
    rw [dif_pos ⟨Nat.le_add_right _ _, by omega⟩, matchGroup_of_holds h.1 numbers.1 hfits]
    by_cases hname : g.name = rkxGenlMcgrpName
    · simp only [if_pos hname]
      simp [eventsGroup, hname]
    · simp only [if_neg hname]
      have hrest := ih numbers.2 (by omega) h.2
      rw [length_encodeAttr] at hrest
      rw [Nat.cast_add, add_sub_cancel_left, hrest]
      simp [eventsGroup, hname]

/-- What a reply says about the family: its id if it is there, and its groups. -/
structure FamilyReply (fid : UInt16) (groups : List McastGroup) (attrs : List Attr) : Prop where
  readable : Readable ctrlAttrMax attrs
  numbers : ∀ g ∈ groups, g.number < 2 ^ 16
  familyId : (ctrlAttrFamilyId, leBytes 2 fid.toNat) ∈ attrs ∨
    fid = 0 ∧ ctrlAttrFamilyId ∉ (attrs.map Prod.fst).map nlaType
  mcastGroups : (ctrlAttrMcastGroups, encodeAttrs (groups.map McastGroup.attr)) ∈ attrs ∨
    groups = [] ∧ ctrlAttrMcastGroups ∉ (attrs.map Prod.fst).map nlaType

section Reply

variable {fid : UInt16} {groups : List McastGroup} {attrs : List Attr} {tb : AttrTable}

theorem length_encodeAttr_le_of_mem {a : Attr} (mem : a ∈ attrs) :
    nlaHdrlen + a.2.length ≤ (encodeAttrs attrs).length := by
  obtain ⟨before, after, rfl⟩ := List.append_of_mem mem
  have hpad := le_align4 (nlaHdrlen + a.2.length)
  simp only [encodeAttrs, List.flatMap_append, List.flatMap_cons, List.length_append,
    length_encodeAttr]
  omega

theorem FamilyReply.fid_eq (reply : FamilyReply fid groups attrs) (finds : Finds m tb attrs) :
    rkxNlaGetU16 m (tb ctrlAttrFamilyId) 0 = some fid := by
  rcases reply.familyId with hmem | ⟨rfl, habsent⟩
  · obtain ⟨pos, hpos, hat⟩ := finds.found _ hmem
    have hpos' : tb ctrlAttrFamilyId = some pos := hpos
    rw [hpos', rkxNlaGetU16, rkxNlaGetAs_of_holds hat (show 1 < 2 ^ 16 by decide) (by decide)
      fid.toNat_lt, UInt16.ofNat_toNat]
  · rw [finds.absent _ habsent]
    rfl

theorem FamilyReply.gid_eq (reply : FamilyReply fid groups attrs) (finds : Finds m tb attrs) :
    groupOf m tb = some (eventsGroup groups) := by
  rw [groupOf]
  rcases reply.mcastGroups with hmem | ⟨rfl, habsent⟩
  · obtain ⟨pos, hpos, hat⟩ := finds.found _ hmem
    have hpos' : tb ctrlAttrMcastGroups = some pos := hpos
    have hshort := (length_encodeAttr_le_of_mem hmem).trans_lt reply.readable.short
    have htype : ctrlAttrMcastGroups < 2 ^ 16 := by decide
    rw [hpos']
    simp only [nlaLen_of_holds hat hshort htype, Option.bind_some]
    exact findGroup_of_holds reply.numbers (Nat.lt_of_le_of_lt (Nat.le_add_left _ _) hshort)
      (read_of_holds_encodeAttr hat hshort htype).2.2
  · rw [finds.absent _ habsent]
    rfl

/-- The headers of a reply. -/
theorem read_of_holds_genlHeader {len type flags seq pid : ℕ} {cmd version : UInt8}
    {body : List UInt8} (h : Holds m 0 (genlHeader len type flags seq pid cmd version ++ body))
    (hlen : len < 2 ^ 32) (htype : type < 2 ^ 16) :
    readWord m 0 4 = some len ∧ readWord m 4 2 = some type ∧
      Holds m (nlmsgHdrlen + genlHdrlen) body := by
  rw [holds_append, length_genlHeader, genlHeader, holds_append, holds_append, length_leBytes] at h
  obtain ⟨⟨hlenAt, htypeAt, -⟩, hbody⟩ := h
  refine ⟨readWord_of_holds hlenAt (by omega), readWord_of_holds ?_ (by omega), ?_⟩
  · simpa using htypeAt
  · simpa using hbody

/-- Where the difference does not wrap. -/
theorem familyPayloadLen_of_le {len : ℕ} {rlen : ℤ} (buffer : rlen ≤ 4096)
    (low : -2 ^ 31 + 20 ≤ min (castInt len) rlen) :
    familyPayloadLen len rlen = min (castInt len) rlen - 20 := by
  have hhigh := min_le_right (castInt len) rlen
  exact Int.bmod_eq_of_le (by rw [nlmsgHdrlen, genlHdrlen]; omega)
    (by rw [nlmsgHdrlen, genlHdrlen]; omega)

/-- **The family is resolved by name.** The request is a message to the controller that carries
the name. For every well-formed reply that fits the buffer of 4096 bytes, with whatever other
attributes: the result has the id of the family and that of the first group called `events`, and
there is none if one of them is missing or zero. -/
theorem family_reply_resolved (m : Memory) {fid : UInt16} {groups : List McastGroup}
    {attrs : List Attr} (reply : FamilyReply fid groups attrs)
    (fits : 20 + (encodeAttrs attrs).length ≤ 4096) {type : ℕ} (flags seq pid : ℕ)
    (cmd version : UInt8) (htype : type < 2 ^ 16) (notError : type ≠ nlmsgError)
    (received : Holds m 0 (genlHeader (20 + (encodeAttrs attrs).length) type flags seq pid cmd
      version ++ encodeAttrs attrs)) :
    (∀ gSeq : UInt32, familyRequest gSeq =
      genlHeader 36 genlIdCtrl nlmFRequest gSeq.toNat 0 ctrlCmdGetfamily 1 ++
        encodeAttr ctrlAttrFamilyName rkxGenlFamilyName.withNul) ∧
    resolveReply m (20 + (encodeAttrs attrs).length : ℕ) =
      some (if fid ≠ 0 ∧ eventsGroup groups ≠ 0 then some (fid, eventsGroup groups) else none) := by
  refine ⟨familyRequest_eq, ?_⟩
  obtain ⟨hlen, htypeAt, hbody⟩ := read_of_holds_genlHeader received (by omega) htype
  obtain ⟨tb, hparse, hfinds⟩ := rkxNlaParse_encodeAttrs reply.readable hbody
  have hlong : ¬ ((20 + (encodeAttrs attrs).length : ℕ) : ℤ) < (nlmsgHdrlen : ℕ) := by
    rw [nlmsgHdrlen]
    omega
  have hpayload : familyPayloadLen (20 + (encodeAttrs attrs).length)
      ((20 + (encodeAttrs attrs).length : ℕ) : ℤ) = (encodeAttrs attrs).length := by
    have hcast := castInt_of_lt (show 20 + (encodeAttrs attrs).length < 2 ^ 31 by omega)
    rw [familyPayloadLen_of_le (by omega) (by rw [hcast]; omega), hcast, min_self]
    omega
  rw [resolveReply, familyIds, if_neg hlong, htypeAt, Option.bind_eq_bind, Option.bind_some,
    if_neg notError, hlen, Option.bind_some]
  simp only [hpayload, hparse, Option.bind_eq_bind, Option.bind_some, reply.fid_eq hfinds,
    reply.gid_eq hfinds]
  change some (resolveFamilyGroup (some (fid, eventsGroup groups))) = _
  rw [resolveFamilyGroup, Option.filter_some]
  simp

/-- The attributes of a reply for the family 21 with the group 5. -/
def eventsAttrs : List Attr :=
  [(ctrlAttrFamilyId, leBytes 2 21),
    (ctrlAttrMcastGroups, encodeAttrs ([⟨1, rkxGenlMcgrpName, 5⟩].map McastGroup.attr))]

/-- That reply. -/
def eventsReply : List UInt8 := genlHeader 56 genlIdCtrl 0 1 0 1 1 ++ encodeAttrs eventsAttrs

theorem family_reply_resolved_events :
    resolveReply (Memory.ofList eventsReply) 56 = some (some (21, 5)) := by
  have hreply : FamilyReply 21 [⟨1, rkxGenlMcgrpName, 5⟩] eventsAttrs :=
    ⟨⟨by decide, by decide, by decide⟩, by decide, .inl List.mem_cons_self,
      .inl (List.mem_cons_of_mem _ (List.mem_singleton_self _))⟩
  exact (family_reply_resolved _ hreply (by decide) 0 1 0 1 1 (by decide) (by decide)
    (holds_ofList [] _)).2

end Reply

/-! ### Arbitrary bytes -/

/-- `strcmp` looks at no more than the literal and one byte. -/
theorem exists_strcmpEq {a : ℕ} {literal : List UInt8}
    (mapped : Mapped m a (a + (literal.length + 1))) :
    ∃ same, strcmpEq m a literal = some same := by
  induction literal generalizing a with
  | nil =>
    obtain ⟨b, hb⟩ := Option.isSome_iff_exists.mp (mapped a le_rfl (by simp))
    exact ⟨decide (b = 0), by rw [strcmpEq, hb, Option.map_some]⟩
  | cons c literal ih =>
    rw [List.length_cons] at mapped
    obtain ⟨b, hb⟩ := Option.isSome_iff_exists.mp (mapped a le_rfl (by omega))
    rw [strcmpEq, hb, Option.bind_some]
    by_cases hsame : b = c
    · rw [if_pos hsame]
      exact ih (mapped.mono (Nat.le_succ a) (by omega))
    · exact ⟨false, if_neg hsame⟩

variable {lo hi : ℕ}

theorem AttrInside.exists_rkxNlaGetAs {α : Type} {nla : ℕ} (inside : AttrInside m lo hi nla)
    (mapped : Mapped m lo hi) (size : ℕ) (ofWord : ℕ → α) (out : α) :
    ∃ value, rkxNlaGetAs size ofWord m (some nla) out = some value := by
  obtain ⟨len, hlen, hlo, hhi⟩ := inside.exists_nlaLen mapped
  rw [rkxNlaGetAs]
  simp only [hlen, Option.bind_some]
  by_cases hshort : len < size
  · exact ⟨out, if_pos hshort⟩
  · obtain ⟨word, hword, -⟩ := Mapped.exists_readWord (a := nla + nlaHdrlen) (k := size)
      (mapped.mono hlo (by omega))
    exact ⟨ofWord word, by rw [if_neg hshort, hword, Option.map_some]⟩

/-- A group inside: its name may be looked at behind its end. -/
theorem AttrInside.exists_matchGroup {mcgrp : ℕ} (inside : AttrInside m lo hi mcgrp)
    (mapped : Mapped m lo (hi + 7)) : ∃ found, matchGroup m mcgrp = some found := by
  have hmapped : Mapped m lo hi := mapped.mono le_rfl (Nat.le_add_right _ _)
  obtain ⟨tb, hparse, hinside⟩ := inside.exists_rkxNlaParseNested hmapped ctrlAttrMcastGrpMax
  rw [matchGroup, hparse, Option.bind_eq_bind, Option.bind_some]
  cases hname : tb ctrlAttrMcastGrpName with
  | none => exact ⟨none, rfl⟩
  | some name =>
    cases hid : tb ctrlAttrMcastGrpId with
    | none => exact ⟨none, rfl⟩
    | some id =>
      -- the header of the name is inside, the comparison may start at its very end
      obtain ⟨hlo, len, -, hlen, hhi⟩ := hinside _ _ hname
      have hliteral : rkxGenlMcgrpName.bytes.length + 1 = 7 := rfl
      have hcompared : Mapped m (name + nlaHdrlen)
          (name + nlaHdrlen + (rkxGenlMcgrpName.bytes.length + 1)) :=
        mapped.mono (hlo.trans (Nat.le_add_right _ _)) (by omega)
      obtain ⟨same, hsame⟩ := exists_strcmpEq hcompared
      obtain ⟨gid, hgid⟩ :=
        (hinside _ _ hid).exists_rkxNlaGetAs hmapped 4 UInt32.ofNat (0 : UInt32)
      have hgid' : rkxNlaGetU32 m (some id) 0 = some gid := hgid
      simp only [hsame, Option.bind_eq_bind, Option.bind_some, hgid', Option.map_some]
      cases same with
      | false => exact ⟨none, rfl⟩
      | true => exact ⟨some gid, rfl⟩

/-- The loop over the groups. -/
theorem exists_findGroup (mapped : Mapped m lo (hi + 7)) (nla : ℕ) (rem : ℤ) (start : lo ≤ nla)
    (fits : nla + rem ≤ hi) : ∃ gid, findGroup m nla rem = some gid := by
  fun_induction findGroup m nla rem with
  | case1 nla rem enough hlen =>
    rw [nlaHdrlen] at enough
    obtain ⟨len, hread, -⟩ :=
      Mapped.exists_readWord (k := 2) (mapped.mono start (show nla + 2 ≤ hi + 7 by omega))
    cases hlen.symm.trans hread
  | case2 nla rem enough len hlen ok hmatch =>
    have hinside : AttrInside m lo hi nla := ⟨start, len, hlen, ok.1, by omega⟩
    obtain ⟨found, hfound⟩ := hinside.exists_matchGroup mapped
    cases hmatch.symm.trans hfound
  | case3 nla rem enough len hlen ok gid hmatch => exact ⟨gid, rfl⟩
  | case4 nla rem enough len hlen ok hmatch ih =>
    exact ih (by omega) (by push_cast; omega)
  | case5 nla rem enough len hlen notOk => exact ⟨0, rfl⟩
  | case6 nla rem notEnough => exact ⟨0, rfl⟩

/-- Behind the header of the reply. -/
theorem exists_familyIds_payload {rlen payloadLen : ℤ} (header : 16 ≤ rlen)
    (mapped : Mapped m 0 (rlen.toNat + 7)) (bound : payloadLen ≤ rlen - 20) :
    ∃ ids, ((rkxNlaParse m ctrlAttrMax (nlmsgHdrlen + genlHdrlen) payloadLen).bind fun tb =>
      (rkxNlaGetU16 m (tb ctrlAttrFamilyId) 0).bind fun fid =>
        (groupOf m tb).bind fun gid => pure (some (fid, gid))) = some ids := by
  rw [nlmsgHdrlen, genlHdrlen]
  have hregion : Mapped m (16 + 4) (16 + 4 + payloadLen.toNat) :=
    mapped.mono (Nat.zero_le _) (by omega)
  obtain ⟨tb, hparse, visited, hwalk, hinside, htable⟩ := exists_rkxNlaParse hregion ctrlAttrMax
  -- an entry of the table shows that the payload is not empty, so it ends with the datagram
  have hentry : ∀ type p, tb type = some p →
      AttrInside m 20 (20 + payloadLen.toNat) p ∧ Mapped m 20 (20 + payloadLen.toNat + 7) := by
    intro type p hp
    have entry := entryInside_of_table hinside htable hp
    obtain ⟨hlo, len, -, hhdr, hhi⟩ := entry.inside
    rw [nlaHdrlen] at hhdr
    exact ⟨entry.inside, mapped.mono (Nat.zero_le _) (by omega)⟩
  obtain ⟨fid, hfid⟩ : ∃ fid, rkxNlaGetU16 m (tb ctrlAttrFamilyId) 0 = some fid := by
    cases hp : tb ctrlAttrFamilyId with
    | none => exact ⟨0, rfl⟩
    | some p =>
      obtain ⟨hp', hmapped⟩ := hentry _ _ hp
      exact hp'.exists_rkxNlaGetAs (hmapped.mono le_rfl (Nat.le_add_right _ _)) 2 UInt16.ofNat 0
  obtain ⟨gid, hgid⟩ : ∃ gid, groupOf m tb = some gid := by
    rw [groupOf]
    cases hp : tb ctrlAttrMcastGroups with
    | none => exact ⟨0, rfl⟩
    | some p =>
      obtain ⟨hp', hmapped⟩ := hentry _ _ hp
      obtain ⟨groupsLen, hgroups, hlo, hhi⟩ :=
        hp'.exists_nlaLen (hmapped.mono le_rfl (Nat.le_add_right _ _))
      simp only [hgroups, Option.bind_some]
      exact exists_findGroup hmapped _ _ hlo (by exact_mod_cast hhi)
  exact ⟨some (fid, gid), by simp only [hparse, hfid, hgid, Option.bind_some]; rfl⟩

/-- The length in the header is one for which the `int` that is left of it wraps again when the
headers are subtracted. -/
def ForgedLength (m : Memory) : Prop :=
  ∃ len, readWord m 0 4 = some len ∧ 2 ^ 31 ≤ len ∧ len < 2 ^ 31 + 20

/-- The payload ends with the datagram at the latest, or the length is forged. -/
theorem familyPayloadLen_le_iff {len : ℕ} {rlen : ℤ} (word : len < 2 ^ 32) (low : -1 ≤ rlen)
    (buffer : rlen ≤ 4096) :
    familyPayloadLen len rlen ≤ rlen - 20 ↔ ¬ (2 ^ 31 ≤ len ∧ len < 2 ^ 31 + 20) := by
  by_cases hforged : 2 ^ 31 ≤ len ∧ len < 2 ^ 31 + 20
  · -- the smaller one is the length, and twenty less than it is below every `int`
    have hcast := castInt_lt_of_le hforged.1
    have hmin : min (castInt len) rlen = castInt len := min_eq_left (by omega)
    have hpayload : familyPayloadLen len rlen = castInt (len - 20) := by
      rw [familyPayloadLen, hmin]
      exact subInt_castInt (show 20 ≤ len by omega)
    rw [hpayload, castInt_of_lt (show len - 20 < 2 ^ 31 by omega)]
    exact iff_of_false (by omega) (not_not_intro hforged)
  · have hlow : -2 ^ 31 + 20 ≤ castInt len := by
      by_cases hshort : len < 2 ^ 31
      · rw [castInt_of_lt hshort]
        omega
      · rw [castInt_of_ge (Nat.le_of_not_lt hshort) word]
        omega
    rw [familyPayloadLen_of_le buffer (le_min hlow (by omega))]
    exact iff_of_true (Int.sub_le_sub_right (min_le_right _ _) 20) hforged

end ReKernelX.Client
