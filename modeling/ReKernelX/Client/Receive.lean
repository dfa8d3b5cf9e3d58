import ReKernelX.Foundation.Netlink
import ReKernelX.Client.Uapi

/-!
# The receive loop

`pollEvent` walks the messages of a received datagram with `NLMSG_OK` and
`NLMSG_NEXT`. The remaining length is an `int` that `NLMSG_NEXT` lowers by the
padded length of a message, and the loop tests it after a cast to `size_t`.
When the last message is not padded in the datagram, the remainder turns
negative, the cast makes it huge, and whatever bytes lie behind the datagram
are taken for a message if their length field allows it.

The walk is right exactly when that does not happen: the word behind an
unpadded last message is too small for a length.
-/

set_option autoImplicit false

namespace ReKernelX.Client

open Bytes Netlink

/-- `nlh->nlmsg_len` of the header at an offset of the buffer. -/
def nlmsgLen (mem : ℕ → UInt8) (o : ℕ) : ℕ := ofLE [mem o, mem (o + 1), mem (o + 2), mem (o + 3)]

/-- The conversion of an `int` to `size_t`. -/
def sizeT (rlen : ℤ) : ℕ := (rlen % 2 ^ 64).toNat

/-- `NLMSG_OK(nlh, len)` with an unsigned `len` -/
def nlmsgOk (mem : ℕ → UInt8) (o len : ℕ) : Bool :=
  decide (nlmsgHdrlen ≤ len ∧ nlmsgHdrlen ≤ nlmsgLen mem o ∧ nlmsgLen mem o ≤ len)

/-- `NLMSG_ALIGN` on a 32-bit length -/
def nlmsgAlign (len : ℕ) : ℕ := (len + 3) % 2 ^ 32 / 4 * 4

/-- The `int` that `NLMSG_NEXT` leaves in its second argument. -/
def nlmsgNextLen (mem : ℕ → UInt8) (o : ℕ) (rlen : ℤ) : ℤ :=
  Int.bmod (rlen - nlmsgAlign (nlmsgLen mem o)) (2 ^ 32)

/-- The message loop of `pollEvent` from an offset on: the offsets it calls
`handle_event` with, or `none` when it is still running after `fuel` rounds. -/
def receiveLoop (mem : ℕ → UInt8) : ℕ → ℕ → ℤ → Option (List ℕ)
  | 0, _, _ => none
  | fuel + 1, o, rlen =>
    if nlmsgOk mem o (sizeT rlen) then
      (receiveLoop mem fuel (o + nlmsgAlign (nlmsgLen mem o)) (nlmsgNextLen mem o rlen)).map
        (o :: ·)
    else some []

/-- The offsets where a message starts in the first `rlen` bytes, following
complete padded messages from the beginning. -/
inductive MessageAt (mem : ℕ → UInt8) (rlen : ℕ) : ℕ → Prop
  | first : MessageAt mem rlen 0
  | next {o : ℕ} : MessageAt mem rlen o → nlmsgHdrlen ≤ nlmsgLen mem o →
      o + align4 (nlmsgLen mem o) ≤ rlen → MessageAt mem rlen (o + align4 (nlmsgLen mem o))

/-- A message whose padding is not part of the datagram is followed by a word
that is no length. -/
def TailQuiet (mem : ℕ → UInt8) (rlen : ℕ) : Prop :=
  ∀ o, MessageAt mem rlen o → nlmsgHdrlen ≤ nlmsgLen mem o → o + nlmsgLen mem o ≤ rlen →
    rlen < o + align4 (nlmsgLen mem o) →
      nlmsgLen mem (o + align4 (nlmsgLen mem o)) < nlmsgHdrlen

/-! ### Machine arithmetic of one round -/

section Arithmetic

variable {mem : ℕ → UInt8} {o : ℕ} {rlen : ℤ}

theorem nlmsgLen_lt (mem : ℕ → UInt8) (o : ℕ) : nlmsgLen mem o < 2 ^ 32 := by
  have hlt : nlmsgLen mem o < 256 ^ 4 := ofLE_lt [mem o, mem (o + 1), mem (o + 2), mem (o + 3)]
  omega

theorem sizeT_of_nonneg (nonneg : 0 ≤ rlen) (fits : rlen ≤ 8192) : (sizeT rlen : ℤ) = rlen := by
  rw [sizeT]
  omega

/-- A negative remainder becomes larger than any length. -/
theorem le_sizeT_of_neg (neg : rlen < 0) (near : -3 ≤ rlen) : 2 ^ 32 ≤ sizeT rlen := by
  rw [sizeT]
  omega

theorem nlmsgAlign_eq {len : ℕ} (fits : len ≤ 8192) : nlmsgAlign len = align4 len := by
  rw [nlmsgAlign, align4]
  omega

/-- With a remainder in range the test is the one a reader of the macro expects. -/
theorem nlmsgOk_iff (nonneg : 0 ≤ rlen) (fits : rlen ≤ 8192) :
    nlmsgOk mem o (sizeT rlen) = true ↔ nlmsgHdrlen ≤ nlmsgLen mem o ∧ nlmsgLen mem o ≤ rlen := by
  have hsize := sizeT_of_nonneg nonneg fits
  rw [nlmsgOk, decide_eq_true_iff, nlmsgHdrlen]
  omega

/-- With a negative remainder only the lower bound of the length is left. -/
theorem nlmsgOk_iff_of_neg (neg : rlen < 0) (near : -3 ≤ rlen) :
    nlmsgOk mem o (sizeT rlen) = true ↔ nlmsgHdrlen ≤ nlmsgLen mem o := by
  have hsize := le_sizeT_of_neg neg near
  have hlen := nlmsgLen_lt mem o
  rw [nlmsgOk, decide_eq_true_iff, nlmsgHdrlen]
  omega

theorem nlmsgNextLen_eq (nonneg : 0 ≤ rlen) (fits : rlen ≤ 8192)
    (small : nlmsgLen mem o ≤ 8192) :
    nlmsgNextLen mem o rlen = rlen - align4 (nlmsgLen mem o) := by
  have hlt := align4_lt (nlmsgLen mem o)
  rw [nlmsgNextLen, nlmsgAlign_eq small]
  exact Int.bmod_eq_of_le (by omega) (by omega)

end Arithmetic

/-! ### The walk -/

section Walk

variable {mem : ℕ → UInt8} {R : ℕ}

/-- One round at a complete message. -/
theorem receiveLoop_of_message (fits : R ≤ 8192) {o : ℕ} (start : o ≤ R)
    (valid : nlmsgHdrlen ≤ nlmsgLen mem o) (complete : o + nlmsgLen mem o ≤ R) (fuel : ℕ) :
    receiveLoop mem (fuel + 1) o (R - o) =
      (receiveLoop mem fuel (o + align4 (nlmsgLen mem o))
        (R - o - align4 (nlmsgLen mem o))).map (o :: ·) := by
  have hok : nlmsgOk mem o (sizeT (R - o)) = true :=
    (nlmsgOk_iff (by omega) (by omega)).mpr ⟨valid, by omega⟩
  rw [receiveLoop, if_pos hok, nlmsgAlign_eq (by omega),
    nlmsgNextLen_eq (by omega) (by omega) (by omega)]

/-- Behind an unpadded message whose tail is quiet the walk ends. -/
theorem receiveLoop_of_quiet {o : ℕ} {rlen : ℤ} (neg : rlen < 0) (near : -3 ≤ rlen)
    (quiet : nlmsgLen mem o < nlmsgHdrlen) (fuel : ℕ) :
    receiveLoop mem (fuel + 1) o rlen = some [] := by
  rw [receiveLoop, if_neg]
  rw [nlmsgOk_iff_of_neg neg near]
  omega

/-- From every message start a quiet walk ends and stays inside. -/
theorem confined_from (fits : R ≤ 8192) (quiet : TailQuiet mem R) (o : ℕ)
    (here : MessageAt mem R o) (start : o ≤ R) :
    ∃ fuel dispatched, receiveLoop mem fuel o (R - o) = some dispatched ∧
      ∀ m ∈ dispatched, m + nlmsgHdrlen ≤ R ∧ m + nlmsgLen mem m ≤ R := by
  -- every complete message moves the walk forward, so what is left of the datagram decreases
  induction hmeasure : R - o using Nat.strong_induction_on generalizing o with
  | _ k ih =>
    by_cases hmessage : nlmsgHdrlen ≤ nlmsgLen mem o ∧ o + nlmsgLen mem o ≤ R
    · obtain ⟨hvalid, hcomplete⟩ := hmessage
      have hpad := le_align4 (nlmsgLen mem o)
      have hpad' := align4_lt (nlmsgLen mem o)
      have hhdr : nlmsgHdrlen = 16 := rfl
      have hinside : o + nlmsgHdrlen ≤ R ∧ o + nlmsgLen mem o ≤ R := ⟨by omega, hcomplete⟩
      by_cases hnext : o + align4 (nlmsgLen mem o) ≤ R
      · obtain ⟨fuel, dispatched, hloop, hall⟩ := ih (R - (o + align4 (nlmsgLen mem o)))
          (by omega) _ (here.next hvalid hnext) hnext rfl
        refine ⟨fuel + 1, o :: dispatched, ?_, ?_⟩
        · rw [receiveLoop_of_message fits start hvalid hcomplete, sub_sub, ← Nat.cast_add, hloop]
          rfl
        · intro m hm
          rcases List.mem_cons.mp hm with rfl | hm
          · exact hinside
          · exact hall m hm
      · -- the padding is missing: the remainder turns negative, and the tail decides
        have hquiet := quiet o here hvalid hcomplete (by omega)
        refine ⟨2, [o], ?_, ?_⟩
        · rw [receiveLoop_of_message fits start hvalid hcomplete,
            receiveLoop_of_quiet (by omega) (by omega) hquiet]
          rfl
        · intro m hm
          rw [List.mem_singleton.mp hm]
          exact hinside
    · -- no complete message is left, and the remainder is not negative: the test fails
      refine ⟨1, [], ?_, fun m hm => by cases hm⟩
      rw [receiveLoop, if_neg]
      rw [nlmsgOk_iff (by omega) (by omega)]
      omega

/-- A walk that ends passes through every message start. -/
theorem exists_receiveLoop_at (fits : R ≤ 8192) {fuel : ℕ} {dispatched : List ℕ}
    (ends : receiveLoop mem fuel 0 R = some dispatched) {o : ℕ} (here : MessageAt mem R o) :
    o ≤ R ∧ ∃ fuel' rest, receiveLoop mem fuel' o (R - o) = some rest ∧ rest ⊆ dispatched := by
  induction here with
  | first =>
    refine ⟨Nat.zero_le R, fuel, dispatched, ?_, List.Subset.refl _⟩
    rw [Nat.cast_zero, sub_zero, ends]
  | @next o here valid complete ih =>
    obtain ⟨hstart, fuel', rest, hloop, hsub⟩ := ih
    have hpad := le_align4 (nlmsgLen mem o)
    refine ⟨complete, ?_⟩
    cases fuel' with
    | zero => cases hloop
    | succ fuel' =>
      rw [receiveLoop_of_message fits hstart valid (by omega), Option.map_eq_some_iff] at hloop
      obtain ⟨tail, htail, rfl⟩ := hloop
      refine ⟨fuel', tail, ?_, fun m hm => hsub (List.mem_cons_of_mem o hm)⟩
      rw [Nat.cast_add, ← sub_sub, htail]

end Walk

/-- **The receive loop dispatches only received messages exactly when the tail
is quiet.** For every content of memory from the receive buffer on and every
received length up to 8192, the loop ends and calls `handle_event` only on
messages inside the received bytes, if and only if no message whose padding is
missing is followed by a word of at least 16. -/
theorem receive_confined_iff (mem : ℕ → UInt8) (rlen : ℕ) (fits : rlen ≤ 8192) :
    (∃ fuel dispatched, receiveLoop mem fuel 0 rlen = some dispatched ∧
      ∀ o ∈ dispatched, o + nlmsgHdrlen ≤ rlen ∧ o + nlmsgLen mem o ≤ rlen) ↔
    TailQuiet mem rlen := by
  constructor
  · rintro ⟨fuel, dispatched, hends, hinside⟩ o here valid complete unpadded
    by_contra hloud
    obtain ⟨hstart, fuel', rest, hloop, hsub⟩ := exists_receiveLoop_at fits hends here
    have hpad := align4_lt (nlmsgLen mem o)
    -- two more rounds: the message itself, and what lies behind it
    cases fuel' with
    | zero => cases hloop
    | succ fuel' =>
      rw [receiveLoop_of_message fits hstart valid complete, Option.map_eq_some_iff] at hloop
      obtain ⟨tail, htail, rfl⟩ := hloop
      cases fuel' with
      | zero => cases htail
      | succ fuel' =>
        have hok := (@nlmsgOk_iff_of_neg mem (o + align4 (nlmsgLen mem o))
          (rlen - o - align4 (nlmsgLen mem o)) (by omega) (by omega)).mpr (by omega)
        rw [receiveLoop, if_pos hok, Option.map_eq_some_iff] at htail
        obtain ⟨last, -, rfl⟩ := htail
        have hbehind := (hinside _ (hsub (List.mem_cons_of_mem o List.mem_cons_self))).1
        omega
  · intro quiet
    have hstart := confined_from fits quiet 0 MessageAt.first (Nat.zero_le rlen)
    simpa only [Nat.cast_zero, sub_zero] using hstart

/-- Memory with one header of the given length at the start and another at 20. -/
def twoHeaders (first second : UInt8) : ℕ → UInt8 := fun i =>
  if i = 0 then first else if i = 20 then second else 0

theorem receive_confined_one_message :
    ∃ fuel dispatched, receiveLoop (twoHeaders 16 0) fuel 0 (16 : ℕ) = some dispatched ∧
      ∀ o ∈ dispatched, o + nlmsgHdrlen ≤ 16 ∧ o + nlmsgLen (twoHeaders 16 0) o ≤ 16 := by
  refine (receive_confined_iff (twoHeaders 16 0) 16 (by decide)).mpr
    fun o here valid complete unpadded => ?_
  -- the only header is the first one, and it needs no padding
  rcases Nat.eq_zero_or_pos o with rfl | hpos
  · exact absurd unpadded (by decide)
  · have hzero : nlmsgLen (twoHeaders 16 0) o = 0 := by
      simp [nlmsgLen, twoHeaders, ofLE, hpos.ne']
    rw [hzero] at valid
    exact absurd valid (by decide)

/-- A datagram of 17 bytes that is one message of 17 bytes, with a stale header
behind it: the loop dispatches the stale one. -/
theorem stale_message_dispatched :
    receiveLoop (twoHeaders 17 16) 3 0 17 = some [0, 20] ∧ ¬ 20 + nlmsgHdrlen ≤ 17 := by
  decide

end ReKernelX.Client
