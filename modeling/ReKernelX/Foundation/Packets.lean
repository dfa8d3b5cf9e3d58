import Mathlib.Algebra.Group.Int.Defs
import Mathlib.Algebra.Group.Nat.Defs
import Mathlib.Data.List.GetD

/-!
# TCP over IP

The header fields of IPv4, IPv6 and TCP packets as functions of their bytes, and
the subtraction of header lengths from packet lengths in the integer types of C.

A length that is computed in unsigned arithmetic and stored into an `int` wraps
around on the way and comes back: as long as the exact difference fits, the
result is that difference, negative ones included.
-/

set_option autoImplicit false

namespace Packets

/-! ### Fields -/

section Fields

variable (data : List UInt8)

/-- A byte of a packet, which is long enough. -/
def byteAt (o : ℕ) : ℕ := (data.getD o 0).toNat

/-- `ntohs` of a field -/
def be16 (o : ℕ) : ℕ := 256 * byteAt data o + byteAt data (o + 1)

/-- The version, in both kinds of IP header. -/
def ipVersion : ℕ := byteAt data 0 / 16

/-- The length of an IPv4 header, in words. -/
def ihl : ℕ := byteAt data 0 % 16

def totLen : ℕ := be16 data 2

def protocol : ℕ := byteAt data 9

/-- The length of what follows an IPv6 header. -/
def payloadLen : ℕ := be16 data 4

/-- The length of a TCP header at `o`, in words. -/
def doff (o : ℕ) : ℕ := byteAt data (o + 12) / 16

def fin (o : ℕ) : Bool := (byteAt data (o + 13)).testBit 0

def syn (o : ℕ) : Bool := (byteAt data (o + 13)).testBit 1

def rst (o : ℕ) : Bool := (byteAt data (o + 13)).testBit 2

/-- A TCP segment that is of interest without any data. -/
def controlFlag (o : ℕ) : Bool := syn data o || fin data o || rst data o

theorem byteAt_lt (o : ℕ) : byteAt data o < 256 := UInt8.toNat_lt _

theorem be16_lt (o : ℕ) : be16 data o < 65536 := by
  have hhigh := byteAt_lt data o
  have hlow := byteAt_lt data (o + 1)
  rw [be16]
  omega

theorem totLen_lt : totLen data < 65536 := be16_lt data 2

theorem payloadLen_lt : payloadLen data < 65536 := be16_lt data 4

theorem ihl_lt : ihl data < 16 := Nat.mod_lt _ (by decide)

theorem doff_lt (o : ℕ) : doff data o < 16 := by
  have hbyte := byteAt_lt data (o + 12)
  rw [doff]
  omega

end Fields

/-! ### A segment inside a packet -/

section Segment

variable {header segment rest : List UInt8} {i : ℕ}

theorem byteAt_segment (h : i < segment.length) :
    byteAt (header ++ segment ++ rest) (header.length + i) = byteAt segment i := by
  have hin : header.length + i < (header ++ segment).length := by
    rw [List.length_append]
    omega
  rw [byteAt, byteAt, List.getD_append _ _ _ _ hin, List.getD_append_right _ _ _ _ (by omega),
    Nat.add_sub_cancel_left]

theorem doff_segment (h : 20 ≤ segment.length) :
    doff (header ++ segment ++ rest) header.length = doff segment 0 := by
  rw [doff, doff, byteAt_segment (by omega), Nat.zero_add]

theorem controlFlag_segment (h : 20 ≤ segment.length) :
    controlFlag (header ++ segment ++ rest) header.length = controlFlag segment 0 := by
  unfold controlFlag syn fin rst
  rw [byteAt_segment (by omega), Nat.zero_add]

end Segment

/-! ### Lengths in the integer types of C -/

/-- An unsigned number that is an integer modulo `2 ^ 32` is that integer as an `int`. -/
theorem toInt_toInt32 {x : UInt32} {z : ℤ} (h : (x.toNat : ℤ) = z % 2 ^ 32)
    (low : -2 ^ 31 ≤ z) (high : z < 2 ^ 31) : x.toInt32.toInt = z := by
  have hbmod : x.toInt32.toInt = (x.toNat : ℤ).bmod (2 ^ 32) :=
    BitVec.toInt_eq_toNat_bmod x.toBitVec
  have hmod : (z % ((2 ^ 32 : ℕ) : ℤ)).bmod (2 ^ 32) = z.bmod (2 ^ 32) := Int.emod_bmod z _
  have hexact : z.bmod (2 ^ 32) = z := Int.bmod_eq_of_le (by omega) (by omega)
  rw [hbmod, h]
  exact hmod.trans hexact

/-- A length less two others in 32 bits. -/
theorem toInt_sub_sub {t x y : UInt32} (ht : t.toNat < 2 ^ 30) (hx : x.toNat < 2 ^ 30)
    (hy : y.toNat < 2 ^ 30) : (t - x - y).toInt32.toInt = t.toNat - x.toNat - y.toNat := by
  apply toInt_toInt32
  · rw [UInt32.toNat_sub, UInt32.toNat_sub]
    omega
  · omega
  · omega

/-- The same in 64 bits, of which the lower 32 are stored. -/
theorem toInt_sub_sub_64 {t x y : UInt64} (ht : t.toNat < 2 ^ 30) (hx : x.toNat < 2 ^ 30)
    (hy : y.toNat < 2 ^ 30) :
    (t - x - y).toUInt32.toInt32.toInt = t.toNat - x.toNat - y.toNat := by
  apply toInt_toInt32
  · rw [UInt64.toNat_toUInt32, UInt64.toNat_sub, UInt64.toNat_sub]
    omega
  · omega
  · omega

/-- A length in words, in bytes. -/
theorem toNat_shiftLeft_two {n : ℕ} (h : n < 16) : (UInt32.ofNat n <<< 2).toNat = 4 * n := by
  have htwo : UInt32.toNat 2 % 32 = 2 := rfl
  rw [UInt32.toNat_shiftLeft, UInt32.toNat_ofNat', htwo, Nat.shiftLeft_eq]
  omega

end Packets
