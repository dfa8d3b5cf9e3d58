import Mathlib.Data.List.Basic
import Mathlib.Data.List.TakeWhile
import Mathlib.Tactic.Ring

/-!
# Bytes, words, C strings and partial memory

The data the two halves of a C system exchange: little-endian words, sizes
padded to four bytes, NUL-terminated strings, and a memory that answers reads
only where something is mapped. A read outside the mapped bytes has no value,
so a computation that runs to a value on a memory has read mapped bytes only.
-/

set_option autoImplicit false

namespace Bytes

/-! ### Alignment -/

/-- A size padded up to the next multiple of four. -/
def align4 (n : ℕ) : ℕ := (n + 3) / 4 * 4

theorem le_align4 (n : ℕ) : n ≤ align4 n := by
  unfold align4; omega

theorem align4_lt (n : ℕ) : align4 n < n + 4 := by
  unfold align4; omega

theorem align4_mod (n : ℕ) : align4 n % 4 = 0 := by
  unfold align4; omega

theorem align4_of_dvd {n : ℕ} (h : n % 4 = 0) : align4 n = n := by
  unfold align4; omega

/-! ### Little-endian words -/

/-- The `k` low bytes of a number, least significant first. -/
def leBytes : ℕ → ℕ → List UInt8
  | 0, _ => []
  | k + 1, n => UInt8.ofNat n :: leBytes k (n / 256)

/-- The number a byte string denotes, least significant byte first. -/
def ofLE : List UInt8 → ℕ
  | [] => 0
  | b :: rest => b.toNat + 256 * ofLE rest

@[simp] theorem length_leBytes (k n : ℕ) : (leBytes k n).length = k := by
  induction k generalizing n with
  | zero => rfl
  | succ k ih => simp [leBytes, ih]

/-- Writing a number and reading it back keeps what the bytes have room for. -/
theorem ofLE_leBytes (k n : ℕ) : ofLE (leBytes k n) = n % 256 ^ k := by
  induction k generalizing n with
  | zero => simp [leBytes, ofLE, Nat.mod_one]
  | succ k ih =>
    have hbyte : (UInt8.ofNat n).toNat = n % 256 := by
      simp
    rw [leBytes, ofLE, ih, hbyte, Nat.pow_succ', Nat.mod_mul]

theorem ofLE_leBytes_of_lt {k n : ℕ} (h : n < 256 ^ k) : ofLE (leBytes k n) = n := by
  rw [ofLE_leBytes, Nat.mod_eq_of_lt h]

theorem ofLE_lt (bytes : List UInt8) : ofLE bytes < 256 ^ bytes.length := by
  induction bytes with
  | nil => simp [ofLE]
  | cons b rest ih =>
    have hb := b.toNat_lt
    rw [ofLE, List.length_cons, Nat.pow_succ]
    omega

/-! ### Partial memory -/

/-- A memory: the byte at each address, where one is mapped. -/
abbrev Memory := ℕ → Option UInt8

/-- The memory that maps exactly the bytes of a list, from address zero on. -/
def Memory.ofList (bytes : List UInt8) : Memory := fun a => bytes[a]?

/-- Read `k` consecutive bytes. -/
def readBytes (m : Memory) (a : ℕ) : ℕ → Option (List UInt8)
  | 0 => some []
  | k + 1 => do
    let b ← m a
    let rest ← readBytes m (a + 1) k
    return b :: rest

/-- Read a `k`-byte little-endian word. -/
def readWord (m : Memory) (a k : ℕ) : Option ℕ := (readBytes m a k).map ofLE

/-- The memory maps the bytes of a list, from an address on. -/
def Holds (m : Memory) : ℕ → List UInt8 → Prop
  | _, [] => True
  | a, b :: rest => m a = some b ∧ Holds m (a + 1) rest

theorem holds_append {m : Memory} {a : ℕ} {xs ys : List UInt8} :
    Holds m a (xs ++ ys) ↔ Holds m a xs ∧ Holds m (a + xs.length) ys := by
  induction xs generalizing a with
  | nil => simp [Holds]
  | cons x rest ih =>
    rw [List.cons_append, Holds, Holds, ih, and_assoc, List.length_cons, Nat.add_assoc,
      Nat.add_comm 1]

theorem holds_ofList (before bytes : List UInt8) :
    Holds (Memory.ofList (before ++ bytes)) before.length bytes := by
  induction bytes generalizing before with
  | nil => trivial
  | cons b rest ih =>
    refine ⟨by simp [Memory.ofList], ?_⟩
    have hrest := ih (before ++ [b])
    rwa [List.append_assoc, List.length_append] at hrest

/-- A memory holds what it maps byte by byte. -/
theorem holds_of_getElem? {m : Memory} {a : ℕ} {bytes : List UInt8}
    (h : ∀ i, i < bytes.length → m (a + i) = bytes[i]?) : Holds m a bytes := by
  induction bytes generalizing a with
  | nil => trivial
  | cons b rest ih =>
    refine ⟨h 0 (Nat.succ_pos _), ih fun i hi => ?_⟩
    rw [Nat.add_assoc, Nat.add_comm 1]
    exact h (i + 1) (Nat.succ_lt_succ hi)

theorem readBytes_of_holds {m : Memory} {a : ℕ} {bytes : List UInt8} (h : Holds m a bytes) :
    readBytes m a bytes.length = some bytes := by
  induction bytes generalizing a with
  | nil => rfl
  | cons b rest ih =>
    rw [List.length_cons, readBytes, h.1, ih h.2]
    rfl

/-- A word that was written is read back. -/
theorem readWord_of_holds {m : Memory} {a k n : ℕ} (h : Holds m a (leBytes k n))
    (fits : n < 256 ^ k) : readWord m a k = some n := by
  have hread := readBytes_of_holds h
  rw [length_leBytes] at hread
  rw [readWord, hread, Option.map_some, ofLE_leBytes_of_lt fits]

theorem length_of_readBytes {m : Memory} {a k : ℕ} {bytes : List UInt8}
    (h : readBytes m a k = some bytes) : bytes.length = k := by
  induction k generalizing a bytes with
  | zero =>
    obtain rfl : [] = bytes := Option.some.inj h
    rfl
  | succ k ih =>
    obtain ⟨b, -, h⟩ := Option.bind_eq_some_iff.mp h
    obtain ⟨rest, hrest, h⟩ := Option.bind_eq_some_iff.mp h
    obtain rfl : b :: rest = bytes := Option.some.inj h
    rw [List.length_cons, ih hrest]

theorem lt_of_readWord {m : Memory} {a k word : ℕ} (h : readWord m a k = some word) :
    word < 256 ^ k := by
  obtain ⟨bytes, hbytes, rfl⟩ := Option.map_eq_some_iff.mp h
  rw [← length_of_readBytes hbytes]
  exact ofLE_lt bytes

/-- Every address from `lo` up to `hi` is mapped. -/
def Mapped (m : Memory) (lo hi : ℕ) : Prop := ∀ a, lo ≤ a → a < hi → (m a).isSome

theorem Mapped.mono {m : Memory} {lo hi lo' hi' : ℕ} (h : Mapped m lo hi) (left : lo ≤ lo')
    (right : hi' ≤ hi) : Mapped m lo' hi' :=
  fun a hlo hhi => h a (left.trans hlo) (lt_of_lt_of_le hhi right)

/-- Mapped bytes can be read. -/
theorem Mapped.exists_readBytes {m : Memory} {a k : ℕ} (h : Mapped m a (a + k)) :
    ∃ bytes, readBytes m a k = some bytes ∧ bytes.length = k := by
  induction k generalizing a with
  | zero => exact ⟨[], rfl, rfl⟩
  | succ k ih =>
    obtain ⟨b, hb⟩ := Option.isSome_iff_exists.mp (h a le_rfl (by omega))
    obtain ⟨rest, hrest, hlength⟩ := ih (h.mono (Nat.le_succ a) (by omega))
    refine ⟨b :: rest, ?_, by rw [List.length_cons, hlength]⟩
    rw [readBytes, hb, hrest]
    rfl

theorem Mapped.exists_readWord {m : Memory} {a k : ℕ} (h : Mapped m a (a + k)) :
    ∃ word, readWord m a k = some word ∧ word < 256 ^ k := by
  obtain ⟨bytes, hbytes, -⟩ := h.exists_readBytes
  have hword : readWord m a k = some (ofLE bytes) := by rw [readWord, hbytes, Option.map_some]
  exact ⟨ofLE bytes, hword, lt_of_readWord hword⟩

/-! ### C strings -/

/-- A NUL-terminated string: the bytes before its terminator. -/
structure CString where
  bytes : List UInt8
  nul_free : 0 ∉ bytes
  deriving DecidableEq

namespace CString

/-- The string a byte array holds: everything before the first NUL. -/
def ofArray (array : List UInt8) : CString where
  bytes := array.takeWhile (· ≠ 0)
  nul_free h := by simpa using List.mem_takeWhile_imp h

/-- The number of bytes before the terminator. -/
def strlen (s : CString) : ℕ := s.bytes.length

/-- `strlen`, looking at no more than `maxlen` bytes. -/
def strnlen (s : CString) (maxlen : ℕ) : ℕ := min s.strlen maxlen

/-- Copy a string into an array of `size` bytes, cutting it to leave room for
the terminator. -/
def strscpy (s : CString) (size : ℕ) : CString where
  bytes := s.bytes.take (size - 1)
  nul_free h := s.nul_free (List.mem_of_mem_take h)

/-- The bytes of a string with its terminator. -/
def withNul (s : CString) : List UInt8 := s.bytes ++ [0]

@[simp] theorem length_withNul (s : CString) : s.withNul.length = s.strlen + 1 := by
  simp [withNul, strlen]

theorem ext_bytes {s t : CString} (h : s.bytes = t.bytes) : s = t := by
  cases s; cases t; cases h; rfl

theorem bytes_inj {s t : CString} : s.bytes = t.bytes ↔ s = t :=
  ⟨ext_bytes, fun h => congrArg CString.bytes h⟩

/-- A string that fits is copied whole. -/
theorem strscpy_of_lt {s : CString} {size : ℕ} (h : s.strlen < size) : s.strscpy size = s := by
  refine ext_bytes (List.take_of_length_le ?_)
  unfold strlen at h
  omega

/-- Whatever follows the terminator in an array, the array holds the string. -/
theorem ofArray_append_zero (s : CString) (rest : List UInt8) :
    ofArray (s.bytes ++ 0 :: rest) = s := by
  refine ext_bytes ?_
  have hall : ∀ b ∈ s.bytes, decide (b ≠ 0) = true := by
    intro b hb
    simpa using fun h : b = 0 => s.nul_free (h ▸ hb)
  change (s.bytes ++ 0 :: rest).takeWhile (fun b => decide (b ≠ 0)) = s.bytes
  rw [List.takeWhile_append_of_pos hall]
  simp

theorem ofArray_withNul_append (s : CString) (rest : List UInt8) :
    ofArray (s.withNul ++ rest) = s := by
  rw [withNul, List.append_assoc]
  exact ofArray_append_zero s rest

end CString

end Bytes
