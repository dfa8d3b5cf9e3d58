import Mathlib.Algebra.Group.Nat.Defs
import Mathlib.Data.List.Basic

/-!
# Paged memory

A range of memory kept as pages of one size. Position `x` of the range is
position `x % size` of page `x / size`, and a piece of the range that ends in
the page it starts in is a piece of that page. A copy out of the range takes
such pieces one after the other, and what it writes adds up.

The page size is a power of two, so that machine code finds page and position
with a shift and a mask.
-/

set_option autoImplicit false

namespace Pages

/-! ### Slices -/

section Slice

variable {α : Type*} (l : List α) (x k : ℕ)

/-- The `k` elements of a list from position `x` on. -/
def slice : List α := (l.drop x).take k

@[simp] theorem slice_zero : slice l x 0 = [] := List.take_zero

theorem slice_add (m : ℕ) : slice l x (k + m) = slice l x k ++ slice l (x + k) m := by
  rw [slice, slice, slice, List.take_add, List.drop_drop]

variable {l x k}

theorem length_slice (h : x + k ≤ l.length) : (slice l x k).length = k := by
  rw [slice, List.length_take, List.length_drop]
  omega

theorem slice_slice {y m : ℕ} (h : y + m ≤ k) : slice (slice l x k) y m = slice l (x + y) m := by
  rw [slice, slice, slice, List.drop_take, List.take_take, List.drop_drop,
    Nat.min_eq_left (by omega)]

theorem getElem?_slice {i : ℕ} (h : i < k) : (slice l x k)[i]? = l[x + i]? := by
  rw [slice, List.getElem?_take_of_lt h, List.getElem?_drop]

end Slice

/-! ### Pieces of pages -/

section Pieces

variable {α : Type*} {size : ℕ} {pages : List (List α)}

theorem length_flatten (full : ∀ page ∈ pages, page.length = size) :
    pages.flatten.length = pages.length * size := by
  induction pages with
  | nil => simp
  | cons page rest ih =>
    obtain ⟨hpage, hrest⟩ := List.forall_mem_cons.mp full
    rw [List.flatten_cons, List.length_append, hpage, ih hrest, List.length_cons, Nat.succ_mul,
      Nat.add_comm]

/-- Every position of the range has a page. -/
theorem exists_page (full : ∀ page ∈ pages, page.length = size) {x : ℕ}
    (inside : x < pages.length * size) :
    ∃ page, pages[x / size]? = some page ∧ page.length = size := by
  have hindex : x / size < pages.length := Nat.div_lt_of_lt_mul (Nat.mul_comm _ _ ▸ inside)
  exact ⟨pages[x / size], List.getElem?_eq_getElem hindex, full _ (List.getElem_mem hindex)⟩

/-- A piece that does not go beyond the page it starts in. -/
theorem slice_flatten (full : ∀ page ∈ pages, page.length = size) {x k : ℕ} {page : List α}
    (found : pages[x / size]? = some page) (inPage : x % size + k ≤ size) :
    slice pages.flatten x k = slice page (x % size) k := by
  unfold slice
  induction pages generalizing x with
  | nil => cases found
  | cons first rest ih =>
    obtain ⟨hfirst, hrest⟩ := List.forall_mem_cons.mp full
    rw [List.flatten_cons]
    by_cases hx : x < size
    · -- in the first page
      rw [Nat.div_eq_of_lt hx] at found
      obtain rfl : first = page := Option.some.inj found
      rw [Nat.mod_eq_of_lt hx] at inPage ⊢
      rw [List.drop_append_of_le_length (by omega), List.take_append_of_le_length]
      rw [List.length_drop, hfirst]
      omega
    · have hpos : 0 < size ∨ size = 0 := by omega
      rcases hpos with hpos | rfl
      · have hle : size ≤ x := Nat.le_of_not_lt hx
        rw [Nat.div_eq_sub_div hpos hle, List.getElem?_cons_succ] at found
        rw [Nat.mod_eq_sub_mod hle] at inPage ⊢
        rw [List.drop_append, List.drop_eq_nil_of_le (by omega), List.nil_append, hfirst]
        exact ih hrest found inPage
      · obtain rfl : k = 0 := by omega
        rw [List.take_zero, List.take_zero]

end Pieces

/-! ### Writing -/

section Write

variable {α : Type*}

/-- A memory after `bytes` have been written from `start` on. -/
def write (mem : ℕ → α) (start : ℕ) (bytes : List α) (a : ℕ) : α :=
  if a < start then mem a else (bytes[a - start]?).getD (mem a)

theorem write_nil (mem : ℕ → α) (start : ℕ) : write mem start [] = mem := by
  funext a
  rw [write, List.getElem?_nil, Option.getD_none, ite_self]

/-- Two writes, one behind the other, are one. -/
theorem write_write (mem : ℕ → α) (start : ℕ) (first second : List α) :
    write (write mem start first) (start + first.length) second =
      write mem start (first ++ second) := by
  funext a
  unfold write
  by_cases hbefore : a < start
  · rw [if_pos (by omega), if_pos hbefore, if_pos hbefore]
  · rw [if_neg hbefore, if_neg hbefore]
    by_cases hfirst : a < start + first.length
    · rw [if_pos hfirst, List.getElem?_append_left (by omega)]
    · rw [if_neg hfirst, List.getElem?_append_right (by omega),
        List.getElem?_eq_none (by omega : first.length ≤ a - start), Option.getD_none,
        Nat.sub_add_eq]

theorem write_of_lt (mem : ℕ → α) (start : ℕ) {a : ℕ} {bytes : List α} (h : a < bytes.length) :
    some (write mem start bytes (start + a)) = bytes[a]? := by
  rw [write, if_neg (by omega), Nat.add_sub_cancel_left, List.getElem?_eq_getElem h,
    Option.getD_some]

theorem write_of_le (mem : ℕ → α) (start : ℕ) {a : ℕ} {bytes : List α} (h : bytes.length ≤ a) :
    write mem start bytes (start + a) = mem (start + a) := by
  rw [write, if_neg (by omega), Nat.add_sub_cancel_left, List.getElem?_eq_none h,
    Option.getD_none]

/-- What has been written is there. -/
theorem map_range_write (mem : ℕ → α) (bytes : List α) :
    (List.range bytes.length).map (write mem 0 bytes) = bytes := by
  apply List.ext_getElem?
  intro i
  rw [List.getElem?_map]
  by_cases hi : i < bytes.length
  · have hread := write_of_lt mem 0 hi
    rw [List.getElem?_range hi, ← hread, Nat.zero_add, Option.map_some]
  · rw [List.getElem?_eq_none (Nat.le_of_not_lt hi), List.getElem?_eq_none]
    · rfl
    · rw [List.length_range]
      exact Nat.le_of_not_lt hi

end Write

/-! ### Page sizes of a 64-bit machine -/

/-- A page size, by its logarithm. -/
structure Config where
  shift : ℕ
  shift_lt : shift < 64

namespace Config

variable (cfg : Config)

/-- `PAGE_SIZE` -/
def size : UInt64 := 1 <<< UInt64.ofNat cfg.shift

/-- `PAGE_MASK` -/
def mask : UInt64 := ~~~(cfg.size - 1)

theorem toNat_shift : (UInt64.ofNat cfg.shift).toNat = cfg.shift := by
  rw [UInt64.toNat_ofNat', Nat.mod_eq_of_lt (Nat.lt_trans cfg.shift_lt (by decide))]

theorem toNat_size : cfg.size.toNat = 2 ^ cfg.shift := by
  have hfits : 2 ^ cfg.shift < 2 ^ 64 := Nat.pow_lt_pow_right (by decide) cfg.shift_lt
  rw [size, UInt64.toNat_shiftLeft, toNat_shift, Nat.mod_eq_of_lt cfg.shift_lt, UInt64.toNat_one,
    Nat.one_shiftLeft, Nat.mod_eq_of_lt hfits]

/-- The position in a page. -/
theorem toNat_and_not_mask (x : UInt64) : (x &&& ~~~cfg.mask).toNat = x.toNat % 2 ^ cfg.shift := by
  have hone : (1 : UInt64) ≤ cfg.size := by
    rw [UInt64.le_iff_toNat_le, toNat_size]
    exact Nat.one_le_two_pow
  rw [mask, UInt64.not_not, UInt64.toNat_and, UInt64.toNat_sub_of_le _ _ hone, toNat_size,
    UInt64.toNat_one, Nat.and_two_pow_sub_one_eq_mod]

/-- The index of a page. -/
theorem toNat_shiftRight (x : UInt64) :
    (x >>> UInt64.ofNat cfg.shift).toNat = x.toNat / 2 ^ cfg.shift := by
  rw [UInt64.toNat_shiftRight, toNat_shift, Nat.mod_eq_of_lt cfg.shift_lt,
    Nat.shiftRight_eq_div_pow]

end Config

end Pages
