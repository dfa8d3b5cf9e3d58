import ReKernelX.Foundation.Pages
import ReKernelX.Module.DataEqual

/-!
# Copying out of a binder buffer

On kernels before 6.0 the module cannot call the driver's own copy and brings
one along, in `rkx_binder_alloc.c`. The buffers of a process lie one behind the
other in an area of its address space, of which the kernel has the pages. How
far a buffer extends is where the next one starts, or where the area ends. The
copy checks offset and size against that, both 64-bit numbers from elsewhere,
and then goes from page to page.

For an area that is backed by its pages and has its buffers in order, the copy
is the slice of the area that the arguments ask for, and this makes it a copy of
the kind the comparison of two buffers relies on.
-/

set_option autoImplicit false

namespace ReKernelX

/-! ### The code -/

/-- What the copy reads of a `struct binder_buffer`; `transaction` says whether the
pointer is set. -/
structure AllocBuffer where
  userData : UInt64
  free : Bool
  allowUserFree : Bool
  transaction : Bool

/-- `struct binder_alloc`: the address and size of the area, the contents of its pages,
and its buffers in the order of their list. -/
structure BinderAlloc where
  buffer : UInt64
  bufferSize : UInt64
  pages : List (List UInt8)
  buffers : List AllocBuffer

/-- The part of a page that is read. -/
structure PageRange where
  index : ℕ
  offset : ℕ
  size : ℕ
  deriving DecidableEq

/-- The value returned, what `dest` points to afterwards, and the parts of pages read. -/
structure CopyResult where
  rc : ℤ
  dest : ℕ → UInt8
  touched : List PageRange

section Code

variable (cfg : Pages.Config) (alloc : BinderAlloc) (b : Fin alloc.buffers.length)

/-- `rk_binder_buffer_next`, unless `list_is_last` -/
def rkBinderBufferNext : Option AllocBuffer := alloc.buffers[b.val + 1]?

/-- `rk_binder_alloc_buffer_size` -/
def rkBinderAllocBufferSize : UInt64 :=
  match rkBinderBufferNext alloc b with
  | none => alloc.buffer + alloc.bufferSize - (alloc.buffers.get b).userData
  | some next => next.userData - (alloc.buffers.get b).userData

/-- `rk_check_buffer` -/
def rkCheckBuffer (offset bytes : UInt64) : Bool :=
  let bufferSize := rkBinderAllocBufferSize alloc b
  decide (bufferSize ≥ bytes) && decide (offset ≤ bufferSize - bytes) &&
    decide (offset &&& 3 = 0) && !(alloc.buffers.get b).free &&
    (!(alloc.buffers.get b).allowUserFree || !(alloc.buffers.get b).transaction)

/-- `rk_binder_alloc_get_page`: the index of the page and the offset in it. -/
def rkBinderAllocGetPage (bufferOffset : UInt64) : UInt64 × UInt64 :=
  let bufferSpaceOffset := bufferOffset + ((alloc.buffers.get b).userData - alloc.buffer)
  (bufferSpaceOffset >>> UInt64.ofNat cfg.shift, bufferSpaceOffset &&& ~~~cfg.mask)

/-- How much is copied in one round: `min_t(size_t, bytes, PAGE_SIZE - pgoff)`. -/
def pieceSize (bytes pgoff : UInt64) : UInt64 :=
  if bytes < cfg.size - pgoff then bytes else cfg.size - pgoff

end Code

/-- A round copies something, and no more than is left. -/
theorem pieceSize_bounds (cfg : Pages.Config) {bytes pgoff : UInt64} (more : bytes ≠ 0)
    (inPage : pgoff.toNat < 2 ^ cfg.shift) :
    (pieceSize cfg bytes pgoff).toNat = min bytes.toNat (2 ^ cfg.shift - pgoff.toNat) ∧
      0 < (pieceSize cfg bytes pgoff).toNat := by
  have hle : pgoff ≤ cfg.size := by
    rw [UInt64.le_iff_toNat_le, cfg.toNat_size]
    exact inPage.le
  have hleft : (cfg.size - pgoff).toNat = 2 ^ cfg.shift - pgoff.toNat := by
    rw [UInt64.toNat_sub_of_le _ _ hle, cfg.toNat_size]
  have hmore : 0 < bytes.toNat := by
    rw [Nat.pos_iff_ne_zero]
    exact fun h => more (UInt64.toNat_inj.mp h)
  rw [pieceSize]
  split_ifs with hlt
  · rw [UInt64.lt_iff_toNat_lt, hleft] at hlt
    omega
  · rw [UInt64.lt_iff_toNat_lt, hleft] at hlt
    rw [hleft]
    omega

section Loop

variable (cfg : Pages.Config) (alloc : BinderAlloc) (b : Fin alloc.buffers.length)

/-- The offset that `rk_binder_alloc_get_page` returns is one of the page. -/
theorem getPage_lt (bufferOffset : UInt64) :
    (rkBinderAllocGetPage cfg alloc b bufferOffset).2.toNat < 2 ^ cfg.shift := by
  rw [rkBinderAllocGetPage, cfg.toNat_and_not_mask]
  exact Nat.mod_lt _ (Nat.two_pow_pos _)

/-- The loop of `rk_binder_alloc_do_buffer_copy`. There is no result when the index is
not one of the array of pages. `ptr` counts from `dest`. -/
def bufferCopyLoop (toBuffer : Bool) (bufferOffset : UInt64) (dest : ℕ → UInt8) (ptr : ℕ)
    (bytes : UInt64) : Option CopyResult :=
  if bytes ≠ 0 then
    let index := (rkBinderAllocGetPage cfg alloc b bufferOffset).1
    let pgoff := (rkBinderAllocGetPage cfg alloc b bufferOffset).2
    alloc.pages[index.toNat]?.bind fun page =>
      let size := pieceSize cfg bytes pgoff
      if toBuffer then some ⟨-einval, dest, []⟩
      else
        -- `rk_memcpy_from_page`
        let piece := Pages.slice page pgoff.toNat size.toNat
        (bufferCopyLoop toBuffer (bufferOffset + size) (Pages.write dest ptr piece)
          (ptr + size.toNat) (bytes - size)).map fun result =>
            { result with touched := ⟨index.toNat, pgoff.toNat, size.toNat⟩ :: result.touched }
  else some ⟨0, dest, []⟩
termination_by bytes.toNat
decreasing_by
  have hsize := pieceSize_bounds cfg ‹bytes ≠ 0› (getPage_lt cfg alloc b bufferOffset)
  rw [UInt64.toNat_sub_of_le]
  · omega
  · rw [UInt64.le_iff_toNat_le]
    omega

/-- `rk_binder_alloc_do_buffer_copy` -/
def rkBinderAllocDoBufferCopy (toBuffer : Bool) (bufferOffset : UInt64) (dest : ℕ → UInt8)
    (bytes : UInt64) : Option CopyResult :=
  if rkCheckBuffer alloc b bufferOffset bytes = false then some ⟨-einval, dest, []⟩
  else bufferCopyLoop cfg alloc b toBuffer bufferOffset dest 0 bytes

/-- `rk_binder_alloc_copy_from_buffer` -/
def rkBinderAllocCopyFromBuffer (dest : ℕ → UInt8) (bufferOffset bytes : UInt64) :
    Option CopyResult :=
  rkBinderAllocDoBufferCopy cfg alloc b false bufferOffset dest bytes

end Loop

/-! ### Well-formed areas -/

namespace BinderAlloc

/-- Where a buffer ends: at the next one, or where the area ends. -/
def bufferEnd (alloc : BinderAlloc) (b : Fin alloc.buffers.length) : ℕ :=
  match rkBinderBufferNext alloc b with
  | none => alloc.buffer.toNat + alloc.bufferSize.toNat
  | some next => next.userData.toNat

/-- Where a buffer starts, counted from the start of the area. -/
def start (alloc : BinderAlloc) (b : Fin alloc.buffers.length) : ℕ :=
  (alloc.buffers.get b).userData.toNat - alloc.buffer.toNat

/-- The number of bytes a buffer has. -/
def extent (alloc : BinderAlloc) (b : Fin alloc.buffers.length) : ℕ :=
  alloc.bufferEnd b - (alloc.buffers.get b).userData.toNat

/-- The bytes of the area that are a buffer's. -/
def areaOf (alloc : BinderAlloc) (b : Fin alloc.buffers.length) : List UInt8 :=
  Pages.slice alloc.pages.flatten (alloc.start b) (alloc.extent b)

/-- The area starts at a page and is made up of the pages, and the buffers lie in it in
the order of their list. -/
structure WellFormed (cfg : Pages.Config) (alloc : BinderAlloc) : Prop where
  aligned : alloc.buffer.toNat % 2 ^ cfg.shift = 0
  addressable : alloc.buffer.toNat + alloc.bufferSize.toNat ≤ 2 ^ 64
  backed : alloc.pages.length * 2 ^ cfg.shift = alloc.bufferSize.toNat
  full : ∀ page ∈ alloc.pages, page.length = 2 ^ cfg.shift
  ordered : alloc.buffers.Pairwise fun b c => b.userData.toNat ≤ c.userData.toNat
  placed : ∀ b ∈ alloc.buffers, alloc.buffer.toNat ≤ b.userData.toNat ∧
    b.userData.toNat ≤ alloc.buffer.toNat + alloc.bufferSize.toNat

/-- A range that is read lies in a page of the array. -/
def InPages (cfg : Pages.Config) (alloc : BinderAlloc) (range : PageRange) : Prop :=
  range.index < alloc.pages.length ∧ range.offset + range.size ≤ 2 ^ cfg.shift

/-- A copy that does not pass the check does nothing. -/
theorem copyFromBuffer_of_not_check (cfg : Pages.Config) {alloc : BinderAlloc}
    (b : Fin alloc.buffers.length) {offset bytes : UInt64} (dest : ℕ → UInt8)
    (refused : rkCheckBuffer alloc b offset bytes = false) :
    rkBinderAllocCopyFromBuffer cfg alloc b dest offset bytes = some ⟨-einval, dest, []⟩ := by
  rw [rkBinderAllocCopyFromBuffer, rkBinderAllocDoBufferCopy, if_pos refused]

namespace WellFormed

variable {cfg : Pages.Config} {alloc : BinderAlloc} (wf : alloc.WellFormed cfg)
  (b : Fin alloc.buffers.length)

include wf

theorem bufferEnd_bounds :
    (alloc.buffers.get b).userData.toNat ≤ alloc.bufferEnd b ∧
      alloc.bufferEnd b ≤ alloc.buffer.toNat + alloc.bufferSize.toNat := by
  rw [bufferEnd]
  cases hnext : rkBinderBufferNext alloc b with
  | none => exact ⟨(wf.placed _ (List.get_mem _ b)).2, le_refl _⟩
  | some next =>
    obtain ⟨hlt, hget⟩ := List.getElem?_eq_some_iff.mp hnext
    have hordered := List.pairwise_iff_getElem.mp wf.ordered b (b + 1) b.isLt hlt
      (Nat.lt_succ_self _)
    rw [hget] at hordered
    exact ⟨hordered, (wf.placed _ (List.mem_of_getElem? hnext)).2⟩

/-- The subtraction in `rk_binder_alloc_buffer_size` does not wrap around. -/
theorem toNat_bufferSize : (rkBinderAllocBufferSize alloc b).toNat = alloc.extent b := by
  obtain ⟨hstart, hend⟩ := wf.bufferEnd_bounds b
  have haddr := wf.addressable
  have hplaced := (wf.placed _ (List.get_mem _ b)).1
  have hsize := alloc.bufferSize.toNat_lt
  have hdata := (alloc.buffers.get b).userData.toNat_lt
  rw [extent]
  rw [bufferEnd] at hstart hend ⊢
  rw [rkBinderAllocBufferSize]
  cases hnext : rkBinderBufferNext alloc b with
  | none =>
    simp only [hnext] at hstart hend ⊢
    rw [UInt64.toNat_sub, UInt64.toNat_add]
    omega
  | some next =>
    simp only [hnext] at hstart hend ⊢
    exact UInt64.toNat_sub_of_le _ _ (UInt64.le_iff_toNat_le.mpr hstart)

/-- What `rk_check_buffer` lets through, in exact numbers. -/
theorem check_iff (offset bytes : UInt64) :
    rkCheckBuffer alloc b offset bytes = true ↔
      offset.toNat % 4 = 0 ∧ offset.toNat + bytes.toNat ≤ alloc.extent b ∧
        (alloc.buffers.get b).free = false ∧
        ¬ ((alloc.buffers.get b).allowUserFree = true ∧
          (alloc.buffers.get b).transaction = true) := by
  have hsize := wf.toNat_bufferSize b
  have haligned : offset &&& 3 = 0 ↔ offset.toNat % 4 = 0 := by
    rw [← UInt64.toNat_inj, UInt64.toNat_and]
    exact iff_of_eq (congrArg (· = 0) (Nat.and_two_pow_sub_one_eq_mod offset.toNat 2))
  have hfits : rkBinderAllocBufferSize alloc b ≥ bytes ∧
      offset ≤ rkBinderAllocBufferSize alloc b - bytes ↔
        offset.toNat + bytes.toNat ≤ alloc.extent b := by
    rw [ge_iff_le, UInt64.le_iff_toNat_le, UInt64.le_iff_toNat_le, hsize]
    have hleft : bytes.toNat ≤ alloc.extent b →
        (rkBinderAllocBufferSize alloc b - bytes).toNat = alloc.extent b - bytes.toNat := by
      intro hbytes
      rw [← hsize] at hbytes ⊢
      exact UInt64.toNat_sub_of_le _ _ (UInt64.le_iff_toNat_le.mpr hbytes)
    constructor
    · rintro ⟨hbytes, hoffset⟩
      rw [hleft hbytes] at hoffset
      omega
    · intro hsum
      have hbytes : bytes.toNat ≤ alloc.extent b := by omega
      rw [hleft hbytes]
      omega
  rw [rkCheckBuffer, ← haligned, ← hfits]
  simp only [Bool.and_eq_true, decide_eq_true_eq, Bool.or_eq_true, Bool.not_eq_true']
  grind

/-! ### The loop -/

/-- The page and the offset in it are those of a position of the area. -/
theorem getPage_toNat {bufferOffset : UInt64}
    (inside : bufferOffset.toNat + alloc.start b < 2 ^ 64) :
    (rkBinderAllocGetPage cfg alloc b bufferOffset).1.toNat =
        (bufferOffset.toNat + alloc.start b) / 2 ^ cfg.shift ∧
      (rkBinderAllocGetPage cfg alloc b bufferOffset).2.toNat =
        (bufferOffset.toNat + alloc.start b) % 2 ^ cfg.shift := by
  have hplaced := (wf.placed _ (List.get_mem _ b)).1
  have hspace : (bufferOffset + ((alloc.buffers.get b).userData - alloc.buffer)).toNat =
      bufferOffset.toNat + alloc.start b := by
    rw [UInt64.toNat_add, UInt64.toNat_sub_of_le _ _ (UInt64.le_iff_toNat_le.mpr hplaced)]
    exact Nat.mod_eq_of_lt inside
  rw [rkBinderAllocGetPage, cfg.toNat_shiftRight, cfg.toNat_and_not_mask, hspace]
  exact ⟨rfl, rfl⟩

/-- One round of the loop: there is a page, and what is read of it is a piece of the
area. -/
theorem exists_piece {bufferOffset bytes index pgoff : UInt64} (more : bytes ≠ 0)
    (inside : bufferOffset.toNat + alloc.start b + bytes.toNat ≤ alloc.bufferSize.toNat)
    (hget : rkBinderAllocGetPage cfg alloc b bufferOffset = (index, pgoff)) :
    ∃ page, alloc.pages[index.toNat]? = some page ∧
      InPages cfg alloc ⟨index.toNat, pgoff.toNat, (pieceSize cfg bytes pgoff).toNat⟩ ∧
      0 < (pieceSize cfg bytes pgoff).toNat ∧
      (pieceSize cfg bytes pgoff).toNat ≤ bytes.toNat ∧
      Pages.slice page pgoff.toNat (pieceSize cfg bytes pgoff).toNat =
        Pages.slice alloc.pages.flatten (bufferOffset.toNat + alloc.start b)
          (pieceSize cfg bytes pgoff).toNat := by
  have hsize := alloc.bufferSize.toNat_lt
  have hposition : bufferOffset.toNat + alloc.start b < 2 ^ 64 := by omega
  obtain ⟨hindex, hpgoff⟩ := wf.getPage_toNat b hposition
  have hinPage := getPage_lt cfg alloc b bufferOffset
  simp only [hget] at hindex hpgoff hinPage
  obtain ⟨hpiece, hpos⟩ := pieceSize_bounds cfg more hinPage
  have harea : bufferOffset.toNat + alloc.start b < alloc.pages.length * 2 ^ cfg.shift := by
    rw [wf.backed]
    omega
  obtain ⟨page, hpage, -⟩ := Pages.exists_page wf.full harea
  have hrange : pgoff.toNat + (pieceSize cfg bytes pgoff).toNat ≤ 2 ^ cfg.shift := by omega
  refine ⟨page, hindex ▸ hpage, ⟨?_, hrange⟩, hpos, hpiece ▸ Nat.min_le_left .., ?_⟩
  · exact hindex ▸ (List.getElem?_eq_some_iff.mp hpage).1
  · rw [hpgoff] at hrange ⊢
    exact (Pages.slice_flatten wf.full hpage hrange).symm

/-- Inside the area, the loop copies the bytes of the area. -/
theorem bufferCopyLoop_eq {bufferOffset bytes : UInt64} (dest : ℕ → UInt8) (ptr : ℕ)
    (inside : bufferOffset.toNat + alloc.start b + bytes.toNat ≤ alloc.bufferSize.toNat) :
    ∃ touched, bufferCopyLoop cfg alloc b false bufferOffset dest ptr bytes =
        some ⟨0, Pages.write dest ptr (Pages.slice alloc.pages.flatten
          (bufferOffset.toNat + alloc.start b) bytes.toNat), touched⟩ ∧
      ∀ range ∈ touched, InPages cfg alloc range := by
  -- on the bytes that are left
  induction hleft : bytes.toNat using Nat.strong_induction_on
    generalizing bufferOffset bytes dest ptr with
  | _ n ih =>
    subst hleft
    rw [bufferCopyLoop]
    by_cases hmore : bytes = 0
    · refine ⟨[], ?_, List.forall_mem_nil _⟩
      rw [if_neg (not_not_intro hmore), hmore, UInt64.toNat_zero, Pages.slice_zero, Pages.write_nil]
    · rcases hget : rkBinderAllocGetPage cfg alloc b bufferOffset with ⟨index, pgoff⟩
      obtain ⟨page, hpage, hinPages, hpos, hle, hpiece⟩ := wf.exists_piece b hmore inside hget
      simp only [if_pos hmore, hpage, Option.bind_some, Bool.false_eq_true, if_false]
      generalize pieceSize cfg bytes pgoff = size at hinPages hpos hle hpiece ⊢
      rw [hpiece]
      have hsize := alloc.bufferSize.toNat_lt
      have hoffset : (bufferOffset + size).toNat + alloc.start b =
          bufferOffset.toNat + alloc.start b + size.toNat := by
        rw [UInt64.toNat_add, Nat.mod_eq_of_lt (by omega)]
        omega
      have hbytes : (bytes - size).toNat = bytes.toNat - size.toNat :=
        UInt64.toNat_sub_of_le _ _ (UInt64.le_iff_toNat_le.mpr hle)
      have hlength : (Pages.slice alloc.pages.flatten (bufferOffset.toNat + alloc.start b)
          size.toNat).length = size.toNat := by
        apply Pages.length_slice
        rw [Pages.length_flatten wf.full, wf.backed]
        omega
      have hinside : (bufferOffset + size).toNat + alloc.start b + (bytes - size).toNat ≤
          alloc.bufferSize.toNat := by omega
      obtain ⟨touched, hrest, hranges⟩ := ih (bytes - size).toNat (by omega)
        (Pages.write dest ptr (Pages.slice alloc.pages.flatten
          (bufferOffset.toNat + alloc.start b) size.toNat)) (ptr + size.toNat) hinside rfl
      refine ⟨⟨index.toNat, pgoff.toNat, size.toNat⟩ :: touched, ?_,
        List.forall_mem_cons.mpr ⟨hinPages, hranges⟩⟩
      -- what this round wrote and what the others write is one piece of the area
      have hsplit := Pages.slice_add alloc.pages.flatten (bufferOffset.toNat + alloc.start b)
        size.toNat (bytes.toNat - size.toNat)
      have hwrite := Pages.write_write dest ptr
        (Pages.slice alloc.pages.flatten (bufferOffset.toNat + alloc.start b) size.toNat)
        (Pages.slice alloc.pages.flatten (bufferOffset.toNat + alloc.start b + size.toNat)
          (bytes.toNat - size.toNat))
      rw [← hsplit, hlength, Nat.add_sub_cancel' hle] at hwrite
      rw [hrest, hoffset, hbytes, Option.map_some, hwrite]

/-! ### The copy -/

theorem start_add_extent_le : alloc.start b + alloc.extent b ≤ alloc.bufferSize.toNat := by
  obtain ⟨hstart, hend⟩ := wf.bufferEnd_bounds b
  have hplaced := (wf.placed _ (List.get_mem _ b)).1
  rw [start, extent]
  omega

theorem length_areaOf : (alloc.areaOf b).length = alloc.extent b := by
  apply Pages.length_slice
  rw [Pages.length_flatten wf.full, wf.backed]
  exact wf.start_add_extent_le b

/-- A copy that passes the check is a slice of the buffer's bytes. -/
theorem copyFromBuffer_of_check {offset bytes : UInt64} (dest : ℕ → UInt8)
    (checked : rkCheckBuffer alloc b offset bytes = true) :
    ∃ touched, rkBinderAllocCopyFromBuffer cfg alloc b dest offset bytes =
        some ⟨0, Pages.write dest 0 (Pages.slice (alloc.areaOf b) offset.toNat bytes.toNat),
          touched⟩ ∧
      ∀ range ∈ touched, InPages cfg alloc range := by
  have hfits := ((wf.check_iff b offset bytes).mp checked).2.1
  have harea := wf.start_add_extent_le b
  have hinside : offset.toNat + alloc.start b + bytes.toNat ≤ alloc.bufferSize.toNat := by omega
  rw [rkBinderAllocCopyFromBuffer, rkBinderAllocDoBufferCopy, if_neg (ne_false_of_eq_true checked),
    areaOf, Pages.slice_slice hfits, Nat.add_comm (alloc.start b)]
  exact wf.bufferCopyLoop_eq b dest 0 hinside

end WellFormed

variable {cfg : Pages.Config} {alloc : BinderAlloc}

/-- The copy always returns. It returns zero if and only if the offset is a multiple of
four, the copy ends inside the buffer as exact numbers, and the buffer is in use and not
the user's to free. Then `dest` has the bytes of the buffer from the offset on, is as
before behind them, and only ranges inside single pages of the array were read.
Otherwise nothing is written or read. -/
theorem legacy_copy_is_slice (wf : alloc.WellFormed cfg) (b : Fin alloc.buffers.length)
    (offset bytes : UInt64) (dest : ℕ → UInt8) :
    ∃ result, rkBinderAllocCopyFromBuffer cfg alloc b dest offset bytes = some result ∧
      (result.rc = 0 ↔ offset.toNat % 4 = 0 ∧ offset.toNat + bytes.toNat ≤ alloc.extent b ∧
        (alloc.buffers.get b).free = false ∧
        ¬ ((alloc.buffers.get b).allowUserFree = true ∧
          (alloc.buffers.get b).transaction = true)) ∧
      (result.rc = 0 →
        (∀ k < bytes.toNat, some (result.dest k) = (alloc.areaOf b)[offset.toNat + k]?) ∧
        (∀ k, bytes.toNat ≤ k → result.dest k = dest k) ∧
        ∀ range ∈ result.touched, range.index < alloc.pages.length ∧
          range.offset + range.size ≤ 2 ^ cfg.shift) ∧
      (result.rc ≠ 0 → result.dest = dest ∧ result.touched = []) := by
  rw [← wf.check_iff b offset bytes]
  cases hchecked : rkCheckBuffer alloc b offset bytes with
  | true =>
    obtain ⟨touched, hcopy, hranges⟩ := wf.copyFromBuffer_of_check b dest hchecked
    have hlength : (Pages.slice (alloc.areaOf b) offset.toNat bytes.toNat).length =
        bytes.toNat := by
      apply Pages.length_slice
      rw [wf.length_areaOf b]
      exact ((wf.check_iff b offset bytes).mp hchecked).2.1
    refine ⟨_, hcopy, iff_of_true rfl rfl, fun _ => ⟨?_, ?_, hranges⟩, fun h => absurd rfl h⟩
    · intro k hk
      have hwritten := Pages.write_of_lt dest 0 (hk.trans_eq hlength.symm)
      rw [Nat.zero_add] at hwritten
      rw [hwritten, Pages.getElem?_slice hk]
    · intro k hk
      have hkept := Pages.write_of_le dest 0 (hlength.trans_le hk)
      rwa [Nat.zero_add] at hkept
  | false =>
    have hcopy := copyFromBuffer_of_not_check cfg b dest hchecked
    have hfailed : (-einval : ℤ) ≠ 0 := by decide
    exact ⟨_, hcopy, iff_of_false hfailed Bool.false_ne_true, fun h => absurd h hfailed,
      fun _ => ⟨rfl, rfl⟩⟩

/-- Two pages of four bytes; the first buffer has six of the bytes. -/
def twoPages : BinderAlloc where
  buffer := 8
  bufferSize := 8
  pages := [[1, 2, 3, 4], [5, 6, 7, 8]]
  buffers := [⟨8, false, false, true⟩, ⟨14, true, false, false⟩]

theorem wellFormed_twoPages : twoPages.WellFormed ⟨2, by decide⟩ where
  aligned := rfl
  addressable := by decide
  backed := rfl
  full := by decide
  ordered := by decide
  placed := by decide

/-- A copy of the whole first buffer, which goes over the end of the first page. -/
theorem legacy_copy_is_slice_twoPages :
    ∃ result, rkBinderAllocCopyFromBuffer ⟨2, by decide⟩ twoPages ⟨0, by decide⟩ (fun _ => 0) 0 6 =
        some result ∧
      result.rc = 0 ∧ result.dest 3 = 4 ∧ result.dest 4 = 5 ∧ result.dest 6 = 0 := by
  obtain ⟨result, hcopy, hrc, hcopied, -⟩ :=
    legacy_copy_is_slice wellFormed_twoPages ⟨0, by decide⟩ 0 6 fun _ => 0
  have hok : result.rc = 0 := hrc.mpr (by decide)
  obtain ⟨hbytes, hbehind, -⟩ := hcopied hok
  exact ⟨result, hcopy, hok, Option.some.inj (hbytes 3 (by decide)),
    Option.some.inj (hbytes 4 (by decide)), hbehind 6 (by decide)⟩

/-! ### The comparison over this copy -/

/-- The surroundings of the probe on a kernel without a copy to call. `place` is the
position of a buffer in the list of its process. -/
def legacyEnv (env : KpEnv) (cfg : Pages.Config) (alloc : BinderAlloc)
    (place : BinderBuffer → Fin alloc.buffers.length) : KpEnv where
  jhash := env.jhash
  task := env.task
  copyFromBuffer buffer offset bytes :=
    (rkBinderAllocCopyFromBuffer cfg alloc (place buffer) (fun _ => 0) (UInt64.ofNat offset)
      (UInt64.ofNat bytes)).bind fun result =>
        if result.rc = 0 then some ((List.range bytes).map result.dest) else none

variable {env : KpEnv} {place : BinderBuffer → Fin alloc.buffers.length} {buffer : BinderBuffer}

/-- For a buffer in use that is not the user's to free, the copy has the contract that
the comparison of two buffers rests on. -/
theorem WellFormed.copiesExactly (wf : alloc.WellFormed cfg)
    (inUse : (alloc.buffers.get (place buffer)).free = false)
    (kept : ¬ ((alloc.buffers.get (place buffer)).allowUserFree = true ∧
      (alloc.buffers.get (place buffer)).transaction = true)) :
    (legacyEnv env cfg alloc place).CopiesExactly buffer (alloc.areaOf (place buffer)) := by
  have hlength := wf.length_areaOf (place buffer)
  constructor
  · rw [hlength, ← wf.toNat_bufferSize]
    exact UInt64.toNat_lt _
  · intro offset bytes hoffset hbytes
    have hcheck := wf.check_iff (place buffer) (UInt64.ofNat offset) (UInt64.ofNat bytes)
    rw [UInt64.toNat_ofNat', UInt64.toNat_ofNat', Nat.mod_eq_of_lt hoffset,
      Nat.mod_eq_of_lt hbytes] at hcheck
    rw [legacyEnv]
    dsimp only
    by_cases hfits : offset % 4 = 0 ∧ offset + bytes ≤ (alloc.areaOf (place buffer)).length
    · have hchecked := hcheck.mpr ⟨hfits.1, hlength ▸ hfits.2, inUse, kept⟩
      obtain ⟨touched, hcopy, -⟩ :=
        wf.copyFromBuffer_of_check (place buffer) (fun _ => 0) hchecked
      have hwritten := Pages.map_range_write (fun _ => 0)
        (Pages.slice (alloc.areaOf (place buffer)) offset bytes)
      rw [Pages.length_slice hfits.2] at hwritten
      rw [UInt64.toNat_ofNat', UInt64.toNat_ofNat', Nat.mod_eq_of_lt hoffset,
        Nat.mod_eq_of_lt hbytes] at hcopy
      rw [hcopy, Option.bind_some, if_pos rfl, hwritten, if_pos hfits]
      rfl
    · have hrefused : rkCheckBuffer alloc (place buffer) (UInt64.ofNat offset)
          (UInt64.ofNat bytes) = false := by
        refine Bool.eq_false_of_not_eq_true fun hchecked => hfits ?_
        obtain ⟨haligned, hinside, -⟩ := hcheck.mp hchecked
        exact ⟨haligned, hlength.symm ▸ hinside⟩
      rw [copyFromBuffer_of_not_check cfg _ _ hrefused, Option.bind_some, if_neg hfits]
      exact if_neg (by decide)

/-- **The comparison over the module's own copy.** On a kernel without a copy to call, two
buffers in use whose data lie in their parts of the area are compared without a copy that is
refused or longer than 64 bytes, and compare equal if and only if their data are. -/
theorem legacy_comparison_decides_equality (wf : alloc.WellFormed cfg) (env : KpEnv)
    (place : BinderBuffer → Fin alloc.buffers.length) (b1 b2 : BinderBuffer)
    (inUse : ∀ b ∈ [b1, b2], (alloc.buffers.get (place b)).free = false ∧
      ¬ ((alloc.buffers.get (place b)).allowUserFree = true ∧
        (alloc.buffers.get (place b)).transaction = true))
    (fits : ∀ b ∈ [b1, b2], b.data <+: alloc.areaOf (place b)) :
    (∀ call ∈ (dataEqualWithCopies (legacyEnv env cfg alloc place) b1 b2).2,
      call.Accepted (legacyEnv env cfg alloc place)) ∧
    (rkxBinderBufferDataEqual (legacyEnv env cfg alloc place) b1 b2 = true ↔
      b1.data = b2.data) := by
  have hcopies : ∀ b ∈ [b1, b2], (legacyEnv env cfg alloc place).CopiesData b := fun b hb =>
    (wf.copiesExactly (inUse b hb).1 (inUse b hb).2).copiesData (fits b hb)
  have hcopies1 := hcopies b1 List.mem_cons_self
  have hcopies2 := hcopies b2 (List.mem_cons_of_mem _ List.mem_cons_self)
  exact ⟨accepted_of_mem_dataEqualWithCopies hcopies1 hcopies2,
    rkxBinderBufferDataEqual_iff hcopies1 hcopies2⟩

/-- The same six bytes twice, over three pages of four bytes. -/
def twinBuffers : BinderAlloc where
  buffer := 8
  bufferSize := 12
  pages := [[1, 2, 3, 4], [5, 6, 1, 2], [3, 4, 5, 6]]
  buffers := [⟨8, false, false, true⟩, ⟨14, false, false, true⟩]

theorem wellFormed_twinBuffers : twinBuffers.WellFormed ⟨2, by decide⟩ where
  aligned := rfl
  addressable := by decide
  backed := rfl
  full := by decide
  ordered := by decide
  placed := by decide

/-- The buffer of the sender 1 is the first, all others are the second. -/
def twinPlace (b : BinderBuffer) : Fin twinBuffers.buffers.length :=
  if b.pid = 1 then ⟨0, by decide⟩ else ⟨1, by decide⟩

theorem legacy_comparison_decides_equality_twins :
    rkxBinderBufferDataEqual (legacyEnv frozenEnv ⟨2, by decide⟩ twinBuffers twinPlace)
      ⟨[1, 2, 3, 4, 5, 6], 0, 1, ⟨0, 0, 0⟩⟩ ⟨[1, 2, 3, 4, 5, 6], 0, 2, ⟨0, 0, 0⟩⟩ = true :=
  (legacy_comparison_decides_equality wellFormed_twinBuffers frozenEnv twinPlace _ _ (by decide)
    (by decide)).2.mpr rfl

end BinderAlloc

end ReKernelX
