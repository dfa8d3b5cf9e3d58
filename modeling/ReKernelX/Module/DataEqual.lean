import ReKernelX.Module.Transaction

/-!
# Comparing the data of two buffers

`rkx_binder_buffer_data_equal` compares 64 bytes at a time, through copies that
the driver refuses unless their offset is a multiple of four and they stay
inside the buffer. A chunk is 64 bytes unless it is the last, so every offset is
a multiple of 64: no copy is refused, and the answer is whether the data is the
same.
-/

set_option autoImplicit false

namespace ReKernelX

variable {env : KpEnv} {b1 b2 : BinderBuffer}

/-! ### What the copy does on one buffer -/

/-- Aligned copies inside the data of a buffer succeed with those bytes. -/
def KpEnv.CopiesData (env : KpEnv) (b : BinderBuffer) : Prop :=
  ∀ offset bytes, offset % 4 = 0 → offset + bytes ≤ b.dataSize →
    env.copyFromBuffer b offset bytes = some ((b.data.drop offset).take bytes)

theorem KpEnv.Faithful.copiesData (faithful : env.Faithful) (b : BinderBuffer) :
    env.CopiesData b :=
  faithful b

/-- The contract of the driver's copy on a buffer that takes up `area`: it succeeds with
the bytes there exactly when the offset is aligned and the copy ends inside the area.
Offsets and sizes are 64 bits wide. -/
def KpEnv.CopiesExactly (env : KpEnv) (b : BinderBuffer) (area : List UInt8) : Prop :=
  area.length < 2 ^ 64 ∧
    ∀ offset bytes, offset < 2 ^ 64 → bytes < 2 ^ 64 →
      env.copyFromBuffer b offset bytes =
        if offset % 4 = 0 ∧ offset + bytes ≤ area.length then
          some ((area.drop offset).take bytes)
        else none

/-- The data of a buffer stands at the start of its area. -/
theorem KpEnv.CopiesExactly.copiesData {b : BinderBuffer} {area : List UInt8}
    (copies : env.CopiesExactly b area) (fits : b.data <+: area) : env.CopiesData b := by
  intro offset bytes aligned inside
  obtain ⟨rest, rfl⟩ := fits
  obtain ⟨hsize, hcopy⟩ := copies
  rw [BinderBuffer.dataSize] at inside
  rw [List.length_append] at hsize
  rw [hcopy offset bytes (by omega) (by omega), if_pos ⟨aligned, by rw [List.length_append]; omega⟩,
    List.drop_append_of_le_length (by omega), List.take_append_of_le_length]
  rw [List.length_drop]
  omega

theorem KpEnv.CopiesData.chunk {b : BinderBuffer} {total pos : ℕ} (copies : env.CopiesData b)
    (aligned : pos % 4 = 0) (more : pos < total) (size : b.dataSize = total) :
    env.copyFromBuffer b pos (min (total - pos) 64) =
      some ((b.data.drop pos).take (min (total - pos) 64)) :=
  copies pos _ aligned (by omega)

/-! ### The answer -/

/-- From an offset the copy accepts, the loop decides equality of the remaining
data. -/
theorem dataEqualLoop_iff (copies1 : env.CopiesData b1) (copies2 : env.CopiesData b2) {total : ℕ}
    (size1 : b1.dataSize = total) (size2 : b2.dataSize = total) (pos : ℕ)
    (aligned : pos % 4 = 0 ∨ total ≤ pos) :
    (dataEqualLoop env b1 b2 total pos).1 = true ↔ b1.data.drop pos = b2.data.drop pos := by
  -- on the bytes left; a chunk is 64 bytes unless it is the last, so offsets stay aligned
  induction hmeasure : total - pos using Nat.strong_induction_on generalizing pos with
  | _ n ih =>
    rw [dataEqualLoop]
    by_cases hpos : pos < total
    · have haligned : pos % 4 = 0 := by omega
      have hcopy1 := copies1.chunk haligned hpos size1
      have hcopy2 := copies2.chunk haligned hpos size2
      have hnext := ih (total - (pos + min (total - pos) 64)) (by omega)
        (pos + min (total - pos) 64) (by omega) rfl
      simp only [if_pos hpos, hcopy1, hcopy2, List.take_take, min_self]
      -- the remaining data is this chunk followed by what the next round compares
      have hsplit : ∀ b : BinderBuffer, b.data.drop pos =
          (b.data.drop pos).take (min (total - pos) 64) ++
            b.data.drop (pos + min (total - pos) 64) := by
        intro b
        rw [← List.drop_drop, List.take_append_drop]
      by_cases hchunk : (b1.data.drop pos).take (min (total - pos) 64) =
          (b2.data.drop pos).take (min (total - pos) 64)
      · rw [if_neg (not_not_intro hchunk), hnext]
        constructor
        · intro hrest
          rw [hsplit b1, hsplit b2, hchunk, hrest]
        · intro hall
          rw [← List.drop_drop, ← List.drop_drop, hall]
      · rw [if_pos hchunk]
        constructor
        · intro hfalse
          cases hfalse
        · intro hall
          exact absurd (congrArg (List.take _) hall) hchunk
    · rw [if_neg hpos, List.drop_of_length_le (le_of_eq_of_le size1 (by omega)),
        List.drop_of_length_le (le_of_eq_of_le size2 (by omega))]
      simp

/-- The chunked comparison decides equality of the data. -/
theorem rkxBinderBufferDataEqual_iff (copies1 : env.CopiesData b1) (copies2 : env.CopiesData b2) :
    rkxBinderBufferDataEqual env b1 b2 = true ↔ b1.data = b2.data := by
  rw [rkxBinderBufferDataEqual, dataEqualWithCopies]
  by_cases hsize : b1.dataSize = b2.dataSize
  · rw [if_neg (not_not_intro hsize),
      dataEqualLoop_iff copies1 copies2 rfl hsize.symm 0 (Or.inl rfl), List.drop_zero,
      List.drop_zero]
  · rw [if_pos hsize]
    constructor
    · intro hfalse
      cases hfalse
    · intro hdata
      exact absurd (congrArg List.length hdata) hsize

/-! ### The copies -/

/-- A copy fits the 64 bytes it goes to, and it is not refused. -/
def CopyCall.Accepted (env : KpEnv) (call : CopyCall) : Prop :=
  call.bytes ≤ 64 ∧ (env.copyFromBuffer call.buffer call.offset call.bytes).isSome

theorem KpEnv.CopiesData.accepted {b : BinderBuffer} {total pos : ℕ} (copies : env.CopiesData b)
    (aligned : pos % 4 = 0) (more : pos < total) (size : b.dataSize = total) :
    CopyCall.Accepted env ⟨b, pos, min (total - pos) 64⟩ :=
  ⟨Nat.min_le_right .., Option.isSome_of_eq_some (copies.chunk aligned more size)⟩

theorem accepted_of_mem_dataEqualLoop (copies1 : env.CopiesData b1)
    (copies2 : env.CopiesData b2) {total : ℕ} (size1 : b1.dataSize = total)
    (size2 : b2.dataSize = total) (pos : ℕ) (aligned : pos % 4 = 0 ∨ total ≤ pos) :
    ∀ call ∈ (dataEqualLoop env b1 b2 total pos).2, call.Accepted env := by
  induction hmeasure : total - pos using Nat.strong_induction_on generalizing pos with
  | _ n ih =>
    rw [dataEqualLoop]
    by_cases hpos : pos < total
    · have haligned : pos % 4 = 0 := by omega
      have haccepted1 := copies1.accepted haligned hpos size1
      have haccepted2 := copies2.accepted haligned hpos size2
      have hrest := ih (total - (pos + min (total - pos) 64)) (by omega)
        (pos + min (total - pos) 64) (by omega) rfl
      simp only [if_pos hpos, copies1.chunk haligned hpos size1,
        copies2.chunk haligned hpos size2]
      split_ifs
      · rw [List.forall_mem_cons, List.forall_mem_singleton]
        exact ⟨haccepted1, haccepted2⟩
      · rw [List.forall_mem_cons, List.forall_mem_cons]
        exact ⟨haccepted1, haccepted2, hrest⟩
    · rw [if_neg hpos]
      exact List.forall_mem_nil _

theorem accepted_of_mem_dataEqualWithCopies (copies1 : env.CopiesData b1)
    (copies2 : env.CopiesData b2) :
    ∀ call ∈ (dataEqualWithCopies env b1 b2).2, call.Accepted env := by
  rw [dataEqualWithCopies]
  by_cases hsize : b1.dataSize = b2.dataSize
  · rw [if_neg (not_not_intro hsize)]
    exact accepted_of_mem_dataEqualLoop copies1 copies2 rfl hsize.symm 0 (Or.inl rfl)
  · rw [if_pos hsize]
    exact List.forall_mem_nil _

/-- On buffers whose data lies in the area the driver checks copies against, the
comparison makes no copy that is refused or longer than 64 bytes, and it holds if and
only if the sizes and all bytes are the same. -/
theorem dataEqual_decides_equality {area1 area2 : List UInt8}
    (copies1 : env.CopiesExactly b1 area1) (copies2 : env.CopiesExactly b2 area2)
    (fits1 : b1.data <+: area1) (fits2 : b2.data <+: area2) :
    (dataEqualWithCopies env b1 b2).1 = rkxBinderBufferDataEqual env b1 b2 ∧
    (∀ call ∈ (dataEqualWithCopies env b1 b2).2, call.bytes ≤ 64 ∧
      (env.copyFromBuffer call.buffer call.offset call.bytes).isSome) ∧
    (rkxBinderBufferDataEqual env b1 b2 = true ↔
      b1.dataSize = b2.dataSize ∧ ∀ i < b1.dataSize, b1.data[i]? = b2.data[i]?) := by
  have hcopies1 := copies1.copiesData fits1
  have hcopies2 := copies2.copiesData fits2
  refine ⟨rfl, accepted_of_mem_dataEqualWithCopies hcopies1 hcopies2, ?_⟩
  rw [rkxBinderBufferDataEqual_iff hcopies1 hcopies2]
  constructor
  · intro hdata
    rw [BinderBuffer.dataSize, BinderBuffer.dataSize, hdata]
    exact ⟨rfl, fun _ _ => rfl⟩
  · rintro ⟨hsize, hbytes⟩
    refine List.ext_getElem? fun i => ?_
    by_cases hi : i < b1.dataSize
    · exact hbytes i hi
    · have hbehind1 : b1.data.length ≤ i := Nat.le_of_not_lt hi
      have hbehind2 : b2.data.length ≤ i := hsize.symm.le.trans hbehind1
      rw [List.getElem?_eq_none hbehind1, List.getElem?_eq_none hbehind2]

/-- Two buffers of 66 bytes, compared in two rounds, of which the second differs. -/
theorem dataEqual_decides_equality_66 :
    rkxBinderBufferDataEqual frozenEnv ⟨List.replicate 66 1, 0, 0, ⟨0, 0, 0⟩⟩
        ⟨List.replicate 66 1, 0, 0, ⟨0, 0, 0⟩⟩ = true ∧
    rkxBinderBufferDataEqual frozenEnv ⟨List.replicate 66 1, 0, 0, ⟨0, 0, 0⟩⟩
        ⟨List.replicate 65 1 ++ [2], 0, 0, ⟨0, 0, 0⟩⟩ = false := by
  have hexact : ∀ b : BinderBuffer, b.data.length < 2 ^ 64 → frozenEnv.CopiesExactly b b.data :=
    fun b hb => ⟨hb, fun _ _ _ _ => rfl⟩
  constructor
  · refine ((dataEqual_decides_equality (hexact _ ?_) (hexact _ ?_) (List.prefix_refl _)
      (List.prefix_refl _)).2.2).mpr ⟨rfl, fun _ _ => rfl⟩ <;> decide
  · refine Bool.eq_false_of_not_eq_true fun hequal => ?_
    obtain ⟨-, hbytes⟩ := ((dataEqual_decides_equality (hexact _ (by decide)) (hexact _ (by decide))
      (List.prefix_refl _) (List.prefix_refl _)).2.2).mp hequal
    exact absurd (hbytes 65 (by decide)) (by decide)

end ReKernelX
