import Mathlib.Data.List.Basic
import Mathlib.Data.Nat.Notation

/-!
# Modified UTF-8

The byte strings that a Java virtual machine accepts as C strings: every
character is one, two or three bytes, a character outside the basic plane is two
characters of three bytes each, and no byte is zero. Four-byte sequences do not
occur.

Well-formedness is defined by the grammar, which reads a string from the left.
It can also be told from the neighbours of each byte alone.
-/

set_option autoImplicit false

namespace ModifiedUtf8

/-- What a byte can be in a string. -/
inductive Kind
  /-- A character of its own. -/
  | single
  /-- A continuation byte. -/
  | cont
  /-- The first byte of two. -/
  | lead2
  /-- The first byte of three. -/
  | lead3
  /-- Not a byte of Modified UTF-8. -/
  | bad
  deriving DecidableEq

/-- The kind of a byte is in its leading bits. -/
def kind (b : UInt8) : Kind :=
  if b = 0 then .bad
  else if b < 0x80 then .single
  else if b < 0xC0 then .cont
  else if b < 0xE0 then .lead2
  else if b < 0xF0 then .lead3
  else .bad

/-- A sequence of characters. -/
inductive WellFormed : List UInt8 → Prop
  | nil : WellFormed []
  | one {a : UInt8} {rest : List UInt8} (ha : kind a = .single) (hrest : WellFormed rest) :
      WellFormed (a :: rest)
  | two {a b : UInt8} {rest : List UInt8} (ha : kind a = .lead2) (hb : kind b = .cont)
      (hrest : WellFormed rest) : WellFormed (a :: b :: rest)
  | three {a b c : UInt8} {rest : List UInt8} (ha : kind a = .lead3) (hb : kind b = .cont)
      (hc : kind c = .cont) (hrest : WellFormed rest) : WellFormed (a :: b :: c :: rest)

/-! ### Byte by byte -/

/-- The kind of the byte at an index; there is none past the end. -/
def kindAt (s : List UInt8) (i : ℕ) : Kind := kind (s.getD i 0)

@[simp] theorem kindAt_cons_zero (a : UInt8) (s : List UInt8) : kindAt (a :: s) 0 = kind a := rfl

@[simp] theorem kindAt_cons_succ (a : UInt8) (s : List UInt8) (i : ℕ) :
    kindAt (a :: s) (i + 1) = kindAt s i := rfl

@[simp] theorem kindAt_nil (i : ℕ) : kindAt [] i = .bad := rfl

/-- A continuation byte belongs to a leading byte before it. -/
def Owned (s : List UInt8) : ℕ → Prop
  | 0 => False
  | 1 => kindAt s 0 = .lead2 ∨ kindAt s 0 = .lead3
  | i + 2 => kindAt s (i + 1) = .lead2 ∨ kindAt s (i + 1) = .lead3 ∨
      kindAt s (i + 1) = .cont ∧ kindAt s i = .lead3

/-- The byte at an index is in its place: a leading byte is followed by its
continuation bytes, and a continuation byte belongs to a leading byte. -/
def InPlace (s : List UInt8) (i : ℕ) : Prop :=
  match kindAt s i with
  | .single => True
  | .lead2 => kindAt s (i + 1) = .cont
  | .lead3 => kindAt s (i + 1) = .cont ∧ kindAt s (i + 2) = .cont
  | .cont => Owned s i
  | .bad => False

variable {s : List UInt8} {a : UInt8} {i : ℕ}

/-- Being in place depends on the byte, the two behind it and its owner. -/
theorem InPlace.transfer {t : List UInt8} {j : ℕ} (h : InPlace s i) (same : kindAt t j = kindAt s i)
    (next : kindAt t (j + 1) = kindAt s (i + 1)) (next2 : kindAt t (j + 2) = kindAt s (i + 2))
    (owned : Owned s i → Owned t j) : InPlace t j := by
  unfold InPlace at h ⊢
  rw [same, next, next2]
  cases hkind : kindAt s i with
  | single => trivial
  | cont =>
    rw [hkind] at h
    exact owned h
  | lead2 =>
    rw [hkind] at h
    exact h
  | lead3 =>
    rw [hkind] at h
    exact h
  | bad =>
    rw [hkind] at h
    exact h

theorem Owned.cons (h : Owned s i) : Owned (a :: s) (i + 1) := by
  match i with
  | 0 => exact h.elim
  | 1 =>
    rcases h with h | h
    · exact .inl h
    · exact .inr (.inl h)
  | i + 2 => exact h

/-- In front of a byte in place, any byte may be put. -/
theorem InPlace.cons (h : InPlace s i) : InPlace (a :: s) (i + 1) :=
  h.transfer rfl rfl rfl Owned.cons

theorem Owned.of_cons (h : Owned (a :: s) (i + 1))
    (first : i = 0 → kind a ≠ .lead2 ∧ kind a ≠ .lead3) (second : i = 1 → kind a ≠ .lead3) :
    Owned s i := by
  match i with
  | 0 =>
    rcases h with h | h
    · exact absurd h (first rfl).1
    · exact absurd h (first rfl).2
  | 1 =>
    rcases h with h | h | ⟨-, h⟩
    · exact .inl h
    · exact .inr h
    · exact absurd h (second rfl)
  | i + 2 => exact h

/-- A byte to which nothing behind it belongs can be taken away. -/
theorem InPlace.of_cons (h : InPlace (a :: s) (i + 1))
    (first : i = 0 → kind a ≠ .lead2 ∧ kind a ≠ .lead3) (second : i = 1 → kind a ≠ .lead3) :
    InPlace s i :=
  h.transfer rfl rfl rfl fun owned => owned.of_cons first second

theorem WellFormed.inPlace (h : WellFormed s) : ∀ i < s.length, InPlace s i := by
  induction h with
  | nil => intro i hi; exact absurd hi (Nat.not_lt_zero i)
  | one ha _ ih =>
    intro i hi
    match i with
    | 0 => simp [InPlace, ha]
    | i + 1 => exact (ih i (by simpa using hi)).cons
  | two ha hb _ ih =>
    intro i hi
    match i with
    | 0 => simp [InPlace, ha, hb]
    | 1 => simp [InPlace, Owned, ha, hb]
    | i + 2 => exact (ih i (by simpa using hi)).cons.cons
  | three ha hb hc _ ih =>
    intro i hi
    match i with
    | 0 => simp [InPlace, ha, hb, hc]
    | 1 => simp [InPlace, Owned, ha, hb]
    | 2 => simp [InPlace, Owned, ha, hb, hc]
    | i + 3 => exact (ih i (by simpa using hi)).cons.cons.cons

/-- The first byte of a string that is in place starts a character. -/
theorem WellFormed.of_inPlace (h : ∀ i < s.length, InPlace s i) : WellFormed s := by
  -- on the length: after the first character the rest is shorter, and still in place
  induction hn : s.length using Nat.strongRecOn generalizing s with
  | _ n ih =>
  subst hn
  match s with
  | [] => exact .nil
  | a :: s =>
    have hfirst := h 0 (Nat.succ_pos _)
    unfold InPlace at hfirst
    rw [kindAt_cons_zero] at hfirst
    cases ha : kind a with
    | bad =>
      rw [ha] at hfirst
      exact hfirst.elim
    | cont =>
      rw [ha] at hfirst
      exact hfirst.elim
    | single =>
      refine .one ha (ih s.length (Nat.lt_add_of_pos_right (by omega : 0 < 1)) ?_ rfl)
      intro i hi
      exact (h (i + 1) (by simpa using hi)).of_cons (by simp [ha]) (by simp [ha])
    | lead2 =>
      rw [ha] at hfirst
      match s with
      | [] => exact absurd hfirst (by simp)
      | b :: s =>
        have hb : kind b = .cont := hfirst
        refine .two ha hb (ih s.length (Nat.lt_add_of_pos_right (by omega : 0 < 2)) ?_ rfl)
        intro i hi
        apply InPlace.of_cons (a := b) _ (by simp [hb]) (by simp [hb])
        exact (h (i + 2) (by simpa using hi)).of_cons (by simp) (by simp [ha])
    | lead3 =>
      rw [ha] at hfirst
      match s with
      | [] => exact absurd hfirst.1 (by simp)
      | [b] => exact absurd hfirst.2 (by simp)
      | b :: c :: s =>
        have hb : kind b = .cont := hfirst.1
        have hc : kind c = .cont := hfirst.2
        refine .three ha hb hc (ih s.length (Nat.lt_add_of_pos_right (by omega : 0 < 3)) ?_ rfl)
        intro i hi
        apply InPlace.of_cons (a := c) _ (by simp [hc]) (by simp [hc])
        apply InPlace.of_cons (a := b) _ (by simp) (by simp [hb])
        exact (h (i + 3) (by simpa using hi)).of_cons (by simp) (by simp)

/-- A string is well formed if and only if each of its bytes is in place. -/
theorem wellFormed_iff : WellFormed s ↔ ∀ i < s.length, InPlace s i :=
  ⟨WellFormed.inPlace, WellFormed.of_inPlace⟩

end ModifiedUtf8
