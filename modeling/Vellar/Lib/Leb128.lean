import Mathlib

/-!
# Vellar.Lib.Leb128 — unsigned LEB128

`Encodes bytes n`: seven bits a byte, least first, with the high bit on every byte but the last; `EncodesU32` is a number of
32 bits in five bytes at most.  `or_shiftLeft` is the step of a decoder that collects the number in a word of 32 bits.
-/

set_option autoImplicit false

namespace Vellar.Leb128

/-- The bytes are a number, with as many zeros behind its bits as there is room for. -/
inductive Encodes : List UInt8 → ℕ → Prop
  | last {b : UInt8} (h : b.toNat < 128) : Encodes [b] b.toNat
  | more {b : UInt8} {bytes : List UInt8} {n : ℕ} (h : 128 ≤ b.toNat) (hrest : Encodes bytes n) :
      Encodes (b :: bytes) (b.toNat % 128 + 128 * n)

theorem not_encodes_nil {n : ℕ} : ¬ Encodes [] n := by
  rintro ⟨⟩

theorem encodes_last_iff {b : UInt8} {bytes : List UInt8} {n : ℕ} (hb : b.toNat < 128) :
    Encodes (b :: bytes) n ↔ bytes = [] ∧ n = b.toNat := by
  constructor
  · intro h
    cases h with
    | last => exact ⟨rfl, rfl⟩
    | more hb' => omega
  · rintro ⟨rfl, rfl⟩
    exact .last hb

theorem encodes_more_iff {b : UInt8} {bytes : List UInt8} {n : ℕ} (hb : 128 ≤ b.toNat) :
    Encodes (b :: bytes) n ↔ ∃ m, Encodes bytes m ∧ n = b.toNat % 128 + 128 * m := by
  constructor
  · intro h
    cases h with
    | last hb' => omega
    | more _ hrest => exact ⟨_, hrest, rfl⟩
  · rintro ⟨m, hrest, rfl⟩
    exact .more hb hrest

/-- A number begins with the byte that its bytes begin with. -/
theorem Encodes.eq_cons {b : UInt8} {bytes used rest : List UInt8} {n : ℕ} (h : Encodes used n)
    (heq : b :: bytes = used ++ rest) : ∃ tail, used = b :: tail := by
  cases h with
  | last => exact ⟨[], by rw [(List.cons_eq_cons.mp heq).1]⟩
  | more => exact ⟨_, by rw [(List.cons_eq_cons.mp heq).1]⟩

/-- A number of 32 bits, in five bytes at most. -/
structure EncodesU32 (bytes : List UInt8) (n : ℕ) : Prop where
  encodes : Encodes bytes n
  length : bytes.length ≤ 5
  bound : n < 2 ^ 32

theorem and_high_eq_zero {b : UInt8} : b &&& 0x80 = 0 ↔ b.toNat < 128 := by
  have h : ∀ n < 256, UInt8.ofNat n &&& 0x80 = 0 ↔ n < 128 := by decide +kernel
  simpa using h b.toNat b.toNat_lt

theorem toNat_and_low {b : UInt8} : (b &&& 0x7f).toNat = b.toNat % 128 := by
  rw [UInt8.toNat_and]
  exact Nat.and_two_pow_sub_one_eq_mod b.toNat 7

/-- **Collecting**: below the shift the word is as it was, and the new bits come above. -/
theorem or_shiftLeft {word x shift : UInt32} (hshift : shift.toNat < 32) (hword : word.toNat < 2 ^ shift.toNat)
    (hx : x.toNat * 2 ^ shift.toNat < 2 ^ 32) : (word ||| (x <<< shift)).toNat = word.toNat + x.toNat * 2 ^ shift.toNat := by
  rw [UInt32.toNat_or, UInt32.toNat_shiftLeft, Nat.mod_eq_of_lt hshift, Nat.shiftLeft_eq, Nat.mod_eq_of_lt hx,
    ← Nat.shiftLeft_eq, Nat.or_comm, ← Nat.shiftLeft_add_eq_or_of_lt hword, Nat.add_comm]

end Vellar.Leb128
