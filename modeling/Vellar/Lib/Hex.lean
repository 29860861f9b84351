import Mathlib

/-!
# Vellar.Lib.Hex — hexadecimal text

`hexOf` writes bytes as lower-case hexadecimal, `fromHex` reads a text pair by pair and stops at the first
pair that is not hexadecimal.  What `hexOf` writes `fromHex` reads back, so `hexOf` is injective.
-/

set_option autoImplicit false

namespace Vellar.Hex

/-- The digit of a number below sixteen. -/
def hexDigit (n : ℕ) : Char := if n < 10 then Char.ofNat (48 + n) else Char.ofNat (87 + n)

/-- The value of a digit, of either case. -/
def hexValue (c : Char) : Option ℕ :=
  if '0' ≤ c ∧ c ≤ '9' then some (c.toNat - 48)
  else if 'a' ≤ c ∧ c ≤ 'f' then some (c.toNat - 87)
  else if 'A' ≤ c ∧ c ≤ 'F' then some (c.toNat - 55)
  else none

def hexChars (bytes : List UInt8) : List Char :=
  bytes.flatMap fun b => [hexDigit (b.toNat / 16), hexDigit (b.toNat % 16)]

def hexOf (bytes : List UInt8) : String := String.ofList (hexChars bytes)

/-- Read pairs of digits up to the first pair that is none. -/
def fromPairs : List Char → List UInt8
  | a :: b :: rest =>
    match hexValue a, hexValue b with
    | some x, some y => UInt8.ofNat (16 * x + y) :: fromPairs rest
    | _, _ => []
  | _ => []

def fromHex (s : String) : List UInt8 := fromPairs s.toList

/-- A digit `hexOf` writes. -/
def IsDigit (c : Char) : Prop := ('0' ≤ c ∧ c ≤ '9') ∨ ('a' ≤ c ∧ c ≤ 'f')

instance (c : Char) : Decidable (IsDigit c) := inferInstanceAs (Decidable (_ ∨ _))

theorem isDigit_hexDigit {n : ℕ} (h : n < 16) : IsDigit (hexDigit n) := by
  revert n
  decide

theorem hexValue_hexDigit {n : ℕ} (h : n < 16) : hexValue (hexDigit n) = some n := by
  revert n
  decide

theorem isDigit_of_mem {bytes : List UInt8} {c : Char} (h : c ∈ hexChars bytes) : IsDigit c := by
  obtain ⟨b, -, hc⟩ := List.mem_flatMap.mp h
  have hb := b.toNat_lt
  rcases List.mem_cons.mp hc with rfl | hc
  · exact isDigit_hexDigit (by omega)
  · rw [List.mem_singleton.mp hc]
    exact isDigit_hexDigit (by omega)

theorem length_hexChars (bytes : List UInt8) : (hexChars bytes).length = 2 * bytes.length := by
  unfold hexChars
  rw [List.length_flatMap]
  simp [Nat.mul_comm]

theorem fromPairs_hexChars (bytes : List UInt8) : fromPairs (hexChars bytes) = bytes := by
  induction bytes with
  | nil => rfl
  | cons b bytes ih =>
    have hb := b.toNat_lt
    have hval : 16 * (b.toNat / 16) + b.toNat % 16 = b.toNat := Nat.div_add_mod b.toNat 16
    show fromPairs (hexDigit (b.toNat / 16) :: hexDigit (b.toNat % 16) :: hexChars bytes) = _
    rw [fromPairs, hexValue_hexDigit (by omega), hexValue_hexDigit (by omega)]
    simp only [hval, ih, UInt8.ofNat_toNat]

/-- **Round trip**: reading what was written. -/
theorem fromHex_hexOf (bytes : List UInt8) : fromHex (hexOf bytes) = bytes := by
  unfold fromHex hexOf
  rw [String.toList_ofList, fromPairs_hexChars]

end Vellar.Hex
