import Vellar.Lib.WebText

/-!
# Vellar.Lib.Utf16 — the code points of a text

A text is cut into code points; a surrogate without its partner is a code point of its own.  `utf8` is the encoding of
a code point, and `encodeUtf8` that of a text, in which the replacement character stands for a lone surrogate.
-/

set_option autoImplicit false

namespace Vellar.Utf16

open WebText (Text)

def isLead (c : UInt16) : Bool := decide (0xd800 ≤ c.toNat ∧ c.toNat < 0xdc00)

def isTrail (c : UInt16) : Bool := decide (0xdc00 ≤ c.toNat ∧ c.toNat < 0xe000)

def isSurrogate (n : ℕ) : Bool := decide (0xd800 ≤ n ∧ n < 0xe000)

/-- The code point of a pair of surrogates. -/
def ofPair (lead trail : UInt16) : ℕ := 0x10000 + (lead.toNat - 0xd800) * 0x400 + (trail.toNat - 0xdc00)

def codePoints : Text → List ℕ
  | a :: b :: rest =>
    if isLead a && isTrail b then ofPair a b :: codePoints rest else a.toNat :: codePoints (b :: rest)
  | [a] => [a.toNat]
  | [] => []

/-- The units of a code point. -/
def units (n : ℕ) : Text :=
  if n < 0x10000 then [UInt16.ofNat n]
  else [UInt16.ofNat (0xd800 + (n - 0x10000) / 0x400), UInt16.ofNat (0xdc00 + (n - 0x10000) % 0x400)]

def utf8 (n : ℕ) : List UInt8 :=
  if n < 0x80 then [UInt8.ofNat n]
  else if n < 0x800 then [UInt8.ofNat (0xc0 + n / 0x40), UInt8.ofNat (0x80 + n % 0x40)]
  else if n < 0x10000 then
    [UInt8.ofNat (0xe0 + n / 0x1000), UInt8.ofNat (0x80 + n / 0x40 % 0x40), UInt8.ofNat (0x80 + n % 0x40)]
  else
    [UInt8.ofNat (0xf0 + n / 0x40000), UInt8.ofNat (0x80 + n / 0x1000 % 0x40), UInt8.ofNat (0x80 + n / 0x40 % 0x40),
      UInt8.ofNat (0x80 + n % 0x40)]

/-- What `TextEncoder` makes of a text. -/
def encodeUtf8 (t : Text) : List UInt8 :=
  (codePoints t).flatMap fun n => utf8 (if isSurrogate n then 0xfffd else n)

theorem units_of_unit (a : UInt16) : units a.toNat = [a] := by
  have ha : a.toNat < 0x10000 := a.toNat_lt
  rw [units, if_pos ha, UInt16.ofNat_toNat]

theorem units_ofPair {a b : UInt16} (ha : isLead a = true) (hb : isTrail b = true) : units (ofPair a b) = [a, b] := by
  obtain ⟨ha1, ha2⟩ := of_decide_eq_true ha
  obtain ⟨hb1, hb2⟩ := of_decide_eq_true hb
  have hlead : 0xd800 + (ofPair a b - 0x10000) / 0x400 = a.toNat := by
    unfold ofPair
    omega
  have htrail : 0xdc00 + (ofPair a b - 0x10000) % 0x400 = b.toNat := by
    unfold ofPair
    omega
  have hbig : ¬ ofPair a b < 0x10000 := by
    unfold ofPair
    omega
  rw [units, if_neg hbig, hlead, htrail, UInt16.ofNat_toNat, UInt16.ofNat_toNat]

/-- A text is the units of its code points. -/
theorem flatMap_units_codePoints (t : Text) : (codePoints t).flatMap units = t := by
  fun_induction codePoints t with
  | case1 a b rest h ih =>
    obtain ⟨ha, hb⟩ := Bool.and_eq_true_iff.mp h
    rw [List.flatMap_cons, ih, units_ofPair ha hb]
    rfl
  | case2 a b rest h ih =>
    rw [List.flatMap_cons, ih, units_of_unit]
    rfl
  | case3 a =>
    rw [List.flatMap_cons, units_of_unit]
    rfl
  | case4 => rfl

theorem codePoints_lt (t : Text) : ∀ n ∈ codePoints t, n < 0x110000 := by
  fun_induction codePoints t with
  | case1 a b rest h ih =>
    obtain ⟨ha, hb⟩ := Bool.and_eq_true_iff.mp h
    obtain ⟨-, ha2⟩ := of_decide_eq_true ha
    obtain ⟨-, hb2⟩ := of_decide_eq_true hb
    refine List.forall_mem_cons.mpr ⟨?_, ih⟩
    unfold ofPair
    omega
  | case2 a b rest h ih =>
    have ha : a.toNat < 0x10000 := a.toNat_lt
    exact List.forall_mem_cons.mpr ⟨by omega, ih⟩
  | case3 a =>
    have ha : a.toNat < 0x10000 := a.toNat_lt
    exact List.forall_mem_singleton.mpr (by omega)
  | case4 => exact fun n hn => absurd hn List.not_mem_nil

end Vellar.Utf16
