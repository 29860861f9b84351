import Mathlib

/-!
# Vellar.Lib.Decimal — decimal texts with a fixed number of places

`text places n` writes `n` units of the last place, with a digit at least before the point; `units` reads the digits of a
text, whatever their places.  What `text` writes `units` reads back, so `text` is injective.  `value` reads a numeral as a
rational number; `unsigned_withFraction` is its
rule for a fraction filled up with zeros on the left and cut of its zeros on the right.
-/

set_option autoImplicit false

namespace Vellar.Decimal

variable {places n : ℕ}

/-- The digits from the last place up, more than the places. -/
def digitsOf (places n : ℕ) : List ℕ := Nat.digits 10 n ++ List.replicate (places + 1 - (Nat.digits 10 n).length) 0

def digitChar (d : ℕ) : Char := Char.ofNat (48 + d)

def digitValue (c : Char) : ℕ := c.toNat - 48

def chars (places n : ℕ) : List Char :=
  ((digitsOf places n).drop places).reverse.map digitChar ++
    '.' :: ((digitsOf places n).take places).reverse.map digitChar

def text (places n : ℕ) : String := String.ofList (chars places n)

/-- The digits of a text as a number; the point is skipped. -/
def units (s : String) : ℕ := Nat.ofDigits 10 ((s.toList.filter (· ≠ '.')).reverse.map digitValue)

theorem digit_lt {d : ℕ} (h : d ∈ digitsOf places n) : d < 10 := by
  rcases List.mem_append.mp h with h | h
  · exact Nat.digits_lt_base (by decide) h
  · rw [List.eq_of_mem_replicate h]
    decide

theorem digitValue_digitChar {d : ℕ} (h : d < 10) : digitValue (digitChar d) = d ∧ digitChar d ≠ '.' := by
  revert d
  decide

theorem ofDigits_digitsOf : Nat.ofDigits 10 (digitsOf places n) = n := by
  rw [digitsOf, Nat.ofDigits_append_replicate_zero, Nat.ofDigits_digits]

/-- Digits are kept where the point is dropped. -/
theorem filter_digits {ds : List ℕ} (h : ∀ d ∈ ds, d < 10) :
    (ds.map digitChar).filter (· ≠ '.') = ds.map digitChar := by
  rw [List.filter_eq_self]
  intro c hc
  obtain ⟨d, hd, rfl⟩ := List.mem_map.mp hc
  exact decide_eq_true (digitValue_digitChar (h d hd)).2

theorem map_digitValue {ds : List ℕ} (h : ∀ d ∈ ds, d < 10) : (ds.map digitChar).map digitValue = ds := by
  rw [List.map_map]
  refine List.map_congr_left (g := id) (fun d hd => ?_) |>.trans (List.map_id ds)
  exact (digitValue_digitChar (h d hd)).1

theorem filter_chars : (chars places n).filter (· ≠ '.') = (digitsOf places n).reverse.map digitChar := by
  have hhigh : ∀ d ∈ ((digitsOf places n).drop places).reverse, d < 10 := fun d hd =>
    digit_lt (List.mem_of_mem_drop (List.mem_reverse.mp hd))
  have hlow : ∀ d ∈ ((digitsOf places n).take places).reverse, d < 10 := fun d hd =>
    digit_lt (List.mem_of_mem_take (List.mem_reverse.mp hd))
  unfold chars
  rw [List.filter_append, filter_digits hhigh, List.filter_cons_of_neg (by decide), filter_digits hlow,
    ← List.map_append, ← List.reverse_append, List.take_append_drop]

/-- **What is written is read back.** -/
theorem units_text : units (text places n) = n := by
  have hdigits : ∀ d ∈ digitsOf places n, d < 10 := fun d hd => digit_lt hd
  unfold units text
  rw [String.toList_ofList, filter_chars, ← List.map_reverse, List.reverse_reverse, map_digitValue hdigits,
    ofDigits_digitsOf]

/-! ## Numerals as rational numbers -/

/-- A nonempty run of digits. -/
def natural (cs : List Char) : Option ℕ :=
  if cs ≠ [] ∧ ∀ c ∈ cs, c.isDigit = true then some (Nat.ofDigitChars 10 cs 0) else none

/-- Digits, with a point and more digits after them or not. -/
def unsigned (cs : List Char) : Option ℚ :=
  match cs.dropWhile (· ≠ '.') with
  | [] => (natural cs).map fun n : ℕ => (n : ℚ)
  | _ :: fraction => (natural (cs.takeWhile (· ≠ '.'))).bind fun whole =>
    (natural fraction).map fun n : ℕ => whole + n / 10 ^ fraction.length

/-- The number a numeral stands for; none of what is no numeral. -/
def value (s : String) : Option ℚ :=
  match s.toList with
  | '-' :: cs => (unsigned cs).map fun x => -x
  | cs => unsigned cs

/-- `padStart(width, "0")` -/
def padStart (width : ℕ) (cs : List Char) : List Char := List.replicate (width - cs.length) '0' ++ cs

/-- `replace(/0+$/, "")` -/
def stripZeros (cs : List Char) : List Char := cs.rdropWhile (· = '0')

theorem isDigit_toDigits {c : Char} (h : c ∈ Nat.toDigits 10 n) : c.isDigit = true :=
  Nat.isDigit_of_mem_toDigits (by decide) (by decide) h

theorem ne_point {c : Char} (h : c.isDigit = true) : (decide (c ≠ '.')) = true := by
  refine decide_eq_true ?_
  rintro rfl
  exact absurd h (by decide)

theorem natural_eq {cs : List Char} (hne : cs ≠ []) (h : ∀ c ∈ cs, c.isDigit = true) : natural cs = some (Nat.ofDigitChars 10 cs 0) :=
  if_pos ⟨hne, h⟩

theorem natural_eq_none {cs : List Char} {c : Char} (hc : c ∈ cs) (h : c.isDigit = false) : natural cs = none := by
  refine if_neg fun hdigits => ?_
  rw [hdigits.2 c hc] at h
  cases h

theorem natural_toDigits : natural (Nat.toDigits 10 n) = some n := by
  rw [natural_eq Nat.toDigits_ne_nil fun c => isDigit_toDigits, Nat.ofDigitChars_ten_toDigits]

theorem unsigned_toDigits : unsigned (Nat.toDigits 10 n) = some (n : ℚ) := by
  have hdrop : (Nat.toDigits 10 n).dropWhile (· ≠ '.') = [] := List.dropWhile_eq_nil_iff.mpr fun c hc => ne_point (isDigit_toDigits hc)
  unfold unsigned
  rw [hdrop, natural_toDigits]
  rfl

theorem unsigned_point (fraction : List Char) : unsigned (Nat.toDigits 10 n ++ '.' :: fraction)
    = (natural fraction).map fun m : ℕ => (n : ℚ) + m / 10 ^ fraction.length := by
  have hdigits : ∀ c ∈ Nat.toDigits 10 n, (decide (c ≠ '.')) = true := fun c hc => ne_point (isDigit_toDigits hc)
  have hdrop : (Nat.toDigits 10 n ++ '.' :: fraction).dropWhile (· ≠ '.') = '.' :: fraction := by
    rw [List.dropWhile_append_of_pos hdigits]
    exact List.dropWhile_cons_of_neg (by simp)
  have htake : (Nat.toDigits 10 n ++ '.' :: fraction).takeWhile (· ≠ '.') = Nat.toDigits 10 n := by
    rw [List.takeWhile_append_of_pos hdigits, List.takeWhile_cons_of_neg (by simp), List.append_nil]
  unfold unsigned
  rw [hdrop, htake, natural_toDigits]
  rfl

theorem value_digit {c : Char} {cs : List Char} (h : c.isDigit = true) : value (String.ofList (c :: cs)) = unsigned (c :: cs) := by
  unfold value
  rw [String.toList_ofList]
  split
  · next heq =>
    rw [(List.cons.inj heq).1] at h
    exact absurd h (by decide)
  · rfl

theorem value_minus (cs : List Char) : value (String.ofList ('-' :: cs)) = (unsigned cs).map fun x => -x := by
  unfold value
  rw [String.toList_ofList]
  rfl

theorem stripZeros_append (cs : List Char) : ∃ k, stripZeros cs ++ List.replicate k '0' = cs := by
  refine ⟨(cs.rtakeWhile (· = '0')).length, ?_⟩
  have hzeros : cs.rtakeWhile (· = '0') = List.replicate (cs.rtakeWhile (· = '0')).length '0' :=
    List.eq_replicate_iff.mpr ⟨rfl, fun c hc => by simpa using List.mem_rtakeWhile_imp hc⟩
  rw [← hzeros, stripZeros]
  exact List.rdropWhile_append_rtakeWhile

/-- What is cut off is zeros. -/
theorem mem_stripZeros {cs : List Char} {c : Char} (hc : c ∈ cs) (hne : c ≠ '0') : c ∈ stripZeros cs := by
  obtain ⟨k, hk⟩ := stripZeros_append cs
  rw [← hk] at hc
  rcases List.mem_append.mp hc with hc | hc
  · exact hc
  · exact absurd (List.eq_of_mem_replicate hc) hne

/-- The digits of `r` units of the last of `width` places, without the zeros at the end. -/
def fraction (width r : ℕ) : List Char := stripZeros (padStart width (Nat.toDigits 10 r))

/-- The whole part, and the point and the fraction if there is one. -/
def withFraction (whole fraction : List Char) : List Char := if fraction = [] then whole else whole ++ '.' :: fraction

section Fraction

variable {width r : ℕ}

theorem isDigit_fraction {c : Char} (h : c ∈ fraction width r) : c.isDigit = true := by
  obtain ⟨k, hk⟩ := stripZeros_append (padStart width (Nat.toDigits 10 r))
  have hmem : c ∈ padStart width (Nat.toDigits 10 r) := hk ▸ List.mem_append_left _ h
  rcases List.mem_append.mp hmem with h | h
  · rw [List.eq_of_mem_replicate h]
    decide
  · exact isDigit_toDigits h

/-- The zeros that are cut off make up for the places. -/
theorem ofDigitChars_fraction (hwidth : 0 < width) (hr : r < 10 ^ width) :
    ∃ k, (fraction width r).length + k = width ∧ 10 ^ k * Nat.ofDigitChars 10 (fraction width r) 0 = r := by
  obtain ⟨k, hk⟩ := stripZeros_append (padStart width (Nat.toDigits 10 r))
  have hk : fraction width r ++ List.replicate k '0' = padStart width (Nat.toDigits 10 r) := hk
  refine ⟨k, ?_, ?_⟩
  · have hlength := congrArg List.length hk
    have hle := (Nat.length_toDigits_le_iff (by decide) hwidth).mpr hr
    rw [padStart, List.length_append, List.length_append, List.length_replicate, List.length_replicate] at hlength
    omega
  · have hvalue := congrArg (fun l => Nat.ofDigitChars 10 l 0) hk
    simpa only [padStart, Nat.ofDigitChars_append, Nat.ofDigitChars_replicate_zero, Nat.mul_zero, Nat.ofDigitChars_ten_toDigits] using hvalue

/-- **A whole part and a fraction are read as their sum.** -/
theorem unsigned_withFraction (hwidth : 0 < width) (hr : r < 10 ^ width) :
    unsigned (withFraction (Nat.toDigits 10 n) (fraction width r)) = some ((n : ℚ) + r / 10 ^ width) := by
  obtain ⟨k, hlength, hvalue⟩ := ofDigitChars_fraction hwidth hr
  unfold withFraction
  split
  · next hnil =>
    have hzero : r = 0 := by
      rw [← hvalue, hnil, Nat.ofDigitChars_nil, Nat.mul_zero]
    rw [unsigned_toDigits, hzero, Nat.cast_zero, zero_div, add_zero]
  · next hne =>
    have hplaces : ((Nat.ofDigitChars 10 (fraction width r) 0 : ℕ) : ℚ) / 10 ^ (fraction width r).length = r / 10 ^ width := by
      have hshift : ∀ f len : ℕ, (f : ℚ) / 10 ^ len = ((10 ^ k * f : ℕ) : ℚ) / 10 ^ (len + k) := by
        intro f len
        rw [pow_add]
        push_cast
        field_simp
      rw [hshift, hvalue, hlength]
    rw [unsigned_point, natural_eq hne fun c => isDigit_fraction, Option.map_some, hplaces]

/-! ### The digits of a number, cut at the point -/

theorem padStart_succ (hwidth : 0 < width) (n : ℕ) :
    padStart (width + 1) (Nat.toDigits 10 n) = padStart width (Nat.toDigits 10 (n / 10)) ++ [Nat.digitChar (n % 10)] := by
  obtain ⟨w, rfl⟩ := Nat.exists_eq_add_of_lt hwidth
  rcases lt_or_ge n 10 with hlt | hge
  · rw [Nat.div_eq_of_lt hlt, Nat.mod_eq_of_lt hlt, Nat.toDigits_of_lt_base hlt, Nat.toDigits_zero, padStart, padStart]
    simp [List.replicate_succ']
  · rw [Nat.toDigits_of_base_le (by decide) hge, padStart, padStart, List.length_append, List.length_singleton,
      Nat.add_sub_add_right, List.append_assoc]

/-- Filled up, the digits are those of the whole part and those of the places. -/
theorem padStart_toDigits (hwidth : 0 < width) (n : ℕ) : padStart (width + 1) (Nat.toDigits 10 n) =
    Nat.toDigits 10 (n / 10 ^ width) ++ padStart width (Nat.toDigits 10 (n % 10 ^ width)) := by
  induction width, hwidth using Nat.le_induction generalizing n with
  | base =>
    have hdigit : Nat.toDigits 10 (n % 10) = [Nat.digitChar (n % 10)] := Nat.toDigits_of_lt_base (Nat.mod_lt n (by decide))
    have hlength : 1 ≤ (Nat.toDigits 10 (n / 10)).length := Nat.length_toDigits_pos
    rw [padStart_succ one_pos, pow_one, hdigit]
    simp only [padStart, List.length_singleton, Nat.sub_self, List.replicate_zero, List.nil_append]
    rw [Nat.sub_eq_zero_of_le hlength, List.replicate_zero, List.nil_append]
  | succ width hpos ih =>
    have hpow : 10 ^ (width + 1) = 10 * 10 ^ width := pow_succ' 10 width
    rw [padStart_succ width.succ_pos, ih (n / 10), padStart_succ hpos (n % 10 ^ (width + 1)), Nat.div_div_eq_div_mul,
      ← hpow, hpow, Nat.mod_mul_right_div_self, Nat.mod_mul_right_mod, ← hpow, List.append_assoc]

theorem length_padStart {r : ℕ} (hwidth : 0 < width) (hr : r < 10 ^ width) :
    (padStart width (Nat.toDigits 10 r)).length = width := by
  have hle := (Nat.length_toDigits_le_iff (by decide) hwidth).mpr hr
  rw [padStart, List.length_append, List.length_replicate]
  omega

end Fraction

example : text 7 125000000 = "12.5000000" := by decide

end Vellar.Decimal
