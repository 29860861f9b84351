import Vellar.Lib.Decimal
import Vellar.Lib.Hex
import Vellar.Worker.JsText

/-!
# Vellar.Lib.JsNumber — the numbers of texts

`Number(text)` of JavaScript, up to the rounding of what is neither zero nor infinite: which texts are numbers, what
they stand for, and which of them a double takes for zero or for infinity.
-/

set_option autoImplicit false

namespace Vellar

inductive JsNumber where
  | nan
  | infinity (negative : Bool)
  | finite (q : ℚ)
deriving DecidableEq

namespace JsNumber

/-- `x > 0` -/
def isPositive : JsNumber → Bool
  | nan => false
  | infinity negative => !negative
  | finite q => decide (0 < q)

/-- Half the least double is rounded to zero, and half a step above the greatest to infinity. -/
def ofRat (q : ℚ) : JsNumber :=
  if |q| * (2 ^ 1075 : ℕ) ≤ 1 then finite 0
  else if ((2 ^ 1024 - 2 ^ 970 : ℕ) : ℚ) ≤ |q| then infinity (decide (q < 0))
  else finite q

/-- A sign or none, and what is after it. -/
def splitSign : List Char → Bool × List Char
  | '-' :: cs => (true, cs)
  | '+' :: cs => (false, cs)
  | cs => (false, cs)

/-- A nonempty run of digits to a base. -/
def digitsTo (base : ℕ) (cs : List Char) : Option ℕ :=
  if cs = [] then none
  else cs.foldlM (fun n c => (Hex.hexValue c).bind fun d => if d < base then some (n * base + d) else none) 0

/-- What is after the `e`. -/
def exponent : List Char → Option ℤ
  | [] => some 0
  | _ :: cs => (digitsTo 10 (splitSign cs).2).map fun n => if (splitSign cs).1 then -(n : ℤ) else n

/-- Digits with a point among them, before them or after them, or none. -/
def mantissa (cs : List Char) : Option ℚ :=
  let whole := cs.takeWhile (· ≠ '.')
  let fraction := (cs.dropWhile (· ≠ '.')).drop 1
  (digitsTo 10 (whole ++ fraction)).map fun n => n / (10 ^ fraction.length : ℕ)

/-- `m * 10 ^ e` -/
def scale (m : ℚ) (e : ℤ) : ℚ := if 0 ≤ e then m * (10 ^ e.toNat : ℕ) else m / (10 ^ (-e).toNat : ℕ)

/-- `StrUnsignedDecimalLiteral`, but for `Infinity`. -/
def unsignedDecimal (cs : List Char) : Option ℚ :=
  (mantissa (cs.takeWhile fun c => c ≠ 'e' ∧ c ≠ 'E')).bind fun m =>
    (exponent (cs.dropWhile fun c => c ≠ 'e' ∧ c ≠ 'E')).map (scale m)

/-- The base that a prefix stands for, and what is after it. -/
def splitBase : List Char → Option (ℕ × List Char)
  | '0' :: c :: cs =>
    if c = 'x' ∨ c = 'X' then some (16, cs)
    else if c = 'o' ∨ c = 'O' then some (8, cs)
    else if c = 'b' ∨ c = 'B' then some (2, cs)
    else none
  | _ => none

/-- `Number(text)`. -/
def ofString (text : String) : JsNumber :=
  let cs := Worker.trimChars text.toList
  if cs = [] then finite 0
  else match splitBase cs with
    | some (base, digits) => ((digitsTo base digits).map fun n => ofRat n).getD nan
    | none =>
      let (negative, rest) := splitSign cs
      if rest = "Infinity".toList then infinity negative
      else ((unsignedDecimal rest).map fun q => ofRat (if negative then -q else q)).getD nan

/-- `Number` of a text or of `undefined`. -/
def ofText : Option String → JsNumber
  | none => nan
  | some text => ofString text

@[simp] theorem ofText_none : ofText none = nan := rfl

@[simp] theorem isPositive_nan : isPositive nan = false := rfl

example : (["15.5", " 0x10 ", "1e-400", "-3", "", "12px", "-Infinity"].map ofString) =
    [finite (31 / 2), finite 16, finite 0, finite (-3), finite 0, nan, infinity true] := by
  decide +kernel

/-! ## The text of a natural number -/

theorem hexValue_of_isDigit {c : Char} (h : c.isDigit = true) :
    Hex.hexValue c = some (c.toNat - 48) ∧ c.toNat - 48 < 10 := by
  simp only [Char.isDigit, Bool.and_eq_true, decide_eq_true_eq] at h
  have hhi : c.toNat ≤ 57 := h.2
  exact ⟨if_pos h, by omega⟩

theorem digitsTo_toDigits (n : ℕ) : digitsTo 10 (Nat.toDigits 10 n) = some n := by
  have hfold : ∀ cs : List Char, (∀ c ∈ cs, c.isDigit = true) → ∀ m,
      cs.foldlM (fun n c => (Hex.hexValue c).bind fun d => if d < 10 then some (n * 10 + d) else none) m =
        some (Nat.ofDigitChars 10 cs m) := by
    intro cs hcs
    induction cs with
    | nil => exact fun m => rfl
    | cons c cs ih =>
      intro m
      obtain ⟨hvalue, hlt⟩ := hexValue_of_isDigit (hcs c List.mem_cons_self)
      rw [List.foldlM_cons, hvalue]
      simp only [Option.bind_some, if_pos hlt, Option.bind_eq_bind]
      rw [ih fun c hc => hcs c (List.mem_cons_of_mem _ hc), Nat.ofDigitChars_cons, Nat.mul_comm]
      rfl
  rw [digitsTo, if_neg Nat.toDigits_ne_nil, hfold _ fun c => Decimal.isDigit_toDigits, Nat.ofDigitChars_ten_toDigits]

theorem splitBase_of_isDigit {cs : List Char} (h : ∀ c ∈ cs, c.isDigit = true) : splitBase cs = none := by
  unfold splitBase
  split
  · next c cs =>
    have hc := h c (List.mem_cons_of_mem _ List.mem_cons_self)
    rw [if_neg, if_neg, if_neg]
    all_goals
      rintro (rfl | rfl)
      all_goals exact absurd hc (by decide)
  · rfl

theorem splitSign_of_isDigit {cs : List Char} (h : ∀ c ∈ cs, c.isDigit = true) : splitSign cs = (false, cs) := by
  unfold splitSign
  split
  · exact absurd (h '-' List.mem_cons_self) (by decide)
  · exact absurd (h '+' List.mem_cons_self) (by decide)
  · rfl

theorem unsignedDecimal_toDigits (n : ℕ) : unsignedDecimal (Nat.toDigits 10 n) = some (n : ℚ) := by
  have hdigits : ∀ c ∈ Nat.toDigits 10 n, c.isDigit = true := fun c => Decimal.isDigit_toDigits
  have hexp : ∀ c ∈ Nat.toDigits 10 n, decide (c ≠ 'e' ∧ c ≠ 'E') = true := by
    intro c hc
    refine decide_eq_true ⟨?_, ?_⟩
    all_goals
      rintro rfl
      exact absurd (hdigits _ hc) (by decide)
  have hpoint : ∀ c ∈ Nat.toDigits 10 n, decide (c ≠ '.') = true := fun c hc => Decimal.ne_point (hdigits c hc)
  have hmantissa : mantissa (Nat.toDigits 10 n) = some (n : ℚ) := by
    unfold mantissa
    simp only [List.takeWhile_eq_self_iff.mpr hpoint, List.dropWhile_eq_nil_iff.mpr hpoint, List.drop_nil,
      List.append_nil, digitsTo_toDigits, List.length_nil, pow_zero, Nat.cast_one, div_one]
    rfl
  rw [unsignedDecimal, List.takeWhile_eq_self_iff.mpr hexp, List.dropWhile_eq_nil_iff.mpr hexp, hmantissa]
  simp [exponent, scale]

theorem one_lt_mul_two_pow {n k : ℕ} (hn : 0 < n) (hk : k ≠ 0) : 1 < n * 2 ^ k :=
  (Nat.one_lt_two_pow hk).trans_le (Nat.le_mul_of_pos_left _ hn)

theorem ofRat_natCast {n : ℕ} (h : n < 2 ^ 53) : ofRat n = finite n := by
  have hupper : ((2 ^ 53 : ℕ) : ℚ) ≤ ((2 ^ 1024 - 2 ^ 970 : ℕ) : ℚ) := Nat.cast_le.mpr (by decide +kernel)
  have hn : (n : ℚ) < ((2 ^ 53 : ℕ) : ℚ) := Nat.cast_lt.mpr h
  rw [ofRat, Nat.abs_cast]
  rcases Nat.eq_zero_or_pos n with rfl | hpos
  · rw [Nat.cast_zero, zero_mul, if_pos zero_le_one]
  · have hlow : ¬ (n : ℚ) * (2 ^ 1075 : ℕ) ≤ 1 := by
      rw [not_le, ← Nat.cast_mul, ← Nat.cast_one, Nat.cast_lt]
      exact one_lt_mul_two_pow hpos (by decide)
    rw [if_neg hlow, if_neg (not_le.mpr (hn.trans_le hupper))]

/-- The text of a natural number that a double holds reads as that number. -/
theorem ofString_toString {n : ℕ} (h : n < 2 ^ 53) : ofString (toString n) = finite n := by
  have hdigits : ∀ c ∈ Nat.toDigits 10 n, c.isDigit = true := fun c => Decimal.isDigit_toDigits
  have htext : (toString n).toList = Nat.toDigits 10 n := Nat.toList_repr
  have hspace : ∀ c ∈ (toString n).toList, Worker.isJsSpace c = false := by
    intro c hc
    rw [htext] at hc
    have hc := hdigits c hc
    simp only [Char.isDigit, Bool.and_eq_true, decide_eq_true_eq] at hc
    have hlo : 48 ≤ c.toNat := hc.1
    have hhi : c.toNat ≤ 57 := hc.2
    unfold Worker.isJsSpace
    simp only [Bool.or_eq_false_iff, decide_eq_false_iff_not, Bool.and_eq_false_iff, List.mem_cons, List.not_mem_nil,
      or_false]
    omega
  have htrim : Worker.trimChars (toString n).toList = Nat.toDigits 10 n := by
    have hself := congrArg String.toList (Worker.trim_eq_self hspace)
    rw [Worker.trim, String.toList_ofList] at hself
    rw [hself, htext]
  have hinfinity : Nat.toDigits 10 n ≠ "Infinity".toList := by
    intro heq
    have hmem : 'I' ∈ Nat.toDigits 10 n := heq ▸ by decide
    exact absurd (hdigits 'I' hmem) (by decide)
  unfold ofString
  simp only [htrim, if_neg Nat.toDigits_ne_nil, splitBase_of_isDigit hdigits, splitSign_of_isDigit hdigits,
    if_neg hinfinity, unsignedDecimal_toDigits, Option.map_some, Option.getD_some, Bool.false_eq_true, if_false,
    ofRat_natCast h]

end JsNumber

end Vellar
