import Vellar.Lib.Checked
import Vellar.Lib.Inet
import Vellar.Web.AgentMint
import Vellar.Web.HistoryParse

/-!
# Vellar.Web.TokenAmounts — token amounts as decimal texts

The printer and the parser of amounts of `apps/web/lib/tokens.ts`, beside the second parser of `history-parse.ts`.
`amounts_exact`: what is printed is parsed back, which texts the parser reads exactly, and for which the
second parser agrees.
-/

set_option autoImplicit false

namespace Vellar.Web.TokenAmounts

open Checked (orStop)
open Extension (bigInt)
open History (decimalToRaw NATIVE_DECIMALS padded)
open Worker (trim trimChars isJsSpace split)
open Inet (splitOn_cons_self splitOn_cons_of_ne)

/-- `fractionStr.slice(0, stop)` -/
def sliceTo (stop : ℤ) (cs : List Char) : List Char := cs.take (if 0 ≤ stop then stop else cs.length + stop).toNat

/-- `formatAmountWithDecimals`; the default of `maxFractionDigits` is `decimals`. -/
def formatAmountWithDecimals (rawAmount decimals : ℤ) (maxFractionDigits : Option ℤ) : Except String String :=
  if decimals < 0 ∨ decimals > 36 then .error ("Invalid decimals: " ++ toString decimals)
  else if rawAmount = 0 then .ok "0"
  else
    let maxFractionDigits := maxFractionDigits.getD decimals
    let sign := if rawAmount < 0 then "-" else ""
    let integerPart := toString (rawAmount.natAbs / 10 ^ decimals.toNat)
    let fractionPart := rawAmount.natAbs % 10 ^ decimals.toNat
    if fractionPart = 0 then .ok (sign ++ integerPart)
    else
      let fractionStr := Decimal.stripZeros (Decimal.padStart decimals.toNat (toString fractionPart).toList)
      let fractionStr := if maxFractionDigits < fractionStr.length then sliceTo maxFractionDigits fractionStr else fractionStr
      .ok (sign ++ integerPart ++ "." ++ String.ofList fractionStr)

/-- `/^\d*$/` -/
def isDigits (s : String) : Bool := s.toList.all Char.isDigit

/-- `padEnd(width, "0")` -/
def padEnd (width : ℕ) (s : String) : String := String.ofList (s.toList ++ List.replicate (width - s.toList.length) '0')

/-- `BigInt(s)` -/
def toBigInt (s : String) : Except String ℤ := orStop (bigInt s) ("Cannot convert " ++ s ++ " to a BigInt")

def parseAmountWithDecimals (value : String) (decimals : ℤ) : Except String ℤ :=
  if decimals < 0 ∨ decimals > 36 then .error ("Invalid decimals: " ++ toString decimals)
  else
    let trimmed := trim value
    if trimmed = "" ∨ trimmed = "." then .error "Invalid amount"
    else
      let parts := split trimmed '.'
      let integerPart := (parts[0]?).getD "0"
      let fractionPart := (parts[1]?).getD ""
      if !isDigits integerPart || !isDigits fractionPart then .error ("\"" ++ trimmed ++ "\" is not a valid amount")
      else if decimals < fractionPart.toList.length then
        .error ("Amount has " ++ toString fractionPart.toList.length ++ " decimal places, but token only supports " ++
          toString decimals)
      else do
        let paddedFraction := padEnd decimals.toNat fractionPart
        let whole ← toBigInt (if integerPart = "" then "0" else integerPart)
        let fracUnits ← toBigInt paddedFraction
        .ok (whole * 10 ^ decimals.toNat + fracUnits)

/-! ## Amounts -/

/-- The number that digits stand for, the most significant first. -/
def numberOf (cs : List Char) : ℕ := Nat.ofDigitChars 10 cs 0

/-- An amount: digits, at most one point and at most `places` digits after it. -/
structure Amount (places : ℕ) (text whole fraction : List Char) : Prop where
  shape : text = whole ∧ fraction = [] ∨ text = whole ++ '.' :: fraction
  nonempty : whole ++ fraction ≠ []
  digits : ∀ c ∈ whole ++ fraction, c.isDigit = true
  length_le : fraction.length ≤ places

/-- The text is an amount and writes `q`. -/
def Denotes (places : ℕ) (text : List Char) (q : ℚ) : Prop :=
  ∃ whole fraction : List Char, Amount places text whole fraction ∧
    q = numberOf whole + numberOf fraction / 10 ^ fraction.length

/-- The parser succeeds on amounts alone, and with the exact number of units. -/
def ParsesExactly (value : String) (d : ℕ) : Prop :=
  ∀ n, parseAmountWithDecimals value d = .ok n ↔ ∃ q, Denotes d (trim value).toList q ∧ (n : ℚ) = q * 10 ^ d

/-- On an amount the second parser gives what the first one gives. -/
def RawAgrees (value : String) : Prop :=
  ∀ q, Denotes 7 (trim value).toList q →
    ∃ n, parseAmountWithDecimals value 7 = .ok n ∧ decimalToRaw value = some n

/-- A second point that nothing before it keeps from being reached. -/
def SecondPoint (d : ℕ) (text : List Char) : Prop :=
  ∃ whole fraction more : List Char, text = whole ++ '.' :: (fraction ++ '.' :: more) ∧
    (∀ c ∈ whole ++ fraction, c.isDigit = true) ∧ fraction.length ≤ d

/-- The white space at the end of a text, the last first. -/
def trailing (value : String) : List Char := (value.toList.dropWhile isJsSpace).reverse.takeWhile isJsSpace

/-- An amount with white space after it is read right when seven digits come before the white space; or when it is zero
and its white space, with the digits after the point, is of that length. -/
def TrailingHidden (value : String) : Prop :=
  ∀ whole fraction : List Char, Amount 7 (trim value).toList whole fraction →
    trailing value = [] ∨ fraction.length = 7 ∨
      ('.' ∈ (trim value).toList ∧ numberOf (whole ++ fraction) = 0 ∧ 7 ≤ fraction.length + (trailing value).length)

/-! ## Pieces -/

section Pieces

variable {cs w ds lead trail : List Char} {d : ℕ}

theorem splitOn_of_not_mem (h : '.' ∉ cs) : cs.splitOn '.' = [cs] := by
  induction cs with
  | nil => rfl
  | cons c cs ih =>
    obtain ⟨hc, hcs⟩ := not_or.mp (mt List.mem_cons.mpr h)
    rw [splitOn_cons_of_ne (Ne.symm hc), ih hcs]
    rfl

theorem splitOn_append (h : '.' ∉ w) (cs : List Char) : (w ++ '.' :: cs).splitOn '.' = w :: cs.splitOn '.' := by
  induction w with
  | nil => exact splitOn_cons_self '.' cs
  | cons c w ih =>
    obtain ⟨hc, hw⟩ := not_or.mp (mt List.mem_cons.mpr h)
    rw [List.cons_append, splitOn_cons_of_ne (Ne.symm hc), ih hw]
    rfl

theorem exists_point (cs : List Char) : '.' ∉ cs ∨ ∃ w rest, '.' ∉ w ∧ cs = w ++ '.' :: rest := by
  by_cases h : '.' ∈ cs
  · obtain ⟨w, rest, rfl, hw⟩ := List.eq_append_cons_of_mem h
    exact Or.inr ⟨w, rest, hw, rfl⟩
  · exact Or.inl h

theorem point_not_mem (h : ∀ c ∈ cs, c.isDigit = true) : '.' ∉ cs := fun hmem => absurd (h '.' hmem) (by decide)

/-! ## White space -/

theorem trimChars_append (hlead : ∀ c ∈ lead, isJsSpace c = true) (htrail : ∀ c ∈ trail, isJsSpace c = true)
    (hhead : ∀ c ∈ cs.head?, isJsSpace c = false) (hlast : ∀ c ∈ cs.getLast?, isJsSpace c = false) :
    trimChars (lead ++ (cs ++ trail)) = cs := by
  have hstop : ∀ l rest : List Char, l ≠ [] → (∀ c ∈ l.head?, isJsSpace c = false) →
      (l ++ rest).dropWhile isJsSpace = l ++ rest := by
    intro l rest hne hl
    obtain ⟨c, l, rfl⟩ := List.exists_cons_of_ne_nil hne
    exact List.dropWhile_cons_of_neg (by rw [hl c rfl]; exact Bool.false_ne_true)
  unfold trimChars
  rw [List.dropWhile_append_of_pos hlead]
  by_cases hnil : cs = []
  · subst hnil
    rw [List.nil_append, List.dropWhile_eq_nil_iff.mpr htrail]
    rfl
  · have hreverse : ∀ c ∈ cs.reverse.head?, isJsSpace c = false := by
      rw [List.head?_reverse]
      exact hlast
    rw [hstop cs trail hnil hhead, List.reverse_append,
      List.dropWhile_append_of_pos fun c hc => htrail c (List.mem_reverse.mp hc)]
    have hback := hstop cs.reverse [] (by simpa using hnil) hreverse
    rw [List.append_nil] at hback
    rw [hback, List.reverse_reverse]

/-- A text is its white space around what `trim` leaves. -/
theorem toList_eq (value : String) : ∃ lead, (∀ c ∈ lead, isJsSpace c = true) ∧
    (∀ c ∈ trailing value, isJsSpace c = true) ∧
    value.toList = lead ++ ((trim value).toList ++ (trailing value).reverse) := by
  refine ⟨value.toList.takeWhile isJsSpace, fun c hc => List.mem_takeWhile_imp hc, fun c hc => List.mem_takeWhile_imp hc, ?_⟩
  rw [trim, String.toList_ofList, trimChars, trailing, ← List.reverse_append, List.takeWhile_append_dropWhile,
    List.reverse_reverse, List.takeWhile_append_dropWhile]

/-- White space around digits does not matter. -/
theorem bigInt_digits (hlead : ∀ c ∈ lead, isJsSpace c = true) (htrail : ∀ c ∈ trail, isJsSpace c = true)
    (hds : ∀ c ∈ ds, c.isDigit = true) : bigInt (String.ofList (lead ++ (ds ++ trail))) = some (numberOf ds : ℤ) := by
  have hspace : ∀ c ∈ ds, isJsSpace c = false := fun c hc => Extension.isJsSpace_of_isDigit (hds c hc)
  have htrim : (trim (String.ofList (lead ++ (ds ++ trail)))).toList = ds := by
    rw [trim, String.toList_ofList, String.toList_ofList]
    exact trimChars_append hlead htrail (fun c hc => hspace c (List.mem_of_mem_head? hc))
      fun c hc => hspace c (List.mem_of_getLast? hc)
  unfold bigInt
  rw [htrim]
  split
  · rfl
  · exact absurd (hds '-' List.mem_cons_self) (by decide)
  · exact absurd (hds '+' List.mem_cons_self) (by decide)
  · next hne _ _ =>
    rw [Decimal.natural_eq hne hds]
    rfl

theorem isDigit_of_isJsSpace {c : Char} (h : isJsSpace c = true) : c.isDigit = false := by
  by_contra hdigit
  rw [Extension.isJsSpace_of_isDigit (Bool.eq_true_of_not_eq_false hdigit)] at h
  cases h

/-- White space between digits is not read. -/
theorem bigInt_gap (hlead : ∀ c ∈ lead, isJsSpace c = true) (hds : ∀ c ∈ ds, c.isDigit = true) (hne : ds ≠ [])
    {c e : Char} (hc : isJsSpace c = true) (rest : List Char) (he : e.isDigit = true) :
    bigInt (String.ofList (lead ++ (ds ++ (c :: rest ++ [e])))) = none := by
  obtain ⟨d, ds, rfl⟩ := List.exists_cons_of_ne_nil hne
  have hd : d.isDigit = true := hds d List.mem_cons_self
  have htrim : (trim (String.ofList (lead ++ (d :: ds ++ (c :: rest ++ [e]))))).toList = d :: (ds ++ (c :: rest ++ [e])) := by
    rw [trim, String.toList_ofList, String.toList_ofList, List.cons_append, ← List.append_nil (d :: _)]
    refine (trimChars_append hlead (by simp) (fun x hx => ?_) fun x hx => ?_).trans (List.append_nil _).symm
    · obtain rfl : d = x := by simpa using hx
      exact Extension.isJsSpace_of_isDigit hd
    · obtain rfl : e = x := by simpa [List.getLast?_cons, List.getLast?_append] using hx
      exact Extension.isJsSpace_of_isDigit he
  have hnatural : Decimal.natural (d :: (ds ++ (c :: rest ++ [e]))) = none :=
    Decimal.natural_eq_none (by simp : c ∈ _) (isDigit_of_isJsSpace hc)
  -- no letter comes second, so there is no prefix of a radix
  have hsecond : ∀ x cs, ds ++ (c :: rest ++ [e]) = x :: cs → x.isDigit = true ∨ isJsSpace x = true := by
    intro x cs heq
    cases ds with
    | nil =>
      rw [← (List.cons.inj heq).1]
      exact Or.inr hc
    | cons d' ds =>
      rw [← (List.cons.inj heq).1]
      exact Or.inl (hds d' (by simp))
  have hprefixed : Extension.prefixedNatural (d :: (ds ++ (c :: rest ++ [e]))) = none := by
    unfold Extension.prefixedNatural
    split
    · next x cs heq =>
      have hx := hsecond x cs (List.cons.inj heq).2
      rw [if_neg, if_neg, if_neg]
      all_goals
        rintro (rfl | rfl)
        all_goals exact absurd hx (by decide)
    · rfl
  unfold bigInt
  rw [htrim]
  split
  · next heq => cases heq
  · next heq =>
    rw [(List.cons.inj heq).1] at hd
    exact absurd hd (by decide)
  · next heq =>
    rw [(List.cons.inj heq).1] at hd
    exact absurd hd (by decide)
  · rw [hnatural, hprefixed]
    rfl

/-! ## The first parser -/

theorem numberOf_append_zeros (cs : List Char) (k : ℕ) : numberOf (cs ++ List.replicate k '0') = numberOf cs * 10 ^ k := by
  rw [numberOf, Nat.ofDigitChars_append, Nat.ofDigitChars_replicate_zero, mul_comm]
  rfl

theorem isDigit_zeros (h : ∀ c ∈ cs, c.isDigit = true) (k : ℕ) : ∀ c ∈ cs ++ List.replicate k '0', c.isDigit = true := by
  intro c hc
  rcases List.mem_append.mp hc with hc | hc
  · exact h c hc
  · rw [List.eq_of_mem_replicate hc]
    decide

theorem numberOf_append (cs ds : List Char) : numberOf (cs ++ ds) = numberOf cs * 10 ^ ds.length + numberOf ds := by
  rw [numberOf, Nat.ofDigitChars_append, Nat.ofDigitChars_eq_ofDigitChars_zero, mul_comm]
  rfl

theorem toBigInt_digits (hds : ∀ c ∈ ds, c.isDigit = true) : toBigInt (String.ofList ds) = .ok (numberOf ds : ℤ) := by
  have hread : bigInt (String.ofList ([] ++ (ds ++ []))) = some (numberOf ds : ℤ) :=
    bigInt_digits (by simp) (by simp) hds
  rw [List.nil_append, List.append_nil] at hread
  rw [toBigInt, hread]
  rfl

theorem isDigits_ofList : isDigits (String.ofList cs) = true ↔ ∀ c ∈ cs, c.isDigit = true := by
  rw [isDigits, String.toList_ofList, List.all_eq_true]

variable {value : String} {n : ℤ} {whole fraction : List Char} {rest : List (List Char)}

/-- What the parser needs and gives, by the first two pieces of the text. -/
theorem parse_ok_iff (hd : d ≤ 36) (hparts : (trim value).toList.splitOn '.' = whole :: rest)
    (hfraction : (rest[0]?).getD [] = fraction) :
    parseAmountWithDecimals value d = .ok n ↔ (trim value).toList ≠ [] ∧ (trim value).toList ≠ ['.'] ∧
      (∀ c ∈ whole ++ fraction, c.isDigit = true) ∧ fraction.length ≤ d ∧
      n = numberOf whole * 10 ^ d + numberOf fraction * 10 ^ (d - fraction.length) := by
  have hrange : ¬ ((d : ℤ) < 0 ∨ (d : ℤ) > 36) := by omega
  have hempty : trim value = "" ↔ (trim value).toList = [] := String.toList_eq_nil_iff.symm
  have hpoint : trim value = "." ↔ (trim value).toList = ['.'] := String.toList_inj.symm
  have hfirst : ((split (trim value) '.')[0]?).getD "0" = String.ofList whole := by
    rw [split, hparts]
    rfl
  have hsecond : ((split (trim value) '.')[1]?).getD "" = String.ofList fraction := by
    rw [split, hparts, ← hfraction]
    cases rest <;> rfl
  unfold parseAmountWithDecimals
  simp only [if_neg hrange, hfirst, hsecond, String.toList_ofList, Nat.cast_lt]
  by_cases hbare : trim value = "" ∨ trim value = "."
  · rw [if_pos hbare]
    rcases hbare with h | h
    · exact ⟨fun hok => (by cases hok), fun hok => absurd (hempty.mp h) hok.1⟩
    · exact ⟨fun hok => (by cases hok), fun hok => absurd (hpoint.mp h) hok.2.1⟩
  · rw [if_neg hbare]
    obtain ⟨hne, hnp⟩ := not_or.mp hbare
    rw [hempty] at hne
    rw [hpoint] at hnp
    by_cases hdigits : ∀ c ∈ whole ++ fraction, c.isDigit = true
    · have hw : isDigits (String.ofList whole) = true :=
        isDigits_ofList.mpr fun c hc => hdigits c (List.mem_append_left _ hc)
      have hf : isDigits (String.ofList fraction) = true :=
        isDigits_ofList.mpr fun c hc => hdigits c (List.mem_append_right _ hc)
      rw [hw, hf]
      simp only [Bool.not_true, Bool.or_self, Bool.false_eq_true, if_false]
      by_cases hlong : d < fraction.length
      · rw [if_pos hlong]
        exact ⟨fun hok => (by cases hok), fun hok => absurd hok.2.2.2.1 (by omega)⟩
      · have hwhole : toBigInt (if String.ofList whole = "" then "0" else String.ofList whole) = .ok (numberOf whole : ℤ) := by
          by_cases hnil : whole = []
          · subst hnil
            have hzero : toBigInt (String.ofList ['0']) = .ok (numberOf ['0'] : ℤ) :=
              toBigInt_digits fun c hc => by
                rw [List.mem_singleton.mp hc]
                rfl
            exact hzero
          · rw [if_neg fun h => hnil (by simpa using congrArg String.toList h)]
            exact toBigInt_digits fun c hc => hdigits c (List.mem_append_left _ hc)
        have hpadded : toBigInt (padEnd d (String.ofList fraction)) =
            .ok ((numberOf fraction * 10 ^ (d - fraction.length) : ℕ) : ℤ) := by
          rw [padEnd, String.toList_ofList, toBigInt_digits, numberOf_append_zeros]
          exact isDigit_zeros (fun c hc => hdigits c (List.mem_append_right _ hc)) _
        rw [if_neg hlong, Int.toNat_natCast, hpadded, hwhole]
        push_cast
        refine ⟨fun hok => ⟨hne, hnp, hdigits, by omega, (Except.ok.inj hok).symm⟩, fun hok => ?_⟩
        rw [hok.2.2.2.2]
        rfl
    · rw [if_pos]
      · exact ⟨fun hok => (by cases hok), fun hok => absurd hok.2.2.1 hdigits⟩
      · by_contra hboth
        simp only [Bool.or_eq_true, Bool.not_eq_true', not_or, Bool.not_eq_false] at hboth
        refine hdigits fun c hc => ?_
        rcases List.mem_append.mp hc with hc | hc
        · exact isDigits_ofList.mp hboth.1 c hc
        · exact isDigits_ofList.mp hboth.2 c hc

/-- The units of an amount. -/
theorem units_iff (hplaces : fraction.length ≤ d) :
    (n : ℚ) = ((numberOf whole : ℚ) + numberOf fraction / 10 ^ fraction.length) * 10 ^ d ↔
      n = numberOf whole * 10 ^ d + numberOf fraction * 10 ^ (d - fraction.length) := by
  have hpow : (10 : ℚ) ^ d = 10 ^ (d - fraction.length) * 10 ^ fraction.length := by
    rw [← pow_add, Nat.sub_add_cancel hplaces]
  have hsplit : ((numberOf whole : ℚ) + numberOf fraction / 10 ^ fraction.length) * 10 ^ d =
      numberOf whole * 10 ^ d + numberOf fraction * 10 ^ (d - fraction.length) := by
    rw [add_mul]
    congr 1
    rw [hpow]
    field_simp
  rw [hsplit]
  exact_mod_cast Iff.rfl

theorem Amount.noPoint {places : ℕ} {text : List Char} (h : Amount places text whole fraction) :
    '.' ∉ whole ∧ '.' ∉ fraction :=
  ⟨point_not_mem fun c hc => h.digits c (List.mem_append_left _ hc),
    point_not_mem fun c hc => h.digits c (List.mem_append_right _ hc)⟩

theorem Amount.count_point {places : ℕ} {text : List Char} (h : Amount places text whole fraction) : text.count '.' ≤ 1 := by
  have hw := List.count_eq_zero.mpr h.noPoint.1
  have hf := List.count_eq_zero.mpr h.noPoint.2
  rcases h.shape with ⟨htext, -⟩ | htext
  · rw [htext, hw]
    exact Nat.zero_le 1
  · rw [htext, List.count_append, List.count_cons_self, hw, hf]

/-- A text with one point has no second one. -/
theorem not_secondPoint (h : cs.count '.' ≤ 1) : ¬ SecondPoint d cs := by
  rintro ⟨whole, fraction, more, rfl, -⟩
  simp only [List.count_append, List.count_cons_self] at h
  omega

theorem point_inj {w f rest : List Char} (hwhole : '.' ∉ whole) (hw : '.' ∉ w) (h : whole ++ '.' :: rest = w ++ '.' :: f) :
    whole = w ∧ rest = f := by
  have hparts := congrArg (fun cs => (cs.splitOn '.').head?) h
  simp only [splitOn_append hwhole, splitOn_append hw, List.head?_cons, Option.some.injEq] at hparts
  subst hparts
  exact ⟨rfl, (List.cons.inj (List.append_cancel_left h)).2⟩

/-- **The parser is exact where no second point is reached.** -/
theorem parsesExactly_iff (hd : d ≤ 36) : ParsesExactly value d ↔ ¬ SecondPoint d (trim value).toList := by
  constructor
  · rintro hexact ⟨whole, fraction, more, htext, hdigits, hplaces⟩
    have hw : '.' ∉ whole := point_not_mem fun c hc => hdigits c (List.mem_append_left _ hc)
    have hf : '.' ∉ fraction := point_not_mem fun c hc => hdigits c (List.mem_append_right _ hc)
    have hparts : (trim value).toList.splitOn '.' = whole :: fraction :: more.splitOn '.' := by
      rw [htext, splitOn_append hw, splitOn_append hf]
    have hlength : 2 ≤ (trim value).toList.length := by
      rw [htext]
      simp
      omega
    have hok := (parse_ok_iff hd hparts rfl).mpr ⟨fun h => by simp [h] at hlength, fun h => by simp [h] at hlength,
      hdigits, hplaces, rfl⟩
    obtain ⟨q, ⟨w, f, hamount, -⟩, -⟩ := (hexact _).mp hok
    exact not_secondPoint hamount.count_point ⟨whole, fraction, more, htext, hdigits, hplaces⟩
  · intro hsecond n
    rcases exists_point (trim value).toList with hnone | ⟨whole, rest, hw, htext⟩
    · rw [parse_ok_iff hd (splitOn_of_not_mem hnone) rfl]
      constructor
      · rintro ⟨hne, -, hdigits, hplaces, hn⟩
        exact ⟨_, ⟨_, [], ⟨Or.inl ⟨rfl, rfl⟩, by simpa using hne, hdigits, hplaces⟩, rfl⟩, (units_iff hplaces).mpr hn⟩
      · rintro ⟨q, ⟨w, f, ⟨⟨rfl, rfl⟩ | hshape, hne, hdigits, hplaces⟩, rfl⟩, hn⟩
        · exact ⟨by simpa using hne, fun h => hnone (by simp [h]), hdigits, hplaces, (units_iff hplaces).mp hn⟩
        · exact absurd (by simp [hshape]) hnone
    · rcases exists_point rest with hlast | ⟨fraction, more, hf, rfl⟩
      · have hparts : (trim value).toList.splitOn '.' = [whole, rest] := by
          rw [htext, splitOn_append hw, splitOn_of_not_mem hlast]
        rw [parse_ok_iff hd hparts rfl]
        constructor
        · rintro ⟨-, hnp, hdigits, hplaces, hn⟩
          refine ⟨_, ⟨whole, rest, ⟨Or.inr htext, fun h => ?_, hdigits, hplaces⟩, rfl⟩, (units_iff hplaces).mpr hn⟩
          obtain ⟨rfl, rfl⟩ := List.append_eq_nil_iff.mp h
          exact hnp htext
        · rintro ⟨q, ⟨w, f, ⟨⟨hshape, rfl⟩ | hshape, hne, hdigits, hplaces⟩, rfl⟩, hn⟩
          · refine absurd (?_ : '.' ∈ w) (point_not_mem fun c hc => hdigits c (List.mem_append_left _ hc))
            rw [← hshape, htext]
            simp
          · have hw' : '.' ∉ w := point_not_mem fun c hc => hdigits c (List.mem_append_left _ hc)
            obtain ⟨rfl, rfl⟩ := point_inj hw hw' (htext.symm.trans hshape)
            refine ⟨by simp [htext], fun h => hne ?_, hdigits, hplaces, (units_iff hplaces).mp hn⟩
            rw [htext] at h
            have hlength := congrArg List.length h
            simp only [List.length_append, List.length_cons, List.length_nil] at hlength
            exact List.length_eq_zero_iff.mp (by rw [List.length_append]; omega)
      · have hparts : (trim value).toList.splitOn '.' = whole :: fraction :: more.splitOn '.' := by
          rw [htext, splitOn_append hw, splitOn_append hf]
        rw [parse_ok_iff hd hparts rfl]
        constructor
        · rintro ⟨-, -, hdigits, hplaces, -⟩
          exact absurd ⟨whole, fraction, more, htext, hdigits, hplaces⟩ hsecond
        · rintro ⟨q, ⟨w, f, ⟨⟨hshape, rfl⟩ | hshape, -, hdigits, -⟩, -⟩, -⟩
          · refine absurd (?_ : '.' ∈ w) (point_not_mem fun c hc => hdigits c (List.mem_append_left _ hc))
            rw [← hshape, htext]
            simp
          · have hw' : '.' ∉ w := point_not_mem fun c hc => hdigits c (List.mem_append_left _ hc)
            obtain ⟨-, rfl⟩ := point_inj hw hw' (htext.symm.trans hshape)
            exact absurd (by simp) (point_not_mem fun c hc => hdigits c (List.mem_append_right _ hc))

/-! ## The second parser -/

theorem decimalToRaw_eq (hsign : value.toList.head? ≠ some '-') (hparts : value.toList.splitOn '.' = whole :: rest) :
    decimalToRaw value = bigInt (String.ofList (whole ++ padded 7 ((rest[0]?).getD []))) := by
  have hfirst : ((split value '.').head?).getD "" = String.ofList whole := by
    rw [split, hparts]
    rfl
  have hsecond : ((split value '.')[1]?).getD "" = String.ofList ((rest[0]?).getD []) := by
    rw [split, hparts]
    cases rest <;> rfl
  unfold decimalToRaw
  simp only [decide_eq_false hsign, Bool.false_eq_true, if_false, hfirst, hsecond, String.toList_ofList, Option.map_id',
    NATIVE_DECIMALS, String.ofList_append]

theorem padded_short {cs : List Char} (h : cs.length ≤ 7) : padded 7 cs = cs ++ List.replicate (7 - cs.length) '0' := by
  rw [padded, List.take_of_length_le]
  rw [List.length_append, List.length_replicate]
  omega

theorem padded_long {cs : List Char} (h : 7 ≤ cs.length) : padded 7 cs = cs.take 7 := by
  rw [padded, List.take_append_of_le_length h]

/-- What the first parser makes of an amount. -/
theorem Amount.parse (h : Amount d (trim value).toList whole fraction) (hd : d ≤ 36) :
    parseAmountWithDecimals value d = .ok (numberOf whole * 10 ^ d + numberOf fraction * 10 ^ (d - fraction.length) : ℤ) := by
  obtain ⟨hw, hf⟩ := h.noPoint
  obtain ⟨hshape, hne, hdigits, hplaces⟩ := h
  rcases hshape with ⟨htext, rfl⟩ | htext
  · rw [parse_ok_iff hd (splitOn_of_not_mem (htext ▸ hw)) rfl]
    refine ⟨by rw [htext]; simpa using hne, fun hp => hw (by simp [← htext, hp]), by rwa [htext], hplaces, ?_⟩
    rw [htext]
    rfl
  · have hparts : (trim value).toList.splitOn '.' = [whole, fraction] := by
      rw [htext, splitOn_append hw, splitOn_of_not_mem hf]
    rw [parse_ok_iff hd hparts rfl]
    refine ⟨by simp [htext], fun hp => hne ?_, hdigits, hplaces, rfl⟩
    have hlength := congrArg List.length (htext.symm.trans hp)
    simp only [List.length_append, List.length_cons, List.length_nil] at hlength
    exact List.length_eq_zero_iff.mp (by rw [List.length_append]; omega)

/-- What the second parser reads of an amount with white space around it. -/
theorem Amount.raw {lead trail : List Char} (h : Amount 7 (trim value).toList whole fraction)
    (hlead : ∀ c ∈ lead, isJsSpace c = true) (htrail : ∀ c ∈ trail, isJsSpace c = true)
    (hvalue : value.toList = lead ++ ((trim value).toList ++ trail)) :
    decimalToRaw value = bigInt (String.ofList (lead ++ (whole ++
      if '.' ∈ (trim value).toList then padded 7 (fraction ++ trail) else trail ++ List.replicate 7 '0'))) := by
  have hpoint : ∀ l : List Char, (∀ c ∈ l, isJsSpace c = true) → '.' ∉ l := fun l hl hmem => absurd (hl '.' hmem) (by decide)
  obtain ⟨hw, hf⟩ := h.noPoint
  have hminus : '-' ∉ value.toList := by
    rw [hvalue]
    simp only [List.mem_append, not_or]
    refine ⟨fun hm => absurd (hlead _ hm) (by decide), ?_, fun hm => absurd (htrail _ hm) (by decide)⟩
    have hdigit : '-' ∉ whole ++ fraction := fun hm => absurd (h.digits _ hm) (by decide)
    rcases h.shape with ⟨htext, rfl⟩ | htext
    · rw [htext]
      exact fun hm => hdigit (List.mem_append_left _ hm)
    · rw [htext]
      simpa using hdigit
  have hsign : value.toList.head? ≠ some '-' := fun hhead => hminus (List.mem_of_mem_head? hhead)
  rcases h.shape with ⟨htext, rfl⟩ | htext
  · have hnone : '.' ∉ value.toList := by
      rw [hvalue, htext]
      simp only [List.mem_append, not_or]
      exact ⟨hpoint lead hlead, hw, hpoint trail htrail⟩
    rw [decimalToRaw_eq hsign (splitOn_of_not_mem hnone), if_neg (htext ▸ hw), hvalue, htext]
    simp only [List.append_assoc]
    rfl
  · have hfirst : '.' ∉ lead ++ whole := fun hm => (List.mem_append.mp hm).elim (hpoint lead hlead) hw
    have hsecond : '.' ∉ fraction ++ trail := fun hm => (List.mem_append.mp hm).elim hf (hpoint trail htrail)
    have hparts : value.toList.splitOn '.' = [lead ++ whole, fraction ++ trail] := by
      rw [hvalue, htext, List.append_assoc, ← List.append_assoc lead, List.cons_append, splitOn_append hfirst,
        splitOn_of_not_mem hsecond]
    rw [decimalToRaw_eq hsign hparts, if_pos (by simp [htext]), List.append_assoc]
    rfl

/-- Zeros after white space are not read. -/
theorem bigInt_spaces_zeros {lead trail : List Char} (hlead : ∀ c ∈ lead, isJsSpace c = true) (hds : ∀ c ∈ ds, c.isDigit = true)
    (hne : ds ≠ []) (htrail : ∀ c ∈ trail, isJsSpace c = true) (hsome : trail ≠ []) {k : ℕ} (hk : 0 < k) :
    bigInt (String.ofList (lead ++ (ds ++ (trail ++ List.replicate k '0')))) = none := by
  obtain ⟨c, trail, rfl⟩ := List.exists_cons_of_ne_nil hsome
  obtain ⟨k, rfl⟩ : ∃ m, k = m + 1 := ⟨k - 1, by omega⟩
  have hgap := bigInt_gap hlead hds hne (htrail c List.mem_cons_self) (trail ++ List.replicate k '0')
    (by decide : '0'.isDigit = true)
  rw [List.replicate_succ']
  simpa only [List.cons_append, List.append_assoc] using hgap

/-- What is read of a number without a point. -/
theorem bigInt_whole_iff {lead trail : List Char} (hlead : ∀ c ∈ lead, isJsSpace c = true)
    (htrail : ∀ c ∈ trail, isJsSpace c = true) (hds : ∀ c ∈ ds, c.isDigit = true) (hne : ds ≠ []) :
    bigInt (String.ofList (lead ++ (ds ++ (trail ++ List.replicate 7 '0')))) = some ((numberOf ds * 10 ^ 7 : ℕ) : ℤ) ↔
      trail = [] := by
  constructor
  · intro heq
    by_contra hsome
    rw [bigInt_spaces_zeros hlead hds hne htrail hsome (by decide)] at heq
    cases heq
  · rintro rfl
    have hnumber := bigInt_digits hlead (by simp : ∀ c ∈ ([] : List Char), isJsSpace c = true) (isDigit_zeros hds 7)
    rw [List.append_nil] at hnumber
    rw [List.nil_append, hnumber, numberOf_append_zeros]

/-- What is read of a number with a point. -/
theorem bigInt_point_iff {lead trail : List Char} (hlead : ∀ c ∈ lead, isJsSpace c = true)
    (htrail : ∀ c ∈ trail, isJsSpace c = true) (hds : ∀ c ∈ whole ++ fraction, c.isDigit = true)
    (hne : whole ++ fraction ≠ []) (hplaces : fraction.length ≤ 7) :
    bigInt (String.ofList (lead ++ (whole ++ padded 7 (fraction ++ trail)))) =
        some ((numberOf (whole ++ fraction) * 10 ^ (7 - fraction.length) : ℕ) : ℤ) ↔
      trail = [] ∨ fraction.length = 7 ∨ (numberOf (whole ++ fraction) = 0 ∧ 7 ≤ fraction.length + trail.length) := by
  have hread : ∀ l : List Char, (∀ c ∈ l, isJsSpace c = true) →
      bigInt (String.ofList (lead ++ (whole ++ (fraction ++ l)))) = some (numberOf (whole ++ fraction) : ℤ) := by
    intro l hl
    rw [← List.append_assoc whole]
    exact bigInt_digits hlead hl hds
  by_cases hbare : trail = []
  · subst hbare
    have hnumber := bigInt_digits hlead (by simp : ∀ c ∈ ([] : List Char), isJsSpace c = true)
      (isDigit_zeros hds (7 - fraction.length))
    rw [List.append_nil] at hnumber
    rw [List.append_nil, padded_short hplaces, ← List.append_assoc whole, hnumber, numberOf_append_zeros]
    exact ⟨fun _ => Or.inl rfl, fun _ => rfl⟩
  by_cases hseven : fraction.length = 7
  · have hnumber := hread [] (by simp)
    rw [List.append_nil] at hnumber
    rw [padded_long (by rw [List.length_append]; omega), List.take_left' hseven, hnumber, hseven, Nat.sub_self, pow_zero,
      mul_one]
    exact ⟨fun _ => Or.inr (Or.inl rfl), fun _ => rfl⟩
  have hless : fraction.length < 7 := lt_of_le_of_ne hplaces hseven
  by_cases hfits : 7 ≤ fraction.length + trail.length
  · -- nothing but white space is after the digits that are read
    have hscale : 1 < 10 ^ (7 - fraction.length) := Nat.one_lt_pow (by omega) (by decide)
    rw [padded_long (by rw [List.length_append]; omega), List.take_append, List.take_of_length_le hplaces,
      hread _ fun c hc => htrail c (List.mem_of_mem_take hc)]
    constructor
    · intro heq
      have hsame : numberOf (whole ++ fraction) * 1 = numberOf (whole ++ fraction) * 10 ^ (7 - fraction.length) := by
        rw [mul_one]
        exact_mod_cast Option.some.inj heq
      refine Or.inr (Or.inr ⟨?_, hfits⟩)
      by_contra hnonzero
      exact absurd (Nat.eq_of_mul_eq_mul_left (Nat.pos_of_ne_zero hnonzero) hsame) hscale.ne
    · rintro (hb | hb | ⟨hzero, -⟩)
      · exact absurd hb hbare
      · exact absurd hb hseven
      · rw [hzero, Nat.zero_mul]
  · have hgap := bigInt_spaces_zeros hlead hds hne htrail hbare (by omega : 0 < 7 - (fraction.length + trail.length))
    rw [padded_short (by rw [List.length_append]; omega), List.length_append, List.append_assoc, ← List.append_assoc whole,
      hgap]
    constructor
    · intro heq
      cases heq
    · rintro (hb | hb | hb)
      · exact absurd hb hbare
      · exact absurd hb hseven
      · exact absurd hb.2 hfits

/-- **The second parser agrees where what follows the amount is hidden.** -/
theorem rawAgrees_iff : RawAgrees value ↔ TrailingHidden value := by
  obtain ⟨lead, hlead, htrail, hvalue⟩ := toList_eq value
  have htrail' : ∀ c ∈ (trailing value).reverse, isJsSpace c = true := fun c hc => htrail c (List.mem_reverse.mp hc)
  have hone : RawAgrees value ↔ ∀ whole fraction, Amount 7 (trim value).toList whole fraction →
      decimalToRaw value = some (numberOf whole * 10 ^ 7 + numberOf fraction * 10 ^ (7 - fraction.length) : ℤ) := by
    constructor
    · intro hagrees whole fraction h
      obtain ⟨n, hparse, hraw⟩ := hagrees _ ⟨whole, fraction, h, rfl⟩
      obtain rfl := Except.ok.inj ((h.parse (by decide)).symm.trans hparse)
      exact hraw
    · rintro hraw q ⟨whole, fraction, h, -⟩
      exact ⟨_, h.parse (by decide), hraw whole fraction h⟩
  rw [hone]
  refine forall_congr' fun whole => forall_congr' fun fraction => forall_congr' fun h => ?_
  have hunits : (numberOf whole * 10 ^ 7 + numberOf fraction * 10 ^ (7 - fraction.length) : ℤ) =
      ((numberOf (whole ++ fraction) * 10 ^ (7 - fraction.length) : ℕ) : ℤ) := by
    have hplaces : 10 ^ fraction.length * 10 ^ (7 - fraction.length) = 10 ^ 7 := by
      rw [← pow_add, Nat.add_sub_cancel' h.length_le]
    rw [numberOf_append, add_mul, mul_assoc, hplaces]
    push_cast
    rfl
  rw [h.raw hlead htrail' hvalue, hunits]
  by_cases hpoint : '.' ∈ (trim value).toList
  · rw [if_pos hpoint, bigInt_point_iff hlead htrail' h.digits h.nonempty h.length_le, List.reverse_eq_nil_iff,
      List.length_reverse]
    simp only [hpoint, true_and]
  · obtain rfl : fraction = [] := by
      rcases h.shape with ⟨-, hf⟩ | htext
      · exact hf
      · exact absurd (by simp [htext]) hpoint
    have hdigits : ∀ c ∈ whole, c.isDigit = true := fun c hc => h.digits c (List.mem_append_left _ hc)
    have hwhole := bigInt_whole_iff hlead htrail' hdigits (by simpa using h.nonempty)
    rw [if_neg hpoint, List.append_nil, List.length_nil, Nat.sub_zero, hwhole, List.reverse_eq_nil_iff]
    simp [hpoint]

end Pieces

/-! ## The printer -/

section Printer

variable {d n : ℕ} {text : String}

/-- The fraction has no more digits than there are places. -/
theorem length_fraction_le {r : ℕ} (hr : r < 10 ^ d) (hpos : r ≠ 0) : 0 < d ∧ (Decimal.fraction d r).length ≤ d := by
  have hd : 0 < d := by
    by_contra hzero
    obtain rfl : d = 0 := by omega
    rw [pow_zero] at hr
    omega
  obtain ⟨k, hlength, -⟩ := Decimal.ofDigitChars_fraction hd hr
  exact ⟨hd, by omega⟩

/-- The printer of `agent-mint.ts` is this one with its default. -/
theorem formatAmountWithDecimals_default (rawAmount decimals : ℤ) :
    (formatAmountWithDecimals rawAmount decimals none).toOption = AgentMint.formatAmountWithDecimals rawAmount decimals := by
  unfold formatAmountWithDecimals AgentMint.formatAmountWithDecimals
  by_cases hrange : decimals < 0 ∨ decimals > 36
  · rw [if_pos hrange, if_pos hrange]
    rfl
  · rw [if_neg hrange, if_neg hrange]
    by_cases hzero : rawAmount = 0
    · rw [if_pos hzero, if_pos hzero]
      rfl
    · rw [if_neg hzero, if_neg hzero]
      simp only [Option.getD_none]
      by_cases hwhole : rawAmount.natAbs % 10 ^ decimals.toNat = 0
      · rw [if_pos hwhole, if_pos hwhole]
        rfl
      · have hlength := (length_fraction_le (Nat.mod_lt _ (by positivity)) hwhole).2
        have hfits : ¬ decimals < (Decimal.stripZeros (Decimal.padStart decimals.toNat
            (toString (rawAmount.natAbs % 10 ^ decimals.toNat)).toList)).length := by
          rw [show toString (rawAmount.natAbs % 10 ^ decimals.toNat) = Nat.repr _ from rfl, Nat.toList_repr]
          have hcast := Int.toNat_of_nonneg (not_lt.mp (not_or.mp hrange).1)
          rw [Decimal.fraction] at hlength
          omega
        rw [if_neg hwhole, if_neg hwhole, if_neg hfits]
        rfl

theorem toList_toString (m : ℕ) : (toString m).toList = Nat.toDigits 10 m := Nat.toList_repr

/-- What is printed is an amount of that many units. -/
theorem exists_printed (hd : d ≤ 36) (n : ℕ) : ∃ text whole fraction, formatAmountWithDecimals n d none = .ok text ∧
    Amount d text.toList whole fraction ∧ numberOf whole * 10 ^ d + numberOf fraction * 10 ^ (d - fraction.length) = n := by
  have hrange : ¬ ((d : ℤ) < 0 ∨ (d : ℤ) > 36) := by omega
  have hwhole : ∀ m, numberOf (Nat.toDigits 10 m) = m := fun m => Nat.ofDigitChars_ten_toDigits
  have hdigits : ∀ m, ∀ c ∈ Nat.toDigits 10 m, c.isDigit = true := fun m c => Decimal.isDigit_toDigits
  unfold formatAmountWithDecimals
  rw [if_neg hrange]
  by_cases hzero : n = 0
  · subst hzero
    refine ⟨"0", Nat.toDigits 10 0, [], rfl, ⟨Or.inl ⟨rfl, rfl⟩, by decide, ?_, Nat.zero_le d⟩, ?_⟩
    · rw [List.append_nil]
      exact hdigits 0
    · rw [hwhole, Nat.zero_mul, Nat.zero_add]
      exact Nat.zero_mul _
  · have hsplit := Nat.div_add_mod' n (10 ^ d)
    have hsign : ¬ (n : ℤ) < 0 := by omega
    rw [if_neg (by exact_mod_cast hzero), if_neg hsign]
    simp only [Int.natAbs_natCast, Int.toNat_natCast, Option.getD_none, String.empty_append]
    by_cases hrest : n % 10 ^ d = 0
    · rw [if_pos hrest]
      refine ⟨_, Nat.toDigits 10 (n / 10 ^ d), [], rfl, ⟨Or.inl ⟨toList_toString _, rfl⟩, ?_, ?_, Nat.zero_le d⟩, ?_⟩
      · rw [List.append_nil]
        exact Nat.toDigits_ne_nil
      · rw [List.append_nil]
        exact hdigits _
      · rw [hwhole]
        simpa [numberOf, hrest] using hsplit
    · have hlt : n % 10 ^ d < 10 ^ d := Nat.mod_lt _ (by positivity)
      obtain ⟨hpos, hlength⟩ := length_fraction_le hlt hrest
      obtain ⟨k, hk, hvalue⟩ := Decimal.ofDigitChars_fraction hpos hlt
      have hfraction : Decimal.stripZeros (Decimal.padStart d (toString (n % 10 ^ d)).toList) =
          Decimal.fraction d (n % 10 ^ d) := by rw [toList_toString, Decimal.fraction]
      have hfits : ¬ (d : ℤ) < (Decimal.fraction d (n % 10 ^ d)).length := by omega
      rw [if_neg hrest, hfraction, if_neg hfits]
      refine ⟨_, Nat.toDigits 10 (n / 10 ^ d), Decimal.fraction d (n % 10 ^ d), rfl, ⟨Or.inr ?_, ?_, ?_, hlength⟩, ?_⟩
      · rw [String.toList_append, String.toList_append, String.toList_ofList, toList_toString, List.append_assoc]
        simp
      · exact fun h => Nat.toDigits_ne_nil (List.append_eq_nil_iff.mp h).1
      · intro c hc
        rcases List.mem_append.mp hc with hc | hc
        · exact hdigits _ c hc
        · exact Decimal.isDigit_fraction hc
      · rw [hwhole, numberOf, show d - (Decimal.fraction d (n % 10 ^ d)).length = k by omega, mul_comm _ (10 ^ k), hvalue,
          hsplit]

/-- There is no white space in an amount. -/
theorem Amount.trim_eq {whole fraction : List Char} (h : Amount d text.toList whole fraction) : trim text = text := by
  refine Worker.trim_eq_self fun c hc => ?_
  by_cases hpoint : c = '.'
  · rw [hpoint]
    decide
  · refine Extension.isJsSpace_of_isDigit (h.digits c ?_)
    rcases h.shape with ⟨htext, rfl⟩ | htext
    · simpa [← htext] using hc
    · rw [htext] at hc
      simpa [hpoint] using hc

/-- **What is printed is parsed back.** -/
theorem parse_format (hd : d ≤ 36) (n : ℕ) :
    ∃ text, formatAmountWithDecimals n d none = .ok text ∧ parseAmountWithDecimals text d = .ok (n : ℤ) := by
  obtain ⟨text, whole, fraction, hprint, hamount, hunits⟩ := exists_printed hd n
  have htrimmed : Amount d (trim text).toList whole fraction := by
    rw [hamount.trim_eq]
    exact hamount
  refine ⟨text, hprint, ?_⟩
  rw [htrimmed.parse hd, ← hunits]
  push_cast
  rfl

/-- **Amounts are exact**, but for texts with a second point, and in the second parser for white space that shows. -/
theorem amounts_exact (hd : d ≤ 36) :
    (∀ n : ℕ, ∃ text, formatAmountWithDecimals n d none = .ok text ∧ parseAmountWithDecimals text d = .ok (n : ℤ)) ∧
      (∀ value, ParsesExactly value d ↔ ¬ SecondPoint d (trim value).toList) ∧
      ∀ value, RawAgrees value ↔ TrailingHidden value :=
  ⟨parse_format hd, fun _ => parsesExactly_iff hd, fun _ => rawAgrees_iff⟩

theorem amounts_exact_stroops : (∃ text, formatAmountWithDecimals (25000000 : ℕ) 7 none = .ok text ∧
    parseAmountWithDecimals text 7 = .ok (25000000 : ℕ)) ∧ ParsesExactly " 2.5" 7 ∧ RawAgrees " 2.5" := by
  have hplaces : 7 ≤ 36 := by decide
  refine ⟨(amounts_exact hplaces).1 25000000, ((amounts_exact hplaces).2.1 " 2.5").mpr (not_secondPoint ?_),
    ((amounts_exact hplaces).2.2 " 2.5").mpr fun _ _ _ => Or.inl ?_⟩
  · decide
  · decide

theorem date_shape : (trim "1.2.2026").toList.splitOn '.' = [['1'], ['2'], "2026".toList] := by decide

theorem digits_of_date : ∀ c ∈ ['1'] ++ ['2'], c.isDigit = true := by
  simp only [List.cons_append, List.nil_append, List.forall_mem_cons, List.not_mem_nil, false_implies, implies_true, and_true]
  decide

/-- A date is read as an amount. -/
theorem date_parsed : parseAmountWithDecimals "1.2.2026" (7 : ℕ) = .ok 12000000 ∧ ¬ ParsesExactly "1.2.2026" 7 := by
  refine ⟨(parse_ok_iff (by decide) date_shape rfl).mpr ⟨by decide, by decide, digits_of_date, by decide, by decide⟩,
    fun h => (parsesExactly_iff (by decide)).mp h ⟨['1'], ['2'], "2026".toList, by decide, digits_of_date, by decide⟩⟩

end Printer

end Vellar.Web.TokenAmounts
