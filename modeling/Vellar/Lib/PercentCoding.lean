import Vellar.Lib.Utf16

/-!
# Vellar.Lib.PercentCoding — `encodeURIComponent` and `decodeURIComponent`

Over texts of UTF-16 units.  A decoder first reads the escapes of a text as bytes, then the bytes as UTF-8.  What was
encoded decodes to itself (`decode_encode`), and is made of escapes and unreserved characters.
-/

set_option autoImplicit false

namespace Vellar.PercentCoding

open WebText (Text unit digitValue)
open Utf16

/-! ## Encoding -/

/-- Letters, digits and `-_.!~*'()`. -/
def isUnreserved (n : ℕ) : Bool :=
  decide (48 ≤ n ∧ n ≤ 57 ∨ 65 ≤ n ∧ n ≤ 90 ∨ 97 ≤ n ∧ n ≤ 122 ∨ n ∈ [33, 39, 40, 41, 42, 45, 46, 95, 126])

/-- A digit in upper case. -/
def hexUnit (n : ℕ) : UInt16 := if n < 10 then UInt16.ofNat (48 + n) else UInt16.ofNat (55 + n)

def escape (b : UInt8) : Text := [unit '%', hexUnit (b.toNat / 16), hexUnit (b.toNat % 16)]

def encodePoint (n : ℕ) : Text := if isUnreserved n then units n else (utf8 n).flatMap escape

/-- None where it throws: at a surrogate without its partner. -/
def encodeURIComponent (t : Text) : Option Text :=
  if (codePoints t).any isSurrogate then none else some ((codePoints t).flatMap encodePoint)

/-- How many units a code point takes. -/
def cost (n : ℕ) : ℕ := if isUnreserved n then 1 else 3 * (utf8 n).length

/-- How many units a text takes when it is encoded. -/
def encodedLength (t : Text) : ℕ := ((codePoints t).map cost).sum

/-! ## Decoding -/

/-- A unit, or the byte of an escape. -/
inductive Token where
  | plain (c : UInt16)
  | byte (b : ℕ)
deriving DecidableEq

/-- None where a percent sign is not followed by two digits. -/
def tokens : Text → Option (List Token)
  | [] => some []
  | c :: rest =>
    if c = unit '%' then
      match rest with
      | h :: l :: rest =>
        match digitValue h, digitValue l with
        | some h, some l => (tokens rest).map (Token.byte (h * 16 + l) :: ·)
        | _, _ => none
      | _ => none
    else (tokens rest).map (Token.plain c :: ·)

def isContinuation (b : ℕ) : Bool := decide (0x80 ≤ b ∧ b < 0xc0)

/-- None where the bytes are not UTF-8. -/
def decodeTokens : List Token → Option Text
  | [] => some []
  | .plain c :: rest => (decodeTokens rest).map (c :: ·)
  | .byte b :: rest =>
    if b < 0x80 then (decodeTokens rest).map (units b ++ ·)
    else if b < 0xc0 then none
    else if b < 0xe0 then
      match rest with
      | .byte b₁ :: rest =>
        let n := (b - 0xc0) * 0x40 + (b₁ - 0x80)
        if isContinuation b₁ && decide (0x80 ≤ n) then (decodeTokens rest).map (units n ++ ·) else none
      | _ => none
    else if b < 0xf0 then
      match rest with
      | .byte b₁ :: .byte b₂ :: rest =>
        let n := (b - 0xe0) * 0x1000 + (b₁ - 0x80) * 0x40 + (b₂ - 0x80)
        if isContinuation b₁ && isContinuation b₂ && decide (0x800 ≤ n) && !isSurrogate n then
          (decodeTokens rest).map (units n ++ ·)
        else none
      | _ => none
    else
      match rest with
      | .byte b₁ :: .byte b₂ :: .byte b₃ :: rest =>
        let n := (b - 0xf0) * 0x40000 + (b₁ - 0x80) * 0x1000 + (b₂ - 0x80) * 0x40 + (b₃ - 0x80)
        if isContinuation b₁ && isContinuation b₂ && isContinuation b₃ && decide (0x10000 ≤ n ∧ n < 0x110000) then
          (decodeTokens rest).map (units n ++ ·)
        else none
      | _ => none

/-- None where it throws. -/
def decodeURIComponent (t : Text) : Option Text := (tokens t).bind decodeTokens

/-! ## Round trip -/

theorem digitValue_hexUnit {n : ℕ} (h : n < 16) : digitValue (hexUnit n) = some n := by
  interval_cases n <;> rfl

theorem tokens_escape (b : UInt8) (rest : Text) :
    tokens (escape b ++ rest) = (tokens rest).map (Token.byte b.toNat :: ·) := by
  have hb : b.toNat < 256 := b.toNat_lt
  have hhigh := digitValue_hexUnit (n := b.toNat / 16) (by omega)
  have hlow := digitValue_hexUnit (n := b.toNat % 16) (by omega)
  have hvalue : b.toNat / 16 * 16 + b.toNat % 16 = b.toNat := by omega
  show tokens (unit '%' :: hexUnit (b.toNat / 16) :: hexUnit (b.toNat % 16) :: rest) = _
  rw [tokens, if_pos rfl]
  simp only [hhigh, hlow, hvalue]

theorem tokens_escapes (bs : List UInt8) (rest : Text) :
    tokens (bs.flatMap escape ++ rest) = (tokens rest).map (bs.map (fun b => Token.byte b.toNat) ++ ·) := by
  induction bs with
  | nil =>
    rw [List.flatMap_nil, List.nil_append]
    exact Option.map_id'.symm
  | cons b bs ih =>
    rw [List.flatMap_cons, List.append_assoc, tokens_escape, ih, Option.map_map]
    rfl

theorem tokens_cons_of_ne {c : UInt16} (h : c ≠ unit '%') (rest : Text) :
    tokens (c :: rest) = (tokens rest).map (Token.plain c :: ·) := by
  rw [tokens.eq_def]
  exact if_neg h

/-- What is read back of a code point. -/
def pointTokens (n : ℕ) : List Token :=
  if isUnreserved n then [.plain (UInt16.ofNat n)] else (utf8 n).map fun b => .byte b.toNat

theorem toNat_ofNat8 {n : ℕ} (h : n < 256) : (UInt8.ofNat n).toNat = n :=
  UInt8.toNat_ofNat'.trans (Nat.mod_eq_of_lt h)

theorem toNat_ofNat16 {n : ℕ} (h : n < 65536) : (UInt16.ofNat n).toNat = n :=
  UInt16.toNat_ofNat'.trans (Nat.mod_eq_of_lt h)

theorem isUnreserved_lt {n : ℕ} (h : isUnreserved n = true) : n < 127 ∧ n ≠ 37 := by
  have hn := of_decide_eq_true h
  simp only [List.mem_cons, List.not_mem_nil, or_false] at hn
  omega

theorem units_unreserved {n : ℕ} (h : isUnreserved n = true) : units n = [UInt16.ofNat n] := by
  have hn := (isUnreserved_lt h).1
  exact if_pos (by omega)

theorem tokens_encodePoint (n : ℕ) (rest : Text) :
    tokens (encodePoint n ++ rest) = (tokens rest).map (pointTokens n ++ ·) := by
  rw [encodePoint, pointTokens]
  split_ifs with h
  · obtain ⟨hlt, hne⟩ := isUnreserved_lt h
    have hpercent : UInt16.ofNat n ≠ unit '%' := by
      intro heq
      have hnat := congrArg UInt16.toNat heq
      rw [toNat_ofNat16 (by omega)] at hnat
      exact hne hnat
    rw [units_unreserved h, List.singleton_append, tokens_cons_of_ne hpercent]
    rfl
  · exact tokens_escapes _ _


/-- The bytes of a code point are read back. -/
theorem decodeTokens_utf8 {n : ℕ} (hn : n < 0x110000) (hsurrogate : isSurrogate n = false) (rest : List Token) :
    decodeTokens (((utf8 n).map fun b => Token.byte b.toNat) ++ rest) = (decodeTokens rest).map (units n ++ ·) := by
  rw [utf8]
  split_ifs with h1 h2 h3
  · simp only [List.map_cons, List.map_nil, List.cons_append, List.nil_append]
    rw [toNat_ofNat8 (by omega), decodeTokens.eq_def]
    exact if_pos h1
  · simp only [List.map_cons, List.map_nil, List.cons_append, List.nil_append]
    rw [toNat_ofNat8 (by omega), toNat_ofNat8 (by omega), decodeTokens, if_neg (by omega), if_neg (by omega),
      if_pos (by omega)]
    have hcont : isContinuation (0x80 + n % 0x40) = true := decide_eq_true (by omega)
    have hvalue : (0xc0 + n / 0x40 - 0xc0) * 0x40 + (0x80 + n % 0x40 - 0x80) = n := by omega
    simp only [hcont, hvalue, Bool.true_and]
    rw [if_pos (decide_eq_true (by omega))]
  · simp only [List.map_cons, List.map_nil, List.cons_append, List.nil_append]
    rw [toNat_ofNat8 (by omega), toNat_ofNat8 (by omega), toNat_ofNat8 (by omega), decodeTokens, if_neg (by omega),
      if_neg (by omega), if_neg (by omega), if_pos (by omega)]
    have hcont₁ : isContinuation (0x80 + n / 0x40 % 0x40) = true := decide_eq_true (by omega)
    have hcont₂ : isContinuation (0x80 + n % 0x40) = true := decide_eq_true (by omega)
    have hvalue : (0xe0 + n / 0x1000 - 0xe0) * 0x1000 + (0x80 + n / 0x40 % 0x40 - 0x80) * 0x40 +
        (0x80 + n % 0x40 - 0x80) = n := by omega
    simp only [hcont₁, hcont₂, hvalue, hsurrogate, Bool.true_and, Bool.not_false, Bool.and_true]
    rw [if_pos (decide_eq_true (by omega))]
  · simp only [List.map_cons, List.map_nil, List.cons_append, List.nil_append]
    rw [toNat_ofNat8 (by omega), toNat_ofNat8 (by omega), toNat_ofNat8 (by omega), toNat_ofNat8 (by omega),
      decodeTokens, if_neg (by omega), if_neg (by omega), if_neg (by omega), if_neg (by omega)]
    have hcont₁ : isContinuation (0x80 + n / 0x1000 % 0x40) = true := decide_eq_true (by omega)
    have hcont₂ : isContinuation (0x80 + n / 0x40 % 0x40) = true := decide_eq_true (by omega)
    have hcont₃ : isContinuation (0x80 + n % 0x40) = true := decide_eq_true (by omega)
    have hvalue : (0xf0 + n / 0x40000 - 0xf0) * 0x40000 + (0x80 + n / 0x1000 % 0x40 - 0x80) * 0x1000 +
        (0x80 + n / 0x40 % 0x40 - 0x80) * 0x40 + (0x80 + n % 0x40 - 0x80) = n := by omega
    simp only [hcont₁, hcont₂, hcont₃, hvalue, Bool.true_and]
    rw [if_pos (decide_eq_true ⟨by omega, hn⟩)]

theorem decodeTokens_pointTokens {n : ℕ} (hn : n < 0x110000) (hsurrogate : isSurrogate n = false)
    (rest : List Token) :
    decodeTokens (pointTokens n ++ rest) = (decodeTokens rest).map (units n ++ ·) := by
  rw [pointTokens]
  split_ifs with h
  · rw [List.singleton_append, decodeTokens, units_unreserved h]
    rfl
  · exact decodeTokens_utf8 hn hsurrogate rest

theorem tokens_encodePoints (ns : List ℕ) :
    tokens (ns.flatMap encodePoint) = some (ns.flatMap pointTokens) := by
  induction ns with
  | nil => rfl
  | cons n ns ih =>
    rw [List.flatMap_cons, tokens_encodePoint, ih]
    rfl

theorem decodeTokens_points {ns : List ℕ} (hlt : ∀ n ∈ ns, n < 0x110000) (hsurrogate : ns.any isSurrogate = false) :
    decodeTokens (ns.flatMap pointTokens) = some (ns.flatMap units) := by
  induction ns with
  | nil => rfl
  | cons n ns ih =>
    rw [List.any_cons, Bool.or_eq_false_iff] at hsurrogate
    obtain ⟨hn, hns⟩ := List.forall_mem_cons.mp hlt
    rw [List.flatMap_cons, decodeTokens_pointTokens hn hsurrogate.1, ih hns hsurrogate.2]
    rfl

/-- **Round trip**: what was encoded decodes to itself. -/
theorem decode_encode {t e : Text} (h : encodeURIComponent t = some e) : decodeURIComponent e = some t := by
  unfold encodeURIComponent at h
  split_ifs at h with hsurrogate
  obtain rfl := Option.some.inj h
  rw [decodeURIComponent, tokens_encodePoints]
  show decodeTokens _ = some t
  rw [decodeTokens_points (codePoints_lt t) (Bool.eq_false_iff.mpr hsurrogate), flatMap_units_codePoints]

/-- A text without escapes decodes to itself. -/
theorem decode_plain {t : Text} (h : unit '%' ∉ t) : decodeURIComponent t = some t := by
  have htokens : tokens t = some (t.map Token.plain) := by
    induction t with
    | nil => rfl
    | cons c rest ih =>
      obtain ⟨hc, hrest⟩ := not_or.mp (mt List.mem_cons.mpr h)
      rw [tokens_cons_of_ne (Ne.symm hc), ih hrest]
      rfl
  rw [decodeURIComponent, htokens]
  show decodeTokens _ = some t
  clear h htokens
  induction t with
  | nil => rfl
  | cons c rest ih =>
    rw [List.map_cons, decodeTokens, ih]
    rfl

/-! ## What an encoded text is made of -/

/-- An encoded text is made of escapes and unreserved characters. -/
def IsCoded (c : UInt16) : Prop := c = unit '%' ∨ isUnreserved c.toNat = true

theorem isCoded_hexUnit {n : ℕ} (h : n < 16) : IsCoded (hexUnit n) := by
  right
  interval_cases n <;> rfl

theorem isCoded_encode {t e : Text} (h : encodeURIComponent t = some e) : ∀ c ∈ e, IsCoded c := by
  unfold encodeURIComponent at h
  split_ifs at h
  obtain rfl := Option.some.inj h
  intro c hc
  obtain ⟨n, -, hc⟩ := List.mem_flatMap.mp hc
  unfold encodePoint at hc
  split_ifs at hc with hn
  · rw [units_unreserved hn, List.mem_singleton] at hc
    right
    have hlt := (isUnreserved_lt hn).1
    rw [hc, toNat_ofNat16 (by omega)]
    exact hn
  · obtain ⟨b, -, hc⟩ := List.mem_flatMap.mp hc
    have hb : b.toNat < 256 := b.toNat_lt
    rcases List.mem_cons.mp hc with rfl | hc
    · exact Or.inl rfl
    · rcases List.mem_cons.mp hc with rfl | hc
      · exact isCoded_hexUnit (by omega)
      · obtain rfl := List.mem_singleton.mp hc
        exact isCoded_hexUnit (by omega)

theorem length_encodePoint (n : ℕ) : (encodePoint n).length = cost n := by
  rw [encodePoint, cost]
  split_ifs with h
  · rw [units_unreserved h]
    rfl
  · have hthree : (fun b => (escape b).length) = fun _ => 3 := rfl
    rw [List.length_flatMap, hthree, List.map_const', List.sum_replicate, smul_eq_mul, Nat.mul_comm]

theorem length_encode {t e : Text} (h : encodeURIComponent t = some e) : e.length = encodedLength t := by
  unfold encodeURIComponent at h
  split_ifs at h
  obtain rfl := Option.some.inj h
  rw [List.length_flatMap, encodedLength]
  exact congrArg List.sum (List.map_congr_left fun n _ => length_encodePoint n)

end Vellar.PercentCoding
