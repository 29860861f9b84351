import Mathlib

/-!
# Vellar.Lib.WebText — texts as a browser reads them

A text is its UTF-16 units.  `decode` replaces the character references of a text as an HTML tokenizer does, and
`scheme?` is the scheme that the URL parser reads in a text.
-/

set_option autoImplicit false

namespace Vellar.WebText

/-- A JavaScript string. -/
abbrev Text := List UInt16

instance : LawfulBEq Text := inferInstance

def unit (c : Char) : UInt16 := UInt16.ofNat c.toNat

/-- A text of units below the surrogates. -/
def text (s : String) : Text := s.toList.map unit

/-! ## Character references -/

/-- The value of a digit, up to sixteen. -/
def digitValue (c : UInt16) : Option ℕ :=
  if 48 ≤ c.toNat ∧ c.toNat ≤ 57 then some (c.toNat - 48)
  else if 97 ≤ c.toNat ∧ c.toNat ≤ 102 then some (c.toNat - 87)
  else if 65 ≤ c.toNat ∧ c.toNat ≤ 70 then some (c.toNat - 55)
  else none

def isDigit (base : ℕ) (c : UInt16) : Bool := (digitValue c).any (· < base)

/-- What the references to C1 controls stand for. -/
def c1 : List ℕ :=
  [0x20ac, 0x81, 0x201a, 0x192, 0x201e, 0x2026, 0x2020, 0x2021, 0x2c6, 0x2030, 0x160, 0x2039, 0x152, 0x8d, 0x17d,
    0x8f, 0x90, 0x2018, 0x2019, 0x201c, 0x201d, 0x2022, 0x2013, 0x2014, 0x2dc, 0x2122, 0x161, 0x203a, 0x153, 0x9d,
    0x17e, 0x178]

/-- What the reference to a number stands for. -/
def codePoint (n : ℕ) : Text :=
  if n = 0 ∨ 0x10ffff < n ∨ 0xd800 ≤ n ∧ n ≤ 0xdfff then [0xfffd]
  else if 0x80 ≤ n ∧ n < 0xa0 then [UInt16.ofNat (c1.getD (n - 0x80) n)]
  else if n < 0x10000 then [UInt16.ofNat n]
  else [UInt16.ofNat (0xd7c0 + n / 0x400), UInt16.ofNat (0xdc00 + n % 0x400)]

/-- A reference may lack its semicolon. -/
def dropSemicolon : Text → Text
  | [] => []
  | c :: rest => if c = unit ';' then rest else c :: rest

def numeric (base : ℕ) (cs : Text) : Option (Text × Text) :=
  let digits := cs.takeWhile (isDigit base)
  if digits = [] then none
  else some (codePoint (digits.foldl (fun n c => n * base + (digitValue c).getD 0) 0),
    dropSemicolon (cs.dropWhile (isDigit base)))

/-- Of the named references, those of the characters that HTML escapes. -/
def named : List (String × Char) := [("amp", '&'), ("lt", '<'), ("gt", '>'), ("quot", '"')]

/-- What follows an ampersand: what the reference stands for, and what is after it. -/
def reference (cs : Text) : Option (Text × Text) :=
  if cs.head? = some (unit '#') then
    if (cs.drop 1).head? = some (unit 'x') ∨ (cs.drop 1).head? = some (unit 'X') then numeric 16 (cs.drop 2)
    else numeric 10 (cs.drop 1)
  else named.findSome? fun (name, c) =>
    if (text name).isPrefixOf cs then some ([unit c], dropSemicolon (cs.drop (text name).length)) else none

def decodeFrom : ℕ → Text → Text
  | 0, cs => cs
  | _, [] => []
  | n + 1, c :: rest =>
    if c = unit '&' then
      match reference rest with
      | some (t, after) => t ++ decodeFrom n after
      | none => c :: decodeFrom n rest
    else c :: decodeFrom n rest

/-- The text with its character references replaced. -/
def decode (cs : Text) : Text := decodeFrom cs.length cs

theorem length_dropSemicolon (cs : Text) : (dropSemicolon cs).length ≤ cs.length := by
  cases cs with
  | nil => exact le_rfl
  | cons c rest =>
    rw [dropSemicolon]
    split_ifs
    · exact Nat.le_succ _
    · exact le_rfl

theorem length_numeric {base : ℕ} {cs t after : Text} (h : numeric base cs = some (t, after)) :
    after.length ≤ cs.length := by
  unfold numeric at h
  dsimp only at h
  split_ifs at h
  obtain ⟨-, rfl⟩ := Prod.mk.inj (Option.some.inj h)
  exact (length_dropSemicolon _).trans (List.dropWhile_suffix _).length_le

theorem length_reference {cs t after : Text} (h : reference cs = some (t, after)) : after.length ≤ cs.length := by
  unfold reference at h
  split_ifs at h
  · exact (length_numeric h).trans (List.drop_suffix 2 cs).length_le
  · exact (length_numeric h).trans (List.drop_suffix 1 cs).length_le
  · obtain ⟨⟨name, c⟩, -, hname⟩ := List.exists_of_findSome?_eq_some h
    dsimp only at hname
    split_ifs at hname
    obtain ⟨-, rfl⟩ := Prod.mk.inj (Option.some.inj hname)
    exact (length_dropSemicolon _).trans (List.drop_suffix _ cs).length_le

theorem decodeFrom_eq {n m : ℕ} {cs : Text} (hn : cs.length ≤ n) (hm : cs.length ≤ m) :
    decodeFrom n cs = decodeFrom m cs := by
  induction n generalizing m cs with
  | zero =>
    obtain rfl := List.length_eq_zero_iff.mp (Nat.le_zero.mp hn)
    cases m <;> rfl
  | succ n ih =>
    cases cs with
    | nil => cases m <;> rfl
    | cons c rest =>
      obtain ⟨m, rfl⟩ := Nat.exists_eq_succ_of_ne_zero (Nat.ne_zero_of_lt hm)
      have hrest : rest.length ≤ n := Nat.le_of_succ_le_succ hn
      have hrest' : rest.length ≤ m := Nat.le_of_succ_le_succ hm
      rw [decodeFrom, decodeFrom, ih hrest hrest']
      cases href : reference rest with
      | none => rfl
      | some p =>
        have hafter := @length_reference rest p.1 p.2 href
        dsimp only
        rw [ih (hafter.trans hrest) (hafter.trans hrest')]

@[simp] theorem decode_nil : decode [] = [] := rfl

theorem decode_cons {c : UInt16} (h : c ≠ unit '&') (rest : Text) : decode (c :: rest) = c :: decode rest := by
  unfold decode
  rw [List.length_cons, decodeFrom, if_neg h]

theorem decode_reference {cs t after : Text} (h : reference cs = some (t, after)) :
    decode (unit '&' :: cs) = t ++ decode after := by
  unfold decode
  rw [List.length_cons, decodeFrom, if_pos rfl, h]
  dsimp only
  rw [decodeFrom_eq (length_reference h) le_rfl]

/-! ## URL schemes -/

/-- A C0 control or a space. -/
def isControlOrSpace (c : UInt16) : Bool := decide (c.toNat ≤ 32)

/-- What the URL parser reads of a text: no controls and spaces around it, and no tabs and newlines in it. -/
def urlText (cs : Text) : Text :=
  ((cs.dropWhile isControlOrSpace).rdropWhile isControlOrSpace).filter fun c => decide (c.toNat ∉ [9, 10, 13])

def isAlpha (c : UInt16) : Bool := decide (65 ≤ c.toNat ∧ c.toNat ≤ 90 ∨ 97 ≤ c.toNat ∧ c.toNat ≤ 122)

/-- A letter, a digit, or one of `+`, `-`, `.` -/
def isSchemeUnit (c : UInt16) : Bool := isAlpha c || decide (48 ≤ c.toNat ∧ c.toNat ≤ 57 ∨ c.toNat ∈ [43, 45, 46])

def lowerUnit (c : UInt16) : UInt16 := if 65 ≤ c.toNat ∧ c.toNat ≤ 90 then c + 32 else c

/-- The scheme that the URL parser reads: a letter and scheme units up to a colon, in lower case. -/
def scheme? (cs : Text) : Option Text :=
  let name := (urlText cs).takeWhile isSchemeUnit
  if name.head?.any isAlpha ∧ ((urlText cs).dropWhile isSchemeUnit).head? = some (unit ':') then
    some (name.map lowerUnit)
  else none

theorem isAlpha_of_lowerUnit {c : UInt16} (h : 97 ≤ (lowerUnit c).toNat ∧ (lowerUnit c).toNat ≤ 122) :
    isAlpha c = true := by
  unfold isAlpha
  unfold lowerUnit at h
  split_ifs at h with hupper
  · exact decide_eq_true (.inl hupper)
  · exact decide_eq_true (.inr h)

theorem lowerUnit_eq_colon {c : UInt16} (h : lowerUnit c = unit ':') : c = unit ':' := by
  unfold lowerUnit at h
  split_ifs at h with hupper
  · have hnat := congrArg UInt16.toNat h
    rw [UInt16.toNat_add] at hnat
    have hcolon : (unit ':').toNat = 58 := rfl
    have hspace : (32 : UInt16).toNat = 32 := rfl
    omega
  · exact h

/-- A scheme of letters is read exactly where the text begins with it and a colon, in any case. -/
theorem scheme?_eq_some_iff {cs name : Text} (hne : name ≠ []) (hname : ∀ c ∈ name, 97 ≤ c.toNat ∧ c.toNat ≤ 122) :
    scheme? cs = some name ↔ name ++ [unit ':'] <+: (urlText cs).map lowerUnit := by
  have hcolon : isSchemeUnit (unit ':') = false := by decide
  constructor
  · intro h
    unfold scheme? at h
    dsimp only at h
    split_ifs at h with hread
    obtain rfl := Option.some.inj h
    obtain ⟨rest, hrest⟩ := List.head?_eq_some_iff.mp hread.2
    refine ⟨rest.map lowerUnit, ?_⟩
    have hsplit : urlText cs = (urlText cs).takeWhile isSchemeUnit ++ unit ':' :: rest := by
      rw [← hrest, List.takeWhile_append_dropWhile]
    conv_rhs => rw [hsplit, List.map_append, List.map_cons]
    rw [List.append_assoc]
    rfl
  · rintro ⟨tail, htail⟩
    rw [List.append_assoc] at htail
    obtain ⟨front, back, hsplit, hfront, hback⟩ := List.map_eq_append_iff.mp htail.symm
    obtain ⟨c, rest, rfl, hc, -⟩ := List.map_eq_cons_iff.mp hback
    obtain rfl := lowerUnit_eq_colon hc
    have halpha : ∀ d ∈ front, isAlpha d = true := by
      intro d hd
      have hmem : lowerUnit d ∈ name := by
        rw [← hfront]
        exact List.mem_map_of_mem hd
      exact isAlpha_of_lowerUnit (hname _ hmem)
    have hall : ∀ d ∈ front, isSchemeUnit d = true := by
      intro d hd
      unfold isSchemeUnit
      rw [halpha d hd]
      rfl
    have htake : (urlText cs).takeWhile isSchemeUnit = front := by
      rw [hsplit, List.takeWhile_append_of_pos hall, List.takeWhile_cons_of_neg (by rw [hcolon]; decide),
        List.append_nil]
    have hdrop : (urlText cs).dropWhile isSchemeUnit = unit ':' :: rest := by
      rw [hsplit, List.dropWhile_append_of_pos hall, List.dropWhile_cons_of_neg (by rw [hcolon]; decide)]
    have hhead : front.head?.any isAlpha = true := by
      cases front with
      | nil => exact absurd hfront.symm hne
      | cons d front => exact halpha d List.mem_cons_self
    unfold scheme?
    dsimp only
    rw [htake, hdrop, if_pos ⟨hhead, rfl⟩, hfront]

end Vellar.WebText
