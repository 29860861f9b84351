import Vellar.Lib.Hex
import Vellar.Lib.Json
import Vellar.Worker.JsText

/-!
# Vellar.Lib.JsonText — JSON values as texts

`stringify` prints a JSON value as `JSON.stringify` does and `parse` reads a text as `JSON.parse` does, where what
prints a number and what reads one are given.  `parse_stringify`: reading what was printed gives the value back, each
number as its text is read; so a text is that of one value only.
-/

set_option autoImplicit false

namespace Vellar.JsonText

open Worker (jsonChar jsonString)

/-! ## Induction -/

/-- Induction over a JSON value. -/
@[elab_as_elim]
theorem induction {motive : Json → Prop} (null : motive .null) (bool : ∀ b, motive (.bool b))
    (num : ∀ n, motive (.num n)) (str : ∀ s, motive (.str s))
    (arr : ∀ items, (∀ v ∈ items, motive v) → motive (.arr items))
    (obj : ∀ fields, (∀ f ∈ fields, motive f.2) → motive (.obj fields)) (v : Json) : motive v := by
  refine Json.rec (motive_1 := motive) (motive_2 := fun items => ∀ v ∈ items, motive v)
    (motive_3 := fun fields => ∀ f ∈ fields, motive f.2) (motive_4 := fun f => motive f.2) null bool num str arr obj
    (fun v hv => (nomatch hv)) (fun v items hv hitems => ?_) (fun f hf => (nomatch hf)) (fun f fields hf hfields => ?_)
    (fun _ _ hv => hv) v
  · intro w hw
    rcases List.mem_cons.mp hw with rfl | hw
    · exact hv
    · exact hitems w hw
  · intro g hg
    rcases List.mem_cons.mp hg with rfl | hg
    · exact hf
    · exact hfields g hg

/-! ## Printing -/

/-- The texts with commas between them. -/
def commas (texts : List (List Char)) : List Char := [','].intercalate texts

section Print

variable (numberText : ℚ → String)

mutual

/-- `JSON.stringify`. -/
def stringify : Json → List Char
  | .null => ['n', 'u', 'l', 'l']
  | .bool true => ['t', 'r', 'u', 'e']
  | .bool false => ['f', 'a', 'l', 's', 'e']
  | .num n => (numberText n).toList
  | .str s => (jsonString s).toList
  | .arr items => '[' :: commas (stringifyItems items) ++ [']']
  | .obj fields => '\x7b' :: commas (stringifyFields fields) ++ ['\x7d']

def stringifyItems : List Json → List (List Char)
  | [] => []
  | item :: rest => stringify item :: stringifyItems rest

def stringifyFields : List (String × Json) → List (List Char)
  | [] => []
  | (key, value) :: rest => ((jsonString key).toList ++ ':' :: stringify value) :: stringifyFields rest

end

/-- An entry of an object. -/
def stringifyField (field : String × Json) : List Char :=
  (jsonString field.1).toList ++ ':' :: stringify numberText field.2

theorem stringifyItems_eq (items : List Json) : stringifyItems numberText items = items.map (stringify numberText) := by
  induction items with
  | nil => rfl
  | cons item rest ih => rw [stringifyItems, ih, List.map_cons]

theorem stringifyFields_eq (fields : List (String × Json)) :
    stringifyFields numberText fields = fields.map (stringifyField numberText) := by
  induction fields with
  | nil => rfl
  | cons field rest ih => rw [stringifyFields, ih, List.map_cons, stringifyField]

end Print

theorem commas_cons (text : List Char) (texts : List (List Char)) :
    commas (text :: texts) = text ++ texts.flatMap (',' :: ·) := by
  induction texts generalizing text with
  | nil => simp [commas]
  | cons next texts ih =>
    have hstep : commas (text :: next :: texts) = text ++ ',' :: commas (next :: texts) := by simp [commas]
    rw [hstep, ih, List.flatMap_cons]
    rfl

/-! ## Reading -/

/-- JSON's white space. -/
def isSpace (c : Char) : Bool := c = ' ' || c = '\t' || c = '\n' || c = '\r'

def skipSpace (cs : List Char) : List Char := cs.dropWhile isSpace

def isNumberChar (c : Char) : Bool := c.isDigit || c = '-' || c = '+' || c = '.' || c = 'e' || c = 'E'

/-- Four hexadecimal digits. -/
def readHex : List Char → Option (ℕ × List Char)
  | a :: b :: c :: d :: rest =>
    (Hex.hexValue a).bind fun w => (Hex.hexValue b).bind fun x => (Hex.hexValue c).bind fun y =>
      (Hex.hexValue d).map fun z => (((w * 16 + x) * 16 + y) * 16 + z, rest)
  | _ => none

/-- What follows `\u`: a character, or the two surrogates of one; texts are of characters, so a surrogate alone is
none. -/
def readUnicode (cs : List Char) : Option (Char × List Char) :=
  (readHex cs).bind fun first =>
    if first.1 < 0xd800 ∨ 0xdfff < first.1 then some (Char.ofNat first.1, first.2)
    else match first.2 with
      | '\\' :: 'u' :: rest =>
        (readHex rest).bind fun second =>
          if first.1 < 0xdc00 ∧ 0xdc00 ≤ second.1 ∧ second.1 ≤ 0xdfff then
            some (Char.ofNat (0x10000 + (first.1 - 0xd800) * 0x400 + (second.1 - 0xdc00)), second.2)
          else none
      | _ => none

/-- What follows a backslash. -/
def readEscape : List Char → Option (Char × List Char)
  | '"' :: rest => some ('"', rest)
  | '\\' :: rest => some ('\\', rest)
  | '/' :: rest => some ('/', rest)
  | 'b' :: rest => some ('\x08', rest)
  | 'f' :: rest => some ('\x0c', rest)
  | 'n' :: rest => some ('\n', rest)
  | 'r' :: rest => some ('\r', rest)
  | 't' :: rest => some ('\t', rest)
  | 'u' :: rest => readUnicode rest
  | _ => none

/-- The characters of a string up to its closing quote, and what follows it. -/
def readChars : ℕ → List Char → Option (List Char × List Char)
  | 0, _ => none
  | _ + 1, [] => none
  | n + 1, c :: rest =>
    if c = '"' then some ([], rest)
    else if c = '\\' then
      (readEscape rest).bind fun e => (readChars n e.2).map fun p => (e.1 :: p.1, p.2)
    else if c.toNat < 32 then none
    else (readChars n rest).map fun p => (c :: p.1, p.2)

/-- More elements, each after a comma, up to `close`. -/
def readMore {α : Type} (read : List Char → Option (α × List Char)) (close : Char) :
    ℕ → List Char → Option (List α × List Char)
  | 0, _ => none
  | n + 1, cs =>
    match skipSpace cs with
    | [] => none
    | c :: rest =>
      if c = close then some ([], rest)
      else if c = ',' then
        (read rest).bind fun first => (readMore read close n first.2).map fun more => (first.1 :: more.1, more.2)
      else none

/-- The elements of an array or an object. -/
def readList {α : Type} (read : List Char → Option (α × List Char)) (close : Char) (n : ℕ) (cs : List Char) :
    Option (List α × List Char) :=
  match skipSpace cs with
  | [] => none
  | c :: rest =>
    if c = close then some ([], rest)
    else (read (c :: rest)).bind fun first =>
      (readMore read close n first.2).map fun more => (first.1 :: more.1, more.2)

def readField (read : List Char → Option (Json × List Char)) (n : ℕ) (cs : List Char) :
    Option ((String × Json) × List Char) :=
  match skipSpace cs with
  | '"' :: rest =>
    (readChars n rest).bind fun key =>
      match skipSpace key.2 with
      | ':' :: rest => (read rest).map fun value => ((String.ofList key.1, value.1), value.2)
      | _ => none
  | _ => none

section Read

variable (readNumber : String → Option ℚ)

def readValue : ℕ → List Char → Option (Json × List Char)
  | 0, _ => none
  | n + 1, cs =>
    match skipSpace cs with
    | [] => none
    | c :: rest =>
      if c = '"' then (readChars n rest).map fun p => (.str (String.ofList p.1), p.2)
      else if c = '[' then (readList (readValue n) ']' n rest).map fun p => (.arr p.1, p.2)
      -- a key that comes again replaces the value
      else if c = '\x7b' then (readList (readField (readValue n) n) '\x7d' n rest).map fun p =>
        (p.1.foldl (fun object field => object.set field.1 field.2) (.obj []), p.2)
      else if isNumberChar c then
        (readNumber (String.ofList ((c :: rest).takeWhile isNumberChar))).map fun q =>
          (.num q, (c :: rest).dropWhile isNumberChar)
      else match c :: rest with
        | 'n' :: 'u' :: 'l' :: 'l' :: rest => some (.null, rest)
        | 't' :: 'r' :: 'u' :: 'e' :: rest => some (.bool true, rest)
        | 'f' :: 'a' :: 'l' :: 's' :: 'e' :: rest => some (.bool false, rest)
        | _ => none

/-- `JSON.parse`. -/
def parse (text : List Char) : Option Json :=
  (readValue readNumber text.length text).bind fun p => if skipSpace p.2 = [] then some p.1 else none

end Read

/-! ## Strings read back -/

theorem readHex_control {n : ℕ} (h : n < 32) (rest : List Char) :
    readHex ('0' :: '0' :: (Nat.toDigits 16 (256 + n)).drop 1 ++ rest) = some (n, rest) := by
  have hdigits : ∀ n < 32,
      (Nat.toDigits 16 (256 + n)).drop 1 = [Hex.hexDigit (n / 16), Hex.hexDigit (n % 16)] := by decide
  have hvalue : n / 16 * 16 + n % 16 = n := Nat.div_add_mod' n 16
  rw [hdigits n h]
  show ((Hex.hexValue '0').bind fun w => (Hex.hexValue '0').bind fun x =>
    (Hex.hexValue (Hex.hexDigit (n / 16))).bind fun y => (Hex.hexValue (Hex.hexDigit (n % 16))).map fun z =>
    (((w * 16 + x) * 16 + y) * 16 + z, rest)) = _
  rw [Hex.hexValue_hexDigit (by omega), Hex.hexValue_hexDigit (by omega)]
  simp [Hex.hexValue, hvalue]

theorem readEscape_control {c : Char} (h : c.toNat < 32) (rest : List Char) :
    readEscape ('u' :: '0' :: '0' :: (Nat.toDigits 16 (256 + c.toNat)).drop 1 ++ rest) = some (c, rest) := by
  have hhex := readHex_control h rest
  simp only [List.cons_append] at hhex
  simp only [readEscape, readUnicode, List.cons_append, hhex, Option.bind_some, Char.ofNat_toNat]
  rw [if_pos (Or.inl (by omega))]

/-- A character read as it is printed. -/
theorem readChars_jsonChar (n : ℕ) (c : Char) (rest : List Char) :
    readChars (n + 1) (jsonChar c ++ rest) = (readChars n rest).map fun p => (c :: p.1, p.2) := by
  have hescaped : ∀ tail, readEscape tail = some (c, rest) →
      readChars (n + 1) ('\\' :: tail) = (readChars n rest).map fun p => (c :: p.1, p.2) := by
    intro tail htail
    rw [readChars, if_neg (by decide), if_pos rfl, htail]
    rfl
  unfold jsonChar
  split_ifs with hquote hslash hb ht hn hf hr hcontrol
  · exact hescaped _ (by rw [hquote]; rfl)
  · exact hescaped _ (by rw [hslash]; rfl)
  · exact hescaped _ (by rw [← Char.ofNat_toNat c, hb]; rfl)
  · exact hescaped _ (by rw [← Char.ofNat_toNat c, ht]; rfl)
  · exact hescaped _ (by rw [← Char.ofNat_toNat c, hn]; rfl)
  · exact hescaped _ (by rw [← Char.ofNat_toNat c, hf]; rfl)
  · exact hescaped _ (by rw [← Char.ofNat_toNat c, hr]; rfl)
  · exact hescaped _ (readEscape_control hcontrol rest)
  · show readChars (n + 1) (c :: rest) = _
    rw [readChars, if_neg hquote, if_neg hslash, if_neg hcontrol]

theorem readChars_flatMap {n : ℕ} {cs : List Char} (h : cs.length < n) (rest : List Char) :
    readChars n (cs.flatMap jsonChar ++ '"' :: rest) = some (cs, rest) := by
  induction cs generalizing n with
  | nil =>
    obtain ⟨n, rfl⟩ := Nat.exists_eq_succ_of_ne_zero h.ne'
    rw [List.flatMap_nil, List.nil_append, readChars, if_pos rfl]
  | cons c cs ih =>
    obtain ⟨n, rfl⟩ := Nat.exists_eq_succ_of_ne_zero (Nat.ne_zero_of_lt h)
    rw [List.flatMap_cons, List.append_assoc, Nat.succ_eq_add_one, readChars_jsonChar, ih (by simpa using h)]
    rfl

theorem jsonChar_ne_nil (c : Char) : jsonChar c ≠ [] := by
  unfold jsonChar
  split_ifs <;> exact List.cons_ne_nil _ _

theorem length_le_flatMap {α : Type} {f : α → List Char} (xs : List α) (h : ∀ x ∈ xs, f x ≠ []) :
    xs.length ≤ (xs.flatMap f).length := by
  induction xs with
  | nil => exact Nat.zero_le _
  | cons x xs ih =>
    have hx := List.length_pos_iff.mpr (h x List.mem_cons_self)
    have hxs := ih fun y hy => h y (List.mem_cons_of_mem x hy)
    rw [List.flatMap_cons, List.length_append, List.length_cons]
    omega

theorem toList_jsonString (s : String) : (jsonString s).toList = '"' :: (s.toList.flatMap jsonChar ++ ['"']) := by
  unfold jsonString
  rw [String.toList_ofList]
  rfl

theorem length_jsonString (s : String) : s.toList.length + 2 ≤ (jsonString s).toList.length := by
  have hchars := length_le_flatMap s.toList fun c _ => jsonChar_ne_nil c
  rw [toList_jsonString, List.length_cons, List.length_append, List.length_singleton]
  omega

/-- A string read as it is printed. -/
theorem readChars_jsonString {n : ℕ} {s : String} (h : s.toList.length < n) (rest : List Char) :
    ∃ tail, (jsonString s).toList ++ rest = '"' :: tail ∧ readChars n tail = some (s.toList, rest) := by
  refine ⟨s.toList.flatMap jsonChar ++ '"' :: rest, ?_, readChars_flatMap h rest⟩
  rw [toList_jsonString]
  simp

/-! ## Lists read back -/

/-- A value can end before this text. -/
def Ends (rest : List Char) : Prop := ∀ c ∈ rest.head?, isNumberChar c = false

theorem ends_cons {c : Char} (h : isNumberChar c = false) (rest : List Char) : Ends (c :: rest) := by
  intro d hd
  rw [← Option.some.inj hd]
  exact h

section Lists

variable {α β : Type} {read : List Char → Option (β × List Char)} {text : α → List Char} {value : α → β} {close : Char}
  {xs : List α}

theorem readMore_flatMap {n : ℕ} (hn : xs.length < n) (hclose : isSpace close = false) (hcomma : close ≠ ',')
    (hend : isNumberChar close = false)
    (hread : ∀ x ∈ xs, ∀ rest, Ends rest → read (text x ++ rest) = some (value x, rest)) (rest : List Char) :
    readMore read close n (xs.flatMap (fun x => ',' :: text x) ++ close :: rest) = some (xs.map value, rest) := by
  induction xs generalizing n with
  | nil =>
    obtain ⟨n, rfl⟩ := Nat.exists_eq_succ_of_ne_zero hn.ne'
    rw [List.flatMap_nil, List.nil_append, readMore, skipSpace, List.dropWhile_cons_of_neg (by rw [hclose]; decide)]
    simp
  | cons x xs ih =>
    obtain ⟨n, rfl⟩ := Nat.exists_eq_succ_of_ne_zero (Nat.ne_zero_of_lt hn)
    have hends : Ends (xs.flatMap (fun x => ',' :: text x) ++ close :: rest) := by
      cases xs with
      | nil => exact ends_cons hend rest
      | cons y xs => exact ends_cons (by decide) _
    have hfirst := hread x List.mem_cons_self _ hends
    have hmore := ih (by simpa using hn) fun y hy => hread y (List.mem_cons_of_mem x hy)
    rw [List.flatMap_cons, List.append_assoc, List.cons_append, readMore, skipSpace,
      List.dropWhile_cons_of_neg (by decide)]
    simp only [if_neg hcomma.symm, if_true, hfirst, Option.bind_some, hmore, Option.map_some, List.map_cons]

/-- A list read as it is printed. -/
theorem readList_commas (read : List Char → Option (β × List Char)) (text : α → List Char) (value : α → β)
    {n : ℕ} (hn : xs.length ≤ n) (hclose : isSpace close = false) (hcomma : close ≠ ',')
    (hend : isNumberChar close = false)
    (hread : ∀ x ∈ xs, ∀ rest, Ends rest → read (text x ++ rest) = some (value x, rest))
    (hfirst : ∀ x ∈ xs, ∃ c cs, text x = c :: cs ∧ isSpace c = false ∧ c ≠ close) (rest : List Char) :
    readList read close n (commas (xs.map text) ++ close :: rest) = some (xs.map value, rest) := by
  cases xs with
  | nil =>
    show readList read close n (close :: rest) = _
    rw [readList, skipSpace, List.dropWhile_cons_of_neg (by rw [hclose]; decide)]
    simp
  | cons x xs =>
    have hends : Ends (xs.flatMap (fun x => ',' :: text x) ++ close :: rest) := by
      cases xs with
      | nil => exact ends_cons hend rest
      | cons y xs => exact ends_cons (by decide) _
    have hx := hread x List.mem_cons_self _ hends
    have hmore := readMore_flatMap (n := n) (by simpa using hn) hclose hcomma hend
      (fun y hy => hread y (List.mem_cons_of_mem x hy)) rest
    obtain ⟨c, cs, htext, hspace, hne⟩ := hfirst x List.mem_cons_self
    rw [List.map_cons, commas_cons, List.flatMap_map, List.append_assoc, readList]
    rw [htext, List.cons_append] at hx ⊢
    rw [skipSpace, List.dropWhile_cons_of_neg (by rw [hspace]; decide)]
    simp only [if_neg hne, hx, Option.bind_some, hmore, Option.map_some, List.map_cons]

end Lists

/-! ## Values read back -/

mutual

/-- No object has a key twice. -/
def Distinct : Json → Prop
  | .arr items => DistinctItems items
  | .obj fields => (fields.map Prod.fst).Nodup ∧ DistinctFields fields
  | _ => True

def DistinctItems : List Json → Prop
  | [] => True
  | item :: rest => Distinct item ∧ DistinctItems rest

def DistinctFields : List (String × Json) → Prop
  | [] => True
  | (_, value) :: rest => Distinct value ∧ DistinctFields rest

end

mutual

/-- The value with `f` of its numbers. -/
def mapNumbers (f : ℚ → ℚ) : Json → Json
  | .null => .null
  | .bool b => .bool b
  | .num n => .num (f n)
  | .str s => .str s
  | .arr items => .arr (mapNumbersItems f items)
  | .obj fields => .obj (mapNumbersFields f fields)

def mapNumbersItems (f : ℚ → ℚ) : List Json → List Json
  | [] => []
  | item :: rest => mapNumbers f item :: mapNumbersItems f rest

def mapNumbersFields (f : ℚ → ℚ) : List (String × Json) → List (String × Json)
  | [] => []
  | (key, value) :: rest => (key, mapNumbers f value) :: mapNumbersFields f rest

end

theorem distinctItems_iff {items : List Json} : DistinctItems items ↔ ∀ v ∈ items, Distinct v := by
  induction items with
  | nil => simp [DistinctItems]
  | cons item rest ih => rw [DistinctItems, ih, List.forall_mem_cons]

theorem distinctFields_iff {fields : List (String × Json)} : DistinctFields fields ↔ ∀ f ∈ fields, Distinct f.2 := by
  induction fields with
  | nil => simp [DistinctFields]
  | cons field rest ih => rw [DistinctFields, ih, List.forall_mem_cons]

theorem distinct_arr {items : List Json} : Distinct (.arr items) ↔ ∀ v ∈ items, Distinct v := distinctItems_iff

theorem distinct_obj {fields : List (String × Json)} :
    Distinct (.obj fields) ↔ (fields.map Prod.fst).Nodup ∧ ∀ f ∈ fields, Distinct f.2 := by
  rw [Distinct, distinctFields_iff]

theorem mapNumbersItems_eq (f : ℚ → ℚ) (items : List Json) : mapNumbersItems f items = items.map (mapNumbers f) := by
  induction items with
  | nil => rfl
  | cons item rest ih => rw [mapNumbersItems, ih, List.map_cons]

theorem mapNumbersFields_eq (f : ℚ → ℚ) (fields : List (String × Json)) :
    mapNumbersFields f fields = fields.map fun field => (field.1, mapNumbers f field.2) := by
  induction fields with
  | nil => rfl
  | cons field rest ih => rw [mapNumbersFields, ih, List.map_cons]

/-- Numbers are printed as numerals. -/
structure Numerals (numberText : ℚ → String) : Prop where
  ne_empty : ∀ n, numberText n ≠ ""
  chars : ∀ n, ∀ c ∈ (numberText n).toList, isNumberChar c = true

/-- Entries with distinct keys, assigned one after the other. -/
theorem foldl_set (fields : List (String × Json)) {before : List (String × Json)}
    (h : ((before ++ fields).map Prod.fst).Nodup) :
    fields.foldl (fun object field => Json.set object field.1 field.2) (.obj before) = Json.obj (before ++ fields) := by
  induction fields generalizing before with
  | nil => simp
  | cons field fields ih =>
    have hnew : field.1 ∉ before.map Prod.fst := by
      rw [List.map_append, List.map_cons] at h
      exact fun hmem => (List.disjoint_of_nodup_append h) hmem List.mem_cons_self
    rw [List.foldl_cons, Json.set, if_neg hnew, ih (by simpa using h)]
    simp

section RoundTrip

variable {numberText : ℚ → String} {readNumber : String → Option ℚ} {f : ℚ → ℚ}

theorem Numerals.cons (h : Numerals numberText) (n : ℚ) :
    ∃ c cs, (numberText n).toList = c :: cs ∧ isNumberChar c = true := by
  obtain ⟨c, cs, hcs⟩ := List.exists_cons_of_ne_nil fun hnil => h.ne_empty n (String.toList_eq_nil_iff.mp hnil)
  exact ⟨c, cs, hcs, h.chars n c (by rw [hcs]; exact List.mem_cons_self)⟩

theorem isNumberChar_ne {c d : Char} (h : isNumberChar c = true) (hd : isNumberChar d = false) : c ≠ d := by
  rintro rfl
  rw [h] at hd
  cases hd

theorem isSpace_of_isNumberChar {c : Char} (h : isNumberChar c = true) : isSpace c = false := by
  unfold isSpace
  simp only [Bool.or_eq_false_iff, decide_eq_false_iff_not]
  exact ⟨⟨⟨isNumberChar_ne h (by decide), isNumberChar_ne h (by decide)⟩, isNumberChar_ne h (by decide)⟩,
    isNumberChar_ne h (by decide)⟩

/-- What a printed value begins with. -/
theorem stringify_cons (h : Numerals numberText) (v : Json) :
    ∃ c cs, stringify numberText v = c :: cs ∧ isSpace c = false ∧ c ≠ ']' := by
  cases v with
  | null => exact ⟨_, _, rfl, by decide, by decide⟩
  | bool b => cases b <;> exact ⟨_, _, rfl, by decide, by decide⟩
  | num n =>
    obtain ⟨c, cs, hcs, hc⟩ := h.cons n
    exact ⟨c, cs, hcs, isSpace_of_isNumberChar hc, isNumberChar_ne hc (by decide)⟩
  | str s => exact ⟨'"', _, toList_jsonString s, by decide, by decide⟩
  | arr items => exact ⟨'[', _, rfl, by decide, by decide⟩
  | obj fields => exact ⟨'\x7b', _, rfl, by decide, by decide⟩

theorem stringify_ne_nil (h : Numerals numberText) (v : Json) : stringify numberText v ≠ [] := by
  obtain ⟨c, cs, hcs, -⟩ := stringify_cons h v
  rw [hcs]
  exact List.cons_ne_nil c cs

/-- A text among others is no longer than all with their commas. -/
theorem length_le_commas {text : List Char} {texts : List (List Char)} (h : text ∈ texts) :
    text.length ≤ (commas texts).length := by
  induction texts with
  | nil => cases h
  | cons first texts ih =>
    rw [commas_cons, List.length_append]
    rcases List.mem_cons.mp h with rfl | h
    · exact Nat.le_add_right _ _
    · obtain ⟨before, after, rfl⟩ := List.append_of_mem h
      simp only [List.flatMap_append, List.flatMap_cons, List.length_append, List.length_cons]
      omega

theorem count_le_commas (texts : List (List Char)) (h : ∀ text ∈ texts, text ≠ []) :
    texts.length ≤ (commas texts).length := by
  cases texts with
  | nil => exact Nat.zero_le _
  | cons first texts =>
    have hfirst := List.length_pos_iff.mpr (h first List.mem_cons_self)
    have hmore := length_le_flatMap (f := (',' :: ·)) texts fun text _ => List.cons_ne_nil _ _
    rw [commas_cons, List.length_append, List.length_cons]
    omega

/-- A numeral read as it is printed. -/
theorem readValue_num (h : Numerals numberText) (hf : ∀ n, readNumber (numberText n) = some (f n)) (m : ℕ) (n : ℚ)
    {rest : List Char} (hrest : Ends rest) :
    readValue readNumber (m + 1) ((numberText n).toList ++ rest) = some (.num (f n), rest) := by
  obtain ⟨c, cs, hcs, hc⟩ := h.cons n
  have hall : ∀ d ∈ c :: cs, isNumberChar d = true := by
    rw [← hcs]
    exact h.chars n
  have hstop : rest.takeWhile isNumberChar = [] ∧ rest.dropWhile isNumberChar = rest := by
    cases rest with
    | nil => exact ⟨rfl, rfl⟩
    | cons d rest =>
      have hd := hrest d rfl
      exact ⟨List.takeWhile_cons_of_neg (by rw [hd]; decide), List.dropWhile_cons_of_neg (by rw [hd]; decide)⟩
  have htake : (c :: (cs ++ rest)).takeWhile isNumberChar = (numberText n).toList := by
    rw [← List.cons_append, List.takeWhile_append_of_pos hall, hstop.1, List.append_nil, hcs]
  have hdrop : (c :: (cs ++ rest)).dropWhile isNumberChar = rest := by
    rw [← List.cons_append, List.dropWhile_append_of_pos hall, hstop.2]
  rw [hcs, List.cons_append, readValue, skipSpace,
    List.dropWhile_cons_of_neg (by rw [isSpace_of_isNumberChar hc]; decide)]
  simp only [if_neg (isNumberChar_ne hc (show isNumberChar '"' = false by decide)),
    if_neg (isNumberChar_ne hc (show isNumberChar '[' = false by decide)),
    if_neg (isNumberChar_ne hc (show isNumberChar '\x7b' = false by decide)), if_pos hc, htake, hdrop,
    String.ofList_toList, hf, Option.map_some]

/-- An entry read as it is printed. -/
theorem readField_stringify {read : List Char → Option (Json × List Char)} {n : ℕ} {field : String × Json}
    {value : Json} (hn : field.1.toList.length < n) {rest : List Char}
    (hread : read (stringify numberText field.2 ++ rest) = some (value, rest)) :
    readField read n (stringifyField numberText field ++ rest) = some ((field.1, value), rest) := by
  obtain ⟨tail, htail, hchars⟩ := readChars_jsonString hn (':' :: (stringify numberText field.2 ++ rest))
  have htext : stringifyField numberText field ++ rest = '"' :: tail := by
    rw [← htail]
    simp [stringifyField]
  have hskip : skipSpace ('"' :: tail) = '"' :: tail := List.dropWhile_cons_of_neg (by decide)
  have hcolon : skipSpace (':' :: (stringify numberText field.2 ++ rest)) =
      ':' :: (stringify numberText field.2 ++ rest) := List.dropWhile_cons_of_neg (by decide)
  rw [htext, readField, hskip]
  simp only [hchars, Option.bind_some, hcolon, hread, Option.map_some, String.ofList_toList]

/-- **A value is read as it is printed**, each of its numbers as its numeral is read. -/
theorem readValue_stringify (h : Numerals numberText) (hf : ∀ n, readNumber (numberText n) = some (f n)) (v : Json) :
    Distinct v → ∀ n, (stringify numberText v).length ≤ n → ∀ rest, Ends rest →
      readValue readNumber n (stringify numberText v ++ rest) = some (mapNumbers f v, rest) := by
  induction v using induction with
  | null =>
    intro _ n hn rest _
    obtain ⟨n, rfl⟩ := Nat.exists_eq_add_of_le' (Nat.le_trans (by decide : 1 ≤ 4) hn)
    rfl
  | bool b =>
    intro _ n hn rest _
    obtain ⟨n, rfl⟩ := Nat.exists_eq_add_of_le'
      (Nat.le_trans (List.length_pos_iff.mpr (stringify_ne_nil h (.bool b))) hn)
    cases b <;> rfl
  | num q =>
    intro _ n hn rest hrest
    obtain ⟨n, rfl⟩ := Nat.exists_eq_add_of_le'
      (Nat.le_trans (List.length_pos_iff.mpr (stringify_ne_nil h (.num q))) hn)
    exact readValue_num h hf n q hrest
  | str s =>
    intro _ n hn rest _
    have hlength : s.toList.length + 2 ≤ n := Nat.le_trans (length_jsonString s) hn
    obtain ⟨n, rfl⟩ := Nat.exists_eq_add_of_le' (Nat.le_trans (by omega : 1 ≤ s.toList.length + 2) hlength)
    obtain ⟨tail, htail, hchars⟩ := readChars_jsonString (n := n) (s := s) (by omega) rest
    have hskip : skipSpace ('"' :: tail) = '"' :: tail := List.dropWhile_cons_of_neg (by decide)
    rw [stringify, htail, readValue, hskip]
    simp only [if_pos, hchars, Option.map_some, String.ofList_toList]
    rfl
  | arr items ih =>
    intro hdistinct n hn rest _
    rw [distinct_arr] at hdistinct
    rw [stringify, stringifyItems_eq] at hn ⊢
    simp only [List.cons_append, List.length_cons, List.length_append, List.length_nil] at hn
    obtain ⟨n, rfl⟩ := Nat.exists_eq_add_of_le' (Nat.le_trans (Nat.le_add_left 1 _) hn)
    have hcount := count_le_commas (items.map (stringify numberText)) fun text htext => by
      obtain ⟨v, -, rfl⟩ := List.mem_map.mp htext
      exact stringify_ne_nil h v
    rw [List.length_map] at hcount
    have hlist := readList_commas (readValue readNumber n) (stringify numberText) (mapNumbers f)
      (show items.length ≤ n by omega) (show isSpace ']' = false by decide) (by decide) (by decide)
      (fun v hv rest hrest => ih v hv (hdistinct v hv) n
        (Nat.le_trans (length_le_commas (List.mem_map_of_mem hv)) (by omega)) rest hrest)
      (fun v _ => stringify_cons h v) rest
    have hskip : skipSpace ('[' :: (commas (items.map (stringify numberText)) ++ ']' :: rest)) =
        '[' :: (commas (items.map (stringify numberText)) ++ ']' :: rest) := List.dropWhile_cons_of_neg (by decide)
    have htext : '[' :: commas (items.map (stringify numberText)) ++ [']'] ++ rest =
        '[' :: (commas (items.map (stringify numberText)) ++ ']' :: rest) := by simp
    rw [htext, readValue, hskip]
    simp only [if_neg (show ('[' : Char) ≠ '"' by decide), if_true, hlist, Option.map_some, mapNumbers,
      mapNumbersItems_eq]
  | obj fields ih =>
    intro hdistinct n hn rest _
    rw [distinct_obj] at hdistinct
    rw [stringify, stringifyFields_eq] at hn ⊢
    simp only [List.cons_append, List.length_cons, List.length_append, List.length_nil] at hn
    obtain ⟨n, rfl⟩ := Nat.exists_eq_add_of_le' (Nat.le_trans (Nat.le_add_left 1 _) hn)
    have hcount := count_le_commas (fields.map (stringifyField numberText)) fun text htext => by
      obtain ⟨field, -, rfl⟩ := List.mem_map.mp htext
      unfold stringifyField
      rw [toList_jsonString]
      exact List.cons_ne_nil _ _
    rw [List.length_map] at hcount
    have hread : ∀ field ∈ fields, ∀ rest, Ends rest → readField (readValue readNumber n) n
        (stringifyField numberText field ++ rest) = some ((field.1, mapNumbers f field.2), rest) := by
      intro field hfield rest hrest
      have hlength := length_le_commas (List.mem_map_of_mem (f := stringifyField numberText) hfield)
      have hkey := length_jsonString field.1
      have hfield' : (stringifyField numberText field).length =
          (jsonString field.1).toList.length + ((stringify numberText field.2).length + 1) := by
        rw [stringifyField, List.length_append, List.length_cons]
      exact readField_stringify (by omega) (ih field hfield (hdistinct.2 field hfield) n (by omega) rest hrest)
    have hlist := readList_commas (readField (readValue readNumber n) n) (stringifyField numberText)
      (fun field => (field.1, mapNumbers f field.2)) (show fields.length ≤ n by omega)
      (show isSpace '\x7d' = false by decide) (by decide) (by decide) hread
      (fun field _ => ⟨'"', _, by rw [stringifyField, toList_jsonString]; rfl, by decide, by decide⟩) rest
    have hset := foldl_set (fields.map fun field => (field.1, mapNumbers f field.2))
      (show (([] ++ _).map Prod.fst).Nodup by simpa [List.map_map, Function.comp_def] using hdistinct.1)
    have hskip : skipSpace ('\x7b' :: (commas (fields.map (stringifyField numberText)) ++ '\x7d' :: rest)) =
        '\x7b' :: (commas (fields.map (stringifyField numberText)) ++ '\x7d' :: rest) :=
      List.dropWhile_cons_of_neg (by decide)
    have htext : '\x7b' :: commas (fields.map (stringifyField numberText)) ++ ['\x7d'] ++ rest =
        '\x7b' :: (commas (fields.map (stringifyField numberText)) ++ '\x7d' :: rest) := by simp
    rw [htext, readValue, hskip]
    simp only [if_neg (show ('\x7b' : Char) ≠ '"' by decide), if_neg (show ('\x7b' : Char) ≠ '[' by decide), if_true,
      hlist, Option.map_some, mapNumbers, mapNumbersFields_eq, hset, List.nil_append]

/-- **Round trip**. -/
theorem parse_stringify (h : Numerals numberText) (hf : ∀ n, readNumber (numberText n) = some (f n)) {v : Json}
    (hv : Distinct v) : parse readNumber (stringify numberText v) = some (mapNumbers f v) := by
  have hread := readValue_stringify h hf v hv _ le_rfl [] fun c hc => (nomatch hc)
  rw [List.append_nil] at hread
  rw [parse, hread, Option.bind_some, skipSpace, List.dropWhile_nil, if_pos rfl]

end RoundTrip

end Vellar.JsonText
