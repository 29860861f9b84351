import Vellar.Lib.WebText

/-!
# Vellar.Extension.Sanitization — what a dApp says of itself

`apps/extension/lib/sanitization.ts`: the metadata of a dApp as the extension shows it, over texts as the browser has
them.  `inertAndFaithful_iff` says for which payloads the fields are harmless and say what the dApp said.
-/

set_option autoImplicit false

namespace Vellar.Extension.Sanitization

open WebText

/-! ## The functions -/

def MAX_NAME_LENGTH : ℕ := 100

def MAX_DESCRIPTION_LENGTH : ℕ := 500

def MAX_ORIGIN_LENGTH : ℕ := 200

/-- `str.replace(/c/g, by)` -/
def replaceAll (c : Char) (by' : String) (str : Text) : Text :=
  str.flatMap fun d => if d = unit c then text by' else [d]

def escapeHtml (str : Text) : Text :=
  replaceAll '/' "&#x2F;" <| replaceAll '\'' "&#x27;" <| replaceAll '"' "&quot;" <| replaceAll '>' "&gt;" <|
    replaceAll '<' "&lt;" <| replaceAll '&' "&amp;" str

/-- White space and line terminators. -/
def isJsSpace (c : UInt16) : Bool :=
  c.toNat ∈ [9, 10, 11, 12, 13, 32, 160, 0x1680, 0x2028, 0x2029, 0x202f, 0x205f, 0x3000, 0xfeff] ||
    (decide (0x2000 ≤ c.toNat) && decide (c.toNat ≤ 0x200a))

/-- `str.trim()` -/
def trim (str : Text) : Text := (str.dropWhile isJsSpace).rdropWhile isJsSpace

/-- `str.startsWith(scheme)` of the text in lower case; beyond ASCII nothing has a letter of the three schemes as its
lower case. -/
def startsWithScheme (scheme : String) (str : Text) : Bool := (text scheme).isPrefixOf (str.map lowerUnit)

/-- The schemes `sanitizeUrl` turns away. -/
def isDangerous (str : Text) : Bool :=
  startsWithScheme "javascript:" str || startsWithScheme "data:" str || startsWithScheme "vbscript:" str

/-- `sanitizeUrl`; none is `undefined`. -/
def sanitizeUrl (url : Option Text) : Text :=
  match url with
  | none => []
  | some url =>
    if url = [] then []
    else if isDangerous (trim url) then []
    else escapeHtml (trim url)

/-- The class `[\x00-\x08\x0B\x0C\x0E-\x1F\x7F\u202A-\u202E\u2066-\u2069]`. -/
def isControl (c : UInt16) : Bool :=
  decide (c.toNat ≤ 8 ∨ c.toNat = 11 ∨ c.toNat = 12 ∨ 14 ≤ c.toNat ∧ c.toNat ≤ 31 ∨ c.toNat = 127 ∨
    0x202a ≤ c.toNat ∧ c.toNat ≤ 0x202e ∨ 0x2066 ≤ c.toNat ∧ c.toNat ≤ 0x2069)

/-- `str.replace(/<[^>]*>?/gm, "")` -/
def stripTags : Text → Text
  | [] => []
  | c :: rest =>
    if c = unit '<' then stripTags ((rest.dropWhile (· ≠ unit '>')).drop 1) else c :: stripTags rest
termination_by str => str.length
decreasing_by
  · have hdrop := (List.drop_suffix 1 (rest.dropWhile (· ≠ unit '>'))).length_le
    have hwhile := (List.dropWhile_suffix (· ≠ unit '>') (l := rest)).length_le
    rw [List.length_cons]
    omega
  · exact Nat.lt_succ_self _

/-- The text of a field before it is escaped and cut. -/
def plainText (str : Text) : Text := trim (stripTags (str.filter fun c => !isControl c))

/-- A value of the payload, by what `String` gives for it. -/
inductive Value where
  /-- `null` or `undefined` -/
  | absent
  | string (text : Text)
  /-- Neither a string nor absent; none where `String` throws. -/
  | other (text : Option Text)

/-- `String(input)` of what is not absent; an absent input is the empty text. -/
def Value.toText : Value → Option Text
  | absent => some []
  | string text => some text
  | other text => text

def sanitizeString (input : Value) (maxLength : ℕ) : Option Text :=
  input.toText.map fun str => (escapeHtml (plainText str)).take maxLength

structure DAppMetadataInput where
  name : Value
  description : Value
  iconUrl : Value
  origin : Value

structure SanitizedDAppMetadata where
  name : Text
  description : Text
  iconUrl : Text
  origin : Text

/-- `typeof payload.iconUrl === "string" ? payload.iconUrl : undefined` -/
def Value.string? : Value → Option Text
  | string text => some text
  | _ => none

/-- `name || "Unknown dApp"` -/
def orUnknown (name : Text) : Text := if name = [] then text "Unknown dApp" else name

/-- `sanitizeDAppMetadata`; none where it throws. -/
def sanitizeDAppMetadata (payload : DAppMetadataInput) : Option SanitizedDAppMetadata :=
  (sanitizeString payload.name MAX_NAME_LENGTH).bind fun name =>
    (sanitizeString payload.description MAX_DESCRIPTION_LENGTH).bind fun description =>
      (sanitizeString payload.origin MAX_ORIGIN_LENGTH).map fun origin =>
        { name := orUnknown name
          description := description
          iconUrl := sanitizeUrl payload.iconUrl.string?
          origin := origin }

/-! ## What is promised -/

/-- The characters that are never shown as they are. -/
def isMarkup (c : UInt16) : Bool := c ∈ text "<>\"'/"

/-- A C0 control other than tab, newline and carriage return, or a bidi override or isolate. -/
def isHidden (c : UInt16) : Bool :=
  decide (c.toNat < 32 ∧ c.toNat ∉ [9, 10, 13] ∨ 0x202a ≤ c.toNat ∧ c.toNat ≤ 0x202e ∨
    0x2066 ≤ c.toNat ∧ c.toNat ≤ 0x2069)

/-- What a field may be, with its limit if it has one. -/
structure Inert (limit : Option ℕ) (field : Text) : Prop where
  markup : ∀ c ∈ field, isMarkup c = false
  hidden : ∀ c ∈ field, isHidden c = false
  length : ∀ n ∈ limit, field.length ≤ n

/-- The text that a value of the payload has, cleaned and stripped of its tags. -/
def Value.plain (v : Value) : Text := plainText (v.toText.getD [])

def dangerousSchemes : List Text := [text "javascript", text "data", text "vbscript"]

/-- Every field is inert, name and description say what the dApp said, and the icon is of no dangerous scheme. -/
structure InertAndFaithful (payload : DAppMetadataInput) (m : SanitizedDAppMetadata) : Prop where
  name : Inert (some MAX_NAME_LENGTH) m.name
  description : Inert (some MAX_DESCRIPTION_LENGTH) m.description
  iconUrl : Inert none m.iconUrl
  origin : Inert (some MAX_ORIGIN_LENGTH) m.origin
  nameText : decode m.name <+: payload.name.plain
  descriptionText : decode m.description <+: payload.description.plain
  scheme : m.iconUrl ≠ [] → ∀ s ∈ scheme? (decode m.iconUrl), s ∉ dangerousSchemes

/-! ## Escaping -/

/-- What `escapeHtml` makes of a unit. -/
def escapeUnit (c : UInt16) : Text :=
  if c = unit '&' then text "&amp;"
  else if c = unit '<' then text "&lt;"
  else if c = unit '>' then text "&gt;"
  else if c = unit '"' then text "&quot;"
  else if c = unit '\'' then text "&#x27;"
  else if c = unit '/' then text "&#x2F;"
  else [c]

/-- What the escapes are of. -/
def escaped : List UInt16 := text "&<>\"'/"

/-- A property of every unit, from the six that are escaped and the rest. -/
theorem forall_unit {p : UInt16 → Prop} [DecidablePred p] (hescaped : escaped.all (fun c => decide (p c)) = true)
    (hplain : ∀ c, c ∉ escaped → p c) (c : UInt16) : p c := by
  by_cases hc : c ∈ escaped
  · exact of_decide_eq_true (List.all_eq_true.mp hescaped c hc)
  · exact hplain c hc

theorem ne_of_not_mem {c d : UInt16} (h : c ∉ escaped) (hd : d ∈ escaped) : c ≠ d := fun heq => h (heq ▸ hd)

theorem escapeUnit_of_not_mem {c : UInt16} (h : c ∉ escaped) : escapeUnit c = [c] := by
  unfold escapeUnit
  rw [if_neg (ne_of_not_mem h (by decide)), if_neg (ne_of_not_mem h (by decide)), if_neg (ne_of_not_mem h (by decide)),
    if_neg (ne_of_not_mem h (by decide)), if_neg (ne_of_not_mem h (by decide)), if_neg (ne_of_not_mem h (by decide))]

theorem replaceAll_cons (c : Char) (by' : String) (d : UInt16) :
    replaceAll c by' [d] = if d = unit c then text by' else [d] := List.flatMap_singleton ..

/-- The six replacements come to one. -/
theorem escapeHtml_eq (str : Text) : escapeHtml str = str.flatMap escapeUnit := by
  have hone : ∀ c, escapeHtml [c] = escapeUnit c := by
    refine forall_unit (p := fun c => escapeHtml [c] = escapeUnit c) (by decide) fun c hc => ?_
    rw [escapeUnit_of_not_mem hc]
    unfold escapeHtml
    rw [replaceAll_cons, if_neg (ne_of_not_mem hc (by decide)), replaceAll_cons, if_neg (ne_of_not_mem hc (by decide)),
      replaceAll_cons, if_neg (ne_of_not_mem hc (by decide)), replaceAll_cons, if_neg (ne_of_not_mem hc (by decide)),
      replaceAll_cons, if_neg (ne_of_not_mem hc (by decide)), replaceAll_cons, if_neg (ne_of_not_mem hc (by decide))]
  have happend : ∀ a b, escapeHtml (a ++ b) = escapeHtml a ++ escapeHtml b := fun a b => by
    unfold escapeHtml replaceAll
    simp only [List.flatMap_append]
  induction str with
  | nil => rfl
  | cons c str ih => rw [← List.singleton_append, happend, hone, ih, List.flatMap_append, List.flatMap_singleton]

theorem markup_escapeUnit (c : UInt16) : (escapeUnit c).all (fun d => !isMarkup d) = true := by
  refine forall_unit (p := fun c => (escapeUnit c).all (fun d => !isMarkup d) = true) (by decide)
    (fun c hc => ?_) c
  have hmarkup : isMarkup c = false := decide_eq_false fun hmem => hc (List.mem_cons_of_mem _ hmem)
  rw [escapeUnit_of_not_mem hc, List.all_cons, hmarkup]
  rfl

theorem hidden_escapeUnit (c : UInt16) : (escapeUnit c).all (fun d => !isHidden d) = !isHidden c := by
  refine forall_unit (p := fun c => (escapeUnit c).all (fun d => !isHidden d) = !isHidden c) (by decide)
    (fun c hc => ?_) c
  rw [escapeUnit_of_not_mem hc, List.all_cons, List.all_nil, Bool.and_true]

theorem markup_escapeHtml (str : Text) : ∀ c ∈ escapeHtml str, isMarkup c = false := by
  intro c hc
  rw [escapeHtml_eq] at hc
  obtain ⟨d, -, hd⟩ := List.mem_flatMap.mp hc
  simpa using List.all_eq_true.mp (markup_escapeUnit d) c hd

theorem hidden_escapeHtml {str : Text} :
    (∀ c ∈ escapeHtml str, isHidden c = false) ↔ ∀ c ∈ str, isHidden c = false := by
  have hall : ∀ t : Text, (∀ c ∈ t, isHidden c = false) ↔ t.all (fun d => !isHidden d) = true := fun t => by
    rw [List.all_eq_true]
    simp
  rw [hall, hall, escapeHtml_eq, List.all_flatMap]
  simp only [hidden_escapeUnit]

/-! ## Decoding what was escaped -/

theorem decode_escapeUnit (c : UInt16) (rest : Text) : decode (escapeUnit c ++ rest) = c :: decode rest := by
  have hreference : ∀ {d : UInt16} (tail : Text), reference (tail ++ rest) = some ([d], rest) →
      decode (unit '&' :: (tail ++ rest)) = d :: decode rest := fun _ h => decode_reference h
  unfold escapeUnit
  split_ifs with h1 h2 h3 h4 h5 h6
  · exact h1 ▸ hreference (text "amp;") rfl
  · exact h2 ▸ hreference (text "lt;") rfl
  · exact h3 ▸ hreference (text "gt;") rfl
  · exact h4 ▸ hreference (text "quot;") rfl
  · exact h5 ▸ hreference (text "#x27;") rfl
  · exact h6 ▸ hreference (text "#x2F;") rfl
  · exact decode_cons h1 rest

theorem decode_escapeHtml (str : Text) : decode (escapeHtml str) = str := by
  rw [escapeHtml_eq]
  induction str with
  | nil => rfl
  | cons c str ih => rw [List.flatMap_cons, decode_escapeUnit, ih]

/-! ## Cutting what was escaped -/

/-- The cut before place `k` of the escape of `c` keeps the text, where `more` follows: only the semicolon is cut off,
or what is left of an `&amp;` is what follows. -/
def CutsWell (c : UInt16) (k : ℕ) (more : Text) : Prop :=
  k + 1 = (escapeUnit c).length ∨ c = unit '&' ∧ ((escapeUnit c).take k).drop 1 <+: more

/-- A limit falls between two characters of the text as it is escaped, or cuts well. -/
def KeepsText : ℕ → Text → Prop
  | _, [] => True
  | 0, _ => True
  | n + 1, c :: more =>
    if n + 1 < (escapeUnit c).length then CutsWell c (n + 1) more else KeepsText (n + 1 - (escapeUnit c).length) more

instance (c : UInt16) (k : ℕ) (more : Text) : Decidable (CutsWell c k more) := inferInstanceAs (Decidable (_ ∨ _))

def decKeepsText : ∀ n str, Decidable (KeepsText n str)
  | 0, [] => isTrue trivial
  | _ + 1, [] => isTrue trivial
  | 0, _ :: _ => isTrue trivial
  | n + 1, c :: more =>
    if h : n + 1 < (escapeUnit c).length then decidable_of_iff (CutsWell c (n + 1) more) (by rw [KeepsText, if_pos h])
    else @decidable_of_iff _ _ (by rw [KeepsText, if_neg h]) (decKeepsText (n + 1 - (escapeUnit c).length) more)

instance (n : ℕ) (str : Text) : Decidable (KeepsText n str) := decKeepsText n str

/-- Of the escapes but `&amp;`, only one without its semicolon is read as its character. -/
theorem decode_cut_markup : (text "<>\"'/").all (fun c => (List.range (escapeUnit c).length).all fun k => k = 0 ||
    if k + 1 = (escapeUnit c).length then decode ((escapeUnit c).take k) = [c]
    else (decode ((escapeUnit c).take k)).head?.any (· ≠ c)) = true := by
  decide

theorem decode_cut_ampersand : (List.range 5).all (fun k => k = 0 || decode ((text "&amp;").take k) =
    unit '&' :: if k = 4 then [] else ((text "&amp;").take k).drop 1) = true := by
  decide

theorem prefix_cut_iff {c : UInt16} {k : ℕ} (h0 : k ≠ 0) (hk : k < (escapeUnit c).length) (more : Text) :
    decode ((escapeUnit c).take k) <+: c :: more ↔ CutsWell c k more := by
  unfold CutsWell
  by_cases hamp : c = unit '&'
  · subst hamp
    have hcut := List.all_eq_true.mp decode_cut_ampersand k (List.mem_range.mpr hk)
    rw [Bool.or_eq_true, decide_eq_true_iff, decide_eq_true_iff] at hcut
    have hdecode := hcut.resolve_left h0
    have hescape : escapeUnit (unit '&') = text "&amp;" := rfl
    have hlength : (text "&amp;").length = 5 := rfl
    rw [hescape, hdecode, hlength, List.cons_prefix_cons]
    by_cases hlast : k = 4
    · subst hlast
      simp
    · rw [if_neg hlast]
      have hne : ¬ k + 1 = 5 := by omega
      simp [hne]
  · by_cases hc : c ∈ text "<>\"'/"
    · have hcut := List.all_eq_true.mp (List.all_eq_true.mp decode_cut_markup c hc) k (List.mem_range.mpr hk)
      rw [Bool.or_eq_true, decide_eq_true_iff] at hcut
      have hdecode := hcut.resolve_left h0
      simp only [hamp, false_and, or_false]
      split_ifs at hdecode with hlast
      · rw [of_decide_eq_true hdecode]
        exact ⟨fun _ => hlast, fun _ => List.cons_prefix_cons.mpr ⟨rfl, List.nil_prefix⟩⟩
      · obtain ⟨d, hd, hne⟩ := (Option.any_eq_true _ _).mp hdecode
        obtain ⟨tail, htail⟩ := List.head?_eq_some_iff.mp hd
        rw [htail, List.cons_prefix_cons]
        exact ⟨fun hprefix => absurd hprefix.1 (of_decide_eq_true hne), fun h => absurd h hlast⟩
    · rw [escapeUnit_of_not_mem fun hmem => (List.mem_cons.mp hmem).elim hamp hc] at hk
      exact absurd (Nat.lt_one_iff.mp hk) h0

/-- **A cut text decodes to a prefix** exactly where the cut keeps it. -/
theorem decode_take_iff (n : ℕ) (str : Text) : decode ((escapeHtml str).take n) <+: str ↔ KeepsText n str := by
  rw [escapeHtml_eq]
  induction str generalizing n with
  | nil =>
    rw [List.flatMap_nil, List.take_nil]
    cases n <;> simp [KeepsText]
  | cons c str ih =>
    cases n with
    | zero => simp [KeepsText]
    | succ n =>
      rw [List.flatMap_cons, KeepsText]
      split_ifs with hcut
      · rw [List.take_append_of_le_length (Nat.le_of_lt hcut)]
        exact prefix_cut_iff (Nat.succ_ne_zero n) hcut str
      · have hsplit : n + 1 = (escapeUnit c).length + (n + 1 - (escapeUnit c).length) := by omega
        conv_lhs => rw [hsplit]
        rw [List.take_length_add_append, decode_escapeUnit, List.cons_prefix_cons, ih]
        simp

/-! ## The fields -/

theorem isHidden_of_isControl {c : UInt16} (h : isControl c = false) : isHidden c = false := by
  have hcontrol := of_decide_eq_false h
  refine decide_eq_false fun hhidden => ?_
  simp only [List.mem_cons, List.not_mem_nil, or_false, not_or] at hhidden
  omega

theorem mem_of_stripTags {c : UInt16} (str : Text) (h : c ∈ stripTags str) : c ∈ str := by
  induction str using stripTags.induct with
  | case1 => rw [stripTags] at h; exact h
  | case2 rest ih =>
    rw [stripTags, if_pos rfl] at h
    exact List.mem_cons_of_mem _ ((List.dropWhile_suffix _).mem ((List.drop_suffix 1 _).mem (ih h)))
  | case3 d rest hd ih =>
    rw [stripTags, if_neg hd] at h
    rcases List.mem_cons.mp h with rfl | h
    · exact List.mem_cons_self
    · exact List.mem_cons_of_mem d (ih h)

theorem mem_of_trim {c : UInt16} {str : Text} (h : c ∈ trim str) : c ∈ str :=
  (List.dropWhile_suffix _).mem ((List.rdropWhile_prefix _ _).mem h)

theorem hidden_plainText (str : Text) : ∀ c ∈ plainText str, isHidden c = false := by
  intro c hc
  have hmem := List.mem_filter.mp (mem_of_stripTags _ (mem_of_trim hc))
  exact isHidden_of_isControl (by simpa using hmem.2)

/-- What `sanitizeString` gives is inert. -/
theorem inert_take (str : Text) (n : ℕ) : Inert (some n) ((escapeHtml (plainText str)).take n) := by
  refine ⟨fun c hc => ?_, fun c hc => ?_, fun k hk => ?_⟩
  · exact markup_escapeHtml _ c (List.mem_of_mem_take hc)
  · exact hidden_escapeHtml.mpr (hidden_plainText str) c (List.mem_of_mem_take hc)
  · obtain rfl := Option.some.inj hk
    exact List.length_take_le n _

/-- The icon's URL as it is tested and shown. -/
def DAppMetadataInput.icon (payload : DAppMetadataInput) : Text := trim (payload.iconUrl.string?.getD [])

theorem sanitizeUrl_eq (payload : DAppMetadataInput) :
    sanitizeUrl payload.iconUrl.string? = if isDangerous payload.icon then [] else escapeHtml payload.icon := by
  unfold DAppMetadataInput.icon
  cases hurl : payload.iconUrl.string? with
  | none => rfl
  | some url =>
    rw [sanitizeUrl, Option.getD_some]
    by_cases hnil : url = []
    · subst hnil
      rfl
    · rw [if_neg hnil]

theorem startsWithScheme_iff (name : String) {str : Text} (hne : text name ≠ [])
    (hname : ∀ c ∈ text name, 97 ≤ c.toNat ∧ c.toNat ≤ 122) :
    startsWithScheme (name ++ ":") (urlText str) = true ↔ scheme? str = some (text name) := by
  have htext : text (name ++ ":") = text name ++ [unit ':'] := by simp [text]
  rw [scheme?_eq_some_iff hne hname, startsWithScheme, List.isPrefixOf_iff_prefix, htext]

/-- The test of `sanitizeUrl` is right of the text that the URL parser reads. -/
theorem isDangerous_urlText (str : Text) :
    isDangerous (urlText str) = true ↔ ∃ s ∈ scheme? str, s ∈ dangerousSchemes := by
  have hjavascript := @startsWithScheme_iff "javascript" str (by decide) (by simp [text, unit])
  have hdata := @startsWithScheme_iff "data" str (by decide) (by simp [text, unit])
  have hvbscript := @startsWithScheme_iff "vbscript" str (by decide) (by simp [text, unit])
  unfold isDangerous dangerousSchemes
  rw [Bool.or_eq_true, Bool.or_eq_true]
  constructor
  · rintro ((h | h) | h)
    · exact ⟨_, hjavascript.mp h, by simp⟩
    · exact ⟨_, hdata.mp h, by simp⟩
    · exact ⟨_, hvbscript.mp h, by simp⟩
  · rintro ⟨s, hs, hmem⟩
    simp only [List.mem_cons, List.not_mem_nil, or_false] at hmem
    rcases hmem with rfl | rfl | rfl
    · exact .inl (.inl (hjavascript.mpr hs))
    · exact .inl (.inr (hdata.mpr hs))
    · exact .inr (hvbscript.mpr hs)

/-! ## What holds of the code -/

/-- Something is left of the name, the limits fall where the texts are kept, and an icon that is shown has no hidden
characters and no scheme that only the URL parser finds. -/
structure Plain (payload : DAppMetadataInput) : Prop where
  name : payload.name.plain ≠ [] ∧ KeepsText MAX_NAME_LENGTH payload.name.plain
  description : KeepsText MAX_DESCRIPTION_LENGTH payload.description.plain
  iconUrl : isDangerous payload.icon = true ∨
    (∀ c ∈ payload.icon, isHidden c = false) ∧ isDangerous (urlText payload.icon) = false

theorem escapeHtml_eq_nil {str : Text} : escapeHtml str = [] ↔ str = [] := by
  constructor
  · intro h
    rw [← decode_escapeHtml str, h, decode_nil]
  · rintro rfl
    rfl

theorem icon_iff (payload : DAppMetadataInput) :
    (Inert none (sanitizeUrl payload.iconUrl.string?) ∧ (sanitizeUrl payload.iconUrl.string? ≠ [] →
      ∀ s ∈ scheme? (decode (sanitizeUrl payload.iconUrl.string?)), s ∉ dangerousSchemes)) ↔
    (isDangerous payload.icon = true ∨
      (∀ c ∈ payload.icon, isHidden c = false) ∧ isDangerous (urlText payload.icon) = false) := by
  rw [sanitizeUrl_eq]
  by_cases hdangerous : isDangerous payload.icon = true
  · rw [if_pos hdangerous]
    have hinert : Inert none [] := ⟨fun c hc => (nomatch hc), fun c hc => (nomatch hc), fun n hn => (nomatch hn)⟩
    exact ⟨fun _ => .inl hdangerous, fun _ => ⟨hinert, fun hne => absurd rfl hne⟩⟩
  · rw [if_neg hdangerous, decode_escapeHtml]
    have hscheme : (escapeHtml payload.icon ≠ [] → ∀ s ∈ scheme? payload.icon, s ∉ dangerousSchemes) ↔
        isDangerous (urlText payload.icon) = false := by
      rw [← Bool.not_eq_true, isDangerous_urlText]
      constructor
      · rintro h ⟨s, hs, hmem⟩
        refine h (fun hnil => ?_) s hs hmem
        rw [escapeHtml_eq_nil.mp hnil] at hs
        cases hs
      · intro h _ s hs hmem
        exact h ⟨s, hs, hmem⟩
    rw [hscheme]
    constructor
    · rintro ⟨hinert, hurl⟩
      exact .inr ⟨hidden_escapeHtml.mp hinert.hidden, hurl⟩
    · rintro (h | ⟨hhidden, hurl⟩)
      · exact absurd h hdangerous
      · exact ⟨⟨markup_escapeHtml _, hidden_escapeHtml.mpr hhidden, fun n hn => (nomatch hn)⟩, hurl⟩

theorem sanitizeString_eq_some {v : Value} {n : ℕ} {field : Text} (h : sanitizeString v n = some field) :
    field = (escapeHtml v.plain).take n := by
  obtain ⟨str, hstr, rfl⟩ := Option.map_eq_some_iff.mp h
  unfold Value.plain
  rw [hstr, Option.getD_some]

/-- The fields, where nothing throws. -/
theorem sanitizeDAppMetadata_eq_some {payload : DAppMetadataInput} {m : SanitizedDAppMetadata}
    (h : sanitizeDAppMetadata payload = some m) :
    m = ⟨orUnknown ((escapeHtml payload.name.plain).take MAX_NAME_LENGTH),
      (escapeHtml payload.description.plain).take MAX_DESCRIPTION_LENGTH, sanitizeUrl payload.iconUrl.string?,
      (escapeHtml payload.origin.plain).take MAX_ORIGIN_LENGTH⟩ := by
  obtain ⟨name, hname, hrest⟩ := Option.bind_eq_some_iff.mp h
  obtain ⟨description, hdescription, hrest⟩ := Option.bind_eq_some_iff.mp hrest
  obtain ⟨origin, horigin, rfl⟩ := Option.map_eq_some_iff.mp hrest
  rw [sanitizeString_eq_some hname, sanitizeString_eq_some hdescription, sanitizeString_eq_some horigin]

theorem inert_name (name : Value) :
    Inert (some MAX_NAME_LENGTH) (orUnknown ((escapeHtml name.plain).take MAX_NAME_LENGTH)) := by
  unfold orUnknown
  split_ifs
  · have hall : (text "Unknown dApp").all (fun c => !isMarkup c && !isHidden c) = true := by decide
    have hmem : ∀ c ∈ text "Unknown dApp", isMarkup c = false ∧ isHidden c = false := fun c hc => by
      simpa using List.all_eq_true.mp hall c hc
    refine ⟨fun c hc => (hmem c hc).1, fun c hc => (hmem c hc).2, fun n hn => ?_⟩
    obtain rfl := Option.some.inj hn
    decide
  · exact inert_take _ _

/-- The name shown is a prefix of the name exactly where something is left of it and the cut keeps it. -/
theorem name_iff (name : Value) :
    decode (orUnknown ((escapeHtml name.plain).take MAX_NAME_LENGTH)) <+: name.plain ↔
      name.plain ≠ [] ∧ KeepsText MAX_NAME_LENGTH name.plain := by
  unfold orUnknown
  have hnil : (escapeHtml name.plain).take MAX_NAME_LENGTH = [] ↔ name.plain = [] := by
    rw [List.take_eq_nil_iff, or_iff_right (by decide), escapeHtml_eq_nil]
  by_cases hplain : name.plain = []
  · rw [if_pos (hnil.mpr hplain), hplain]
    have hfixed : decode (text "Unknown dApp") ≠ [] := by decide
    simp [hfixed]
  · rw [if_neg (mt hnil.mp hplain), decode_take_iff]
    exact (and_iff_right hplain).symm

/-- **For which payloads the metadata are inert and faithful**. -/
theorem inertAndFaithful_iff {payload : DAppMetadataInput} {m : SanitizedDAppMetadata}
    (h : sanitizeDAppMetadata payload = some m) : InertAndFaithful payload m ↔ Plain payload := by
  obtain rfl := sanitizeDAppMetadata_eq_some h
  have hname' := name_iff payload.name
  have hdescription' := decode_take_iff MAX_DESCRIPTION_LENGTH payload.description.plain
  have hicon' := icon_iff payload
  constructor
  · rintro ⟨-, -, hicon, -, hnameText, hdescriptionText, hscheme⟩
    dsimp only at hicon hnameText hdescriptionText hscheme
    refine ⟨?_, ?_, ?_⟩
    · exact hname'.mp hnameText
    · exact hdescription'.mp hdescriptionText
    · exact hicon'.mp ⟨hicon, hscheme⟩
  · intro hplain
    obtain ⟨hicon, hscheme⟩ := hicon'.mpr hplain.iconUrl
    have hinert := inert_name payload.name
    have hinert' := inert_take (payload.description.toText.getD []) MAX_DESCRIPTION_LENGTH
    have hinert'' := inert_take (payload.origin.toText.getD []) MAX_ORIGIN_LENGTH
    refine ⟨?_, ?_, ?_, ?_, ?_, ?_, ?_⟩ <;> dsimp only
    · exact hinert
    · exact hinert'
    · exact hicon
    · exact hinert''
    · exact hname'.mpr hplain.name
    · exact hdescription'.mpr hplain.description
    · exact hscheme

/-! ## Examples -/

theorem stripTags_eq_self {str : Text} (h : unit '<' ∉ str) : stripTags str = str := by
  induction str with
  | nil => rw [stripTags]
  | cons c str ih =>
    rw [List.mem_cons, not_or] at h
    rw [stripTags, if_neg (Ne.symm h.1), ih h.2]

/-- A text with nothing to take out. -/
theorem plainText_eq_self {str : Text} (htag : unit '<' ∉ str) (hcontrol : str.filter (fun c => !isControl c) = str)
    (htrim : trim str = str) : plainText str = str := by
  unfold plainText
  rw [hcontrol, stripTags_eq_self htag, htrim]

def payloadOf (name description iconUrl : Text) : DAppMetadataInput :=
  ⟨.string name, .string description, .string iconUrl, .string (text "https://dapp.example")⟩

/-- A payload as a dApp sends it. -/
def swap : DAppMetadataInput := payloadOf (text "Swap") (text "Swap & earn") (text "https://dapp.example/icon.png")

theorem inert_swap : ∃ m, sanitizeDAppMetadata swap = some m ∧ InertAndFaithful swap m := by
  have hname : swap.name.plain = text "Swap" :=
    plainText_eq_self (by decide) (by decide) (by decide)
  have hdescription : swap.description.plain = text "Swap & earn" :=
    plainText_eq_self (by decide) (by decide) (by decide)
  refine ⟨_, rfl, (inertAndFaithful_iff rfl).mpr ⟨?_, ?_, .inr ⟨fun c hc => ?_, by decide⟩⟩⟩
  · rw [hname]
    decide
  · rw [hdescription]
    decide
  · have hall : swap.icon.all (fun c => !isHidden c) = true := by decide
    simpa using List.all_eq_true.mp hall c hc

/-- Ninety-six letters and an apostrophe, whose reference is cut to that of a control character. -/
def longName : Text := List.replicate 96 (unit 'a') ++ text "'s"

theorem cut_name : ¬ ∀ payload m, sanitizeDAppMetadata payload = some m → InertAndFaithful payload m := by
  intro h
  obtain ⟨m, hm⟩ : ∃ m, sanitizeDAppMetadata (payloadOf longName [] []) = some m := ⟨_, rfl⟩
  have hkept := (h _ m hm).nameText
  have hname : (payloadOf longName [] []).name.plain = longName :=
    plainText_eq_self (by decide) (by decide) (by decide)
  rw [sanitizeDAppMetadata_eq_some hm, name_iff, hname] at hkept
  exact absurd hkept.2 (by decide +kernel)

/-- A tab inside the scheme, which the URL parser drops. -/
theorem hidden_scheme : ∃ url, sanitizeUrl (some url) ≠ [] ∧
    scheme? (decode (sanitizeUrl (some url))) = some (text "javascript") :=
  ⟨text "java\tscript:alert(1)", by decide, by decide⟩

end Vellar.Extension.Sanitization
