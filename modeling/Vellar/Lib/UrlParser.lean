import Mathlib

/-!
# Vellar.Lib.UrlParser — the URL parser

The basic parser of a URL without a base, up to its path: white space around and line breaks inside go, then the scheme, the
credentials, the host and the port, and the segments of the path with `.` and `..` resolved.  What reads a host is a
`HostParser`: a structure with what the parser of domains and addresses guarantees.  Letter case changes no more than
letter case (`parse_lower`).
-/

set_option autoImplicit false

namespace Vellar.UrlParser

abbrev Chars := List Char

/-! ## Characters -/

def lower (cs : Chars) : Chars := cs.map Char.toLower

/-- C0 controls and space. -/
def isBlank (c : Char) : Bool := decide (c.toNat ≤ 0x20)

/-- Tab, line feed and carriage return. -/
def isBreak (c : Char) : Bool := c == '\t' || c == '\n' || c == '\r'

def hexDigit (n : ℕ) : Char := if n < 10 then Char.ofNat (48 + n) else Char.ofNat (55 + n)

def escape (b : UInt8) : Chars := ['%', hexDigit (b.toNat / 16), hexDigit (b.toNat % 16)]

def encodeChar (set : Char → Bool) (c : Char) : Chars :=
  if set c then (String.utf8EncodeChar c).flatMap escape else [c]

/-- Percent-encoding of the characters of a set. -/
def encode (set : Char → Bool) (cs : Chars) : Chars := cs.flatMap (encodeChar set)

def inControlSet (c : Char) : Bool := decide (c.toNat < 0x20) || decide (0x7e < c.toNat)

def inPathSet (c : Char) : Bool := inControlSet c || c ∈ [' ', '"', '#', '<', '>', '?', '^', '`', '{', '}']

def inUserinfoSet (c : Char) : Bool := inPathSet c || c ∈ ['/', ':', ';', '=', '@', '[', '\\', ']', '|']

/-- The text without what is around it. -/
def clean (cs : Chars) : Chars := ((cs.dropWhile isBlank).rdropWhile isBlank).filter (!isBreak ·)

/-! ## Schemes -/

def isSchemeChar (c : Char) : Bool := c.isAlphanum || c == '+' || c == '-' || c == '.'

/-- The scheme in lower case, and what follows its colon. -/
def scheme? : Chars → Option (Chars × Chars)
  | [] => none
  | c :: cs =>
    if c.isAlpha then
      match cs.dropWhile isSchemeChar with
      | ':' :: rest => some (lower (c :: cs.takeWhile isSchemeChar), rest)
      | _ => none
    else none

inductive Kind where
  | web
  | file
  | other
deriving DecidableEq

/-- The special schemes are those of the web and `file`. -/
def kindOf (scheme : Chars) : Kind :=
  if scheme = ['f', 'i', 'l', 'e'] then .file
  else if scheme = ['f', 't', 'p'] ∨ scheme = ['h', 't', 't', 'p'] ∨ scheme = ['h', 't', 't', 'p', 's'] ∨
      scheme = ['w', 's'] ∨ scheme = ['w', 's', 's'] then .web
  else .other

def isSlash (k : Kind) (c : Char) : Bool := c == '/' || (c == '\\' && k != .other)

/-- What follows the slashes before the host, where there are such. -/
def body? : Kind → Chars → Option Chars
  | .web, rest => some (rest.dropWhile (isSlash .web))
  | .file, c :: d :: rest => if isSlash .file c && isSlash .file d then some rest else none
  | .other, c :: d :: rest => if isSlash .other c && isSlash .other d then some rest else none
  | _, _ => none

/-! ## Hosts -/

/-- What a serialized host looks like: printable, without what ends a host, and with a colon in brackets only. -/
structure HostText (h : Chars) : Prop where
  chars : ∀ c ∈ h, 0x20 < c.toNat ∧ c.toNat < 0x7f ∧ c ≠ '/' ∧ c ≠ '\\' ∧ c ≠ '?' ∧ c ≠ '#' ∧ c ≠ '@'
  colon : ':' ∉ h ∨ ∃ address, h = '[' :: address ++ [']'] ∧ ']' ∉ address

/-- The parser of domains and addresses, with the serializer behind it: for special schemes, and for the others. -/
structure HostParser where
  web : Chars → Option Chars
  other : Chars → Option Chars
  web_lower : ∀ cs, web (lower cs) = web cs
  other_lower : ∀ cs, (other (lower cs)).map lower = (other cs).map lower
  web_text : ∀ cs h, web cs = some h → HostText h ∧ h ≠ [] ∧ lower h = h
  other_text : ∀ cs h, other cs = some h → HostText h
  /-- A serialized host is parsed to itself. -/
  web_self : ∀ cs h, web cs = some h → web h = some h

/-- The host, and what follows the first colon outside of brackets. -/
def splitPort : Bool → Chars → Chars × Option Chars
  | _, [] => ([], none)
  | inside, c :: cs =>
    if c = ':' ∧ inside = false then ([], some cs)
    else (splitPort (if c = '[' then true else if c = ']' then false else inside) cs).map (c :: ·) id

def validPort (port : Chars) : Bool := port.all Char.isDigit && decide (Nat.ofDigitChars 10 port 0 ≤ 65535)

/-- A Windows drive letter. -/
def isDrive : Chars → Bool
  | [c, d] => c.isAlpha && (d == ':' || d == '|')
  | _ => false

structure Authority where
  username : Chars
  password : Chars
  host : Chars
deriving DecidableEq

/-- A host by its kind; an empty one stays empty. -/
def hostOf (hosts : HostParser) (k : Kind) (host : Chars) : Option Chars :=
  if host = [] then some []
  else
    match k with
    | .other => hosts.other host
    | .web | .file => hosts.web host

/-- A `file` URL has a host alone. -/
def fileAuthority (hosts : HostParser) (text : Chars) : Option Authority :=
  if isDrive text then some ⟨[], [], []⟩
  else
    (hostOf hosts .file text).map fun h =>
      ⟨[], [], if h = ['l', 'o', 'c', 'a', 'l', 'h', 'o', 's', 't'] then [] else h⟩

/-- Credentials up to the last `@`, the host, and the port. -/
def authority (hosts : HostParser) (k : Kind) (text : Chars) : Option Authority :=
  let credentials := (text.rdropWhile (· != '@')).dropLast
  let rest := text.rtakeWhile (· != '@')
  let split := splitPort false rest
  if (rest = [] ∧ '@' ∈ text) ∨ (split.1 = [] ∧ (split.2.isSome ∨ k = .web)) ∨ split.2.all validPort = false then none
  else
    (hostOf hosts k split.1).map fun h =>
      ⟨encode inUserinfoSet (credentials.takeWhile (· != ':')),
        encode inUserinfoSet ((credentials.dropWhile (· != ':')).drop 1), h⟩

/-! ## Paths -/

def isSingleDot (seg : Chars) : Bool := decide (lower seg = ['.'] ∨ lower seg = ['%', '2', 'e'])

def isDoubleDot (seg : Chars) : Bool :=
  decide (lower seg = ['.', '.'] ∨ lower seg = ['.', '%', '2', 'e'] ∨ lower seg = ['%', '2', 'e', '.'] ∨
    lower seg = ['%', '2', 'e', '%', '2', 'e'])

def isNormalDrive (seg : Chars) : Bool := isDrive seg && seg.getLast? == some ':'

/-- A drive letter stays. -/
def shorten (k : Kind) (path : List Chars) : List Chars :=
  if k = .file ∧ path.length = 1 ∧ path.any isNormalDrive then path else path.dropLast

/-- A segment, with the colon of a drive letter. -/
def segment (k : Kind) (path : List Chars) (seg : Chars) : Chars :=
  if k = .file ∧ path = [] ∧ isDrive (encode inPathSet seg) then (encode inPathSet seg).take 1 ++ [':']
  else encode inPathSet seg

/-- A segment with a slash behind it. -/
def midStep (k : Kind) (path : List Chars) (seg : Chars) : List Chars :=
  if isDoubleDot seg then shorten k path
  else if isSingleDot seg then path
  else path ++ [segment k path seg]

/-- The last segment. -/
def lastStep (k : Kind) (path : List Chars) (seg : Chars) : List Chars :=
  if isDoubleDot seg then shorten k path ++ [[]]
  else if isSingleDot seg then path ++ [[]]
  else path ++ [segment k path seg]

def resolvePath (k : Kind) (segs : List Chars) : List Chars :=
  lastStep k (segs.dropLast.foldl (midStep k) []) (segs.getLast?.getD [])

/-- Up to the query and the fragment. -/
def pathText (tail : Chars) : Chars := tail.takeWhile fun c => c != '?' && c != '#'

/-- The path that follows an authority. -/
def pathSegments (k : Kind) (tail : Chars) : List Chars :=
  if k = .other ∧ pathText tail = [] then [] else resolvePath k (((pathText tail).drop 1).splitOnP (isSlash k))

/-- A text, or the segments. -/
inductive Path where
  | text (cs : Chars)
  | segments (path : List Chars)
deriving DecidableEq

/-! ## The parser -/

structure Record where
  scheme : Chars
  username : Chars
  password : Chars
  hostname : Chars
  path : Path
deriving DecidableEq

def Record.pathname (r : Record) : Chars :=
  match r.path with
  | .text cs => cs
  | .segments path => path.flatMap ('/' :: ·)

def endsHost (k : Kind) (c : Char) : Bool := isSlash k c || c == '?' || c == '#'

/-- After the slashes: the authority and the path.  A drive letter begins the path. -/
def parseBody (hosts : HostParser) (k : Kind) (scheme body : Chars) : Option Record :=
  let text := body.takeWhile (!endsHost k ·)
  let tail := body.dropWhile (!endsHost k ·)
  if k = .file then
    (fileAuthority hosts text).map fun a =>
      ⟨scheme, [], [], a.host, .segments (pathSegments k (if isDrive text then '/' :: body else tail))⟩
  else
    (authority hosts k text).map fun a =>
      ⟨scheme, a.username, a.password, a.host, .segments (pathSegments k tail)⟩

/-- Without a host. -/
def hostlessPath : Kind → Chars → Path
  | .other, '/' :: rest => .segments (pathSegments .other ('/' :: rest))
  | .other, rest => .text (encode inControlSet (pathText rest))
  | k, c :: rest => .segments (pathSegments k ('/' :: if isSlash k c then rest else c :: rest))
  | k, [] => .segments (pathSegments k ['/'])

/-- `new URL(text)` -/
def parse (hosts : HostParser) (text : Chars) : Option Record :=
  match scheme? (clean text) with
  | none => none
  | some (scheme, rest) =>
    match body? (kindOf scheme) rest with
    | some body => parseBody hosts (kindOf scheme) scheme body
    | none => some ⟨scheme, [], [], [], hostlessPath (kindOf scheme) rest⟩

/-! ## Letter case -/

section Case

/-- The same for a letter and its lower case. -/
def Blind (p : Char → Bool) : Prop := ∀ c, p c.toLower = p c

theorem blind_of {p : Char → Bool} (b : Bool) (h : ∀ c, c.isAlpha = true → p c = b) : Blind p := by
  intro c
  by_cases hc : c.isUpper = true
  · have halpha : c.isAlpha = true := by rw [Char.isAlpha, hc, Bool.true_or]
    rw [h c halpha, h _ (by rwa [Char.isAlpha_toLower_eq_isAlpha])]
  · rw [Char.toLower_eq_of_not_isUpper hc]

theorem isAlpha_iff {c : Char} :
    c.isAlpha = true ↔ (65 ≤ c.toNat ∧ c.toNat ≤ 90) ∨ (97 ≤ c.toNat ∧ c.toNat ≤ 122) := by
  simp only [Char.isAlpha, Char.isUpper, Char.isLower, Bool.or_eq_true, Bool.and_eq_true, decide_eq_true_eq, ge_iff_le,
    UInt32.le_iff_toNat_le]
  exact Iff.rfl

theorem ne_of_isAlpha {c d : Char} (hd : d.isAlpha = false) (hc : c.isAlpha = true) : c ≠ d := by
  rintro rfl
  rw [hd] at hc
  cases hc

theorem blind_beq {d : Char} (hd : d.isAlpha = false) : Blind (· == d) :=
  blind_of false fun _ hc => beq_eq_false_iff_ne.mpr (ne_of_isAlpha hd hc)

theorem Blind.not {p : Char → Bool} (hp : Blind p) : Blind (!p ·) := fun c => congrArg Bool.not (hp c)

theorem Blind.or {p q : Char → Bool} (hp : Blind p) (hq : Blind q) : Blind fun c => p c || q c :=
  fun c => congrArg₂ Bool.or (hp c) (hq c)

theorem Blind.comp {p : Char → Bool} (hp : Blind p) : p ∘ Char.toLower = p := funext hp

theorem blind_isBlank : Blind isBlank := by
  refine blind_of false fun c hc => ?_
  have := isAlpha_iff.mp hc
  simp only [isBlank, decide_eq_false_iff_not]
  omega

theorem blind_isBreak : Blind isBreak := ((blind_beq rfl).or (blind_beq rfl)).or (blind_beq rfl)

theorem blind_isSchemeChar : Blind isSchemeChar := by
  refine blind_of true fun c hc => ?_
  simp [isSchemeChar, Char.isAlphanum, hc]

theorem blind_isSlash (k : Kind) : Blind (isSlash k) := by
  intro c
  have hslash : (c.toLower == '/') = (c == '/') := blind_beq rfl c
  have hback : (c.toLower == '\\') = (c == '\\') := blind_beq rfl c
  rw [isSlash, isSlash, hslash, hback]

theorem blind_endsHost (k : Kind) : Blind (endsHost k) :=
  ((blind_isSlash k).or (blind_beq rfl)).or (blind_beq rfl)

theorem lower_lower (cs : Chars) : lower (lower cs) = lower cs := by
  simp [lower]

theorem lower_append (cs ds : Chars) : lower (cs ++ ds) = lower cs ++ lower ds := List.map_append

theorem lower_cons (c : Char) (cs : Chars) : lower (c :: cs) = c.toLower :: lower cs := rfl

theorem lower_eq_nil {cs : Chars} : lower cs = [] ↔ cs = [] := List.map_eq_nil_iff

section Lists

variable {p : Char → Bool} (hp : Blind p) (cs : Chars)

include hp

theorem takeWhile_lower : (lower cs).takeWhile p = lower (cs.takeWhile p) := by
  rw [lower, List.takeWhile_map, hp.comp, lower]

theorem dropWhile_lower : (lower cs).dropWhile p = lower (cs.dropWhile p) := by
  rw [lower, List.dropWhile_map, hp.comp, lower]

theorem rdropWhile_lower : (lower cs).rdropWhile p = lower (cs.rdropWhile p) := by
  rw [List.rdropWhile, List.rdropWhile, lower, ← List.map_reverse, List.dropWhile_map, hp.comp, lower, List.map_reverse]

theorem rtakeWhile_lower : (lower cs).rtakeWhile p = lower (cs.rtakeWhile p) := by
  rw [List.rtakeWhile, List.rtakeWhile, lower, ← List.map_reverse, List.takeWhile_map, hp.comp, lower, List.map_reverse]

theorem filter_lower : (lower cs).filter p = lower (cs.filter p) := by
  rw [lower, List.filter_map, hp.comp, lower]

theorem splitOnP_lower : (lower cs).splitOnP p = (cs.splitOnP p).map lower := by
  induction cs with
  | nil => simp [lower]
  | cons c cs ih =>
    rw [lower_cons, List.splitOnP_cons_eq_if_modifyHead, List.splitOnP_cons_eq_if_modifyHead, hp c, ih]
    split_ifs
    · simp [lower]
    · cases cs.splitOnP p <;> simp [lower]

end Lists

theorem clean_lower (cs : Chars) : clean (lower cs) = lower (clean cs) := by
  rw [clean, dropWhile_lower blind_isBlank, rdropWhile_lower blind_isBlank, filter_lower blind_isBreak.not, clean]

theorem scheme?_lower (cs : Chars) : scheme? (lower cs) = (scheme? cs).map fun s => (s.1, lower s.2) := by
  cases cs with
  | nil => rfl
  | cons c cs =>
    rw [lower_cons, scheme?, scheme?, Char.isAlpha_toLower_eq_isAlpha, dropWhile_lower blind_isSchemeChar,
      takeWhile_lower blind_isSchemeChar]
    split_ifs with halpha
    · cases hrest : cs.dropWhile isSchemeChar with
      | nil => rfl
      | cons d rest =>
        by_cases hcolon : d = ':'
        · subst hcolon
          simp [lower]
        · have hlower : d.toLower ≠ ':' := by
            have := blind_beq (d := ':') rfl d
            simpa [hcolon] using this
          rw [lower_cons]
          split
          · next heq => exact absurd (List.cons_eq_cons.mp heq).1 hlower
          · split
            · next heq => exact absurd (List.cons_eq_cons.mp heq).1 hcolon
            · rfl
    · rfl

theorem body?_lower (k : Kind) (rest : Chars) : body? k (lower rest) = (body? k rest).map lower := by
  cases k with
  | web => simp [body?, dropWhile_lower (blind_isSlash .web)]
  | file | other =>
    rcases rest with _ | ⟨c, _ | ⟨d, rest⟩⟩
    · rfl
    · rfl
    · simp only [lower_cons, body?, blind_isSlash _ c, blind_isSlash _ d]
      split_ifs <;> rfl

theorem toLower_eq_iff {c d : Char} (hd : d.isAlpha = false) : c.toLower = d ↔ c = d := by
  have hblind : (c.toLower == d) = (c == d) := blind_beq hd c
  rw [← beq_iff_eq, hblind, beq_iff_eq]

theorem splitPort_lower (inside : Bool) (cs : Chars) :
    splitPort inside (lower cs) = (splitPort inside cs).map lower (Option.map lower) := by
  induction cs generalizing inside with
  | nil => rfl
  | cons c cs ih =>
    rw [lower_cons, splitPort, splitPort]
    simp only [toLower_eq_iff (d := ':') rfl, toLower_eq_iff (d := '[') rfl, toLower_eq_iff (d := ']') rfl]
    split_ifs with hcolon
    · rfl
    all_goals
      rw [ih]
      rfl

theorem validPort_lower (port : Chars) : validPort (lower port) = validPort port := by
  have hblind : Blind Char.isDigit := by
    refine blind_of false fun c hc => ?_
    have := isAlpha_iff.mp hc
    simp only [Char.isDigit, Bool.and_eq_false_iff, decide_eq_false_iff_not, ge_iff_le, UInt32.le_iff_toNat_le]
    right
    change ¬ c.toNat ≤ 57
    omega
  have hall : (lower port).all Char.isDigit = port.all Char.isDigit := by
    rw [lower, List.all_map, hblind.comp]
  by_cases hdigits : port.all Char.isDigit = true
  · have hsame : lower port = port := by
      refine (List.map_congr_left fun c hc => ?_).trans (List.map_id port)
      have hdigit := List.all_eq_true.mp hdigits c hc
      refine Char.toLower_eq_of_not_isUpper fun hupper => ?_
      have halpha : c.isAlpha = true := by rw [Char.isAlpha, hupper, Bool.true_or]
      have hletter := isAlpha_iff.mp halpha
      simp only [Char.isDigit, Bool.and_eq_true, decide_eq_true_eq, ge_iff_le, UInt32.le_iff_toNat_le] at hdigit
      have hle : c.toNat ≤ 57 := hdigit.2
      omega
    rw [hsame]
  · rw [validPort, validPort, hall]
    simp [hdigits]

theorem hostOf_lower (hosts : HostParser) (k : Kind) (host : Chars) :
    (hostOf hosts k (lower host)).map lower = (hostOf hosts k host).map lower := by
  unfold hostOf
  simp only [lower_eq_nil]
  split_ifs
  · rfl
  · cases k with
    | other => exact hosts.other_lower host
    | web | file => exact congrArg (Option.map lower) (hosts.web_lower host)

theorem isDrive_lower (text : Chars) : isDrive (lower text) = isDrive text := by
  rcases text with _ | ⟨c, _ | ⟨d, _ | ⟨e, rest⟩⟩⟩
  · rfl
  · rfl
  · have hcolon : (d.toLower == ':') = (d == ':') := blind_beq rfl d
    have hbar : (d.toLower == '|') = (d == '|') := blind_beq rfl d
    change (c.toLower.isAlpha && (d.toLower == ':' || d.toLower == '|')) = (c.isAlpha && (d == ':' || d == '|'))
    rw [Char.isAlpha_toLower_eq_isAlpha, hcolon, hbar]
  · rfl

theorem fileAuthority_lower (hosts : HostParser) (text : Chars) :
    fileAuthority hosts (lower text) = fileAuthority hosts text := by
  have hhost : hostOf hosts .file (lower text) = hostOf hosts .file text := by
    unfold hostOf
    simp only [lower_eq_nil]
    split_ifs
    · rfl
    · exact hosts.web_lower text
  rw [fileAuthority, fileAuthority, isDrive_lower, hhost]

theorem authority_lower (hosts : HostParser) (k : Kind) (text : Chars) :
    (authority hosts k (lower text)).map (lower ·.host) = (authority hosts k text).map (lower ·.host) := by
  have hat : Blind (· != '@') := (blind_beq (d := '@') rfl).not
  have hmem : '@' ∈ lower text ↔ '@' ∈ text := by
    simp only [lower, List.mem_map, toLower_eq_iff (d := '@') rfl, exists_eq_right]
  have hport : ∀ port : Option Chars, (port.map lower).all validPort = port.all validPort := by
    intro port
    cases port with
    | none => rfl
    | some port => exact validPort_lower port
  unfold authority
  simp only [rtakeWhile_lower hat, splitPort_lower, lower_eq_nil, hmem, Prod.map_fst, Prod.map_snd, Option.isSome_map, hport]
  split_ifs
  · rfl
  · have hhost := hostOf_lower hosts k (splitPort false (text.rtakeWhile (· != '@'))).1
    simp only [Option.map_map, Function.comp_def] at hhost ⊢
    exact hhost

theorem encode_lower {set : Char → Bool} (hset : ∀ c, c.isAlpha = true → set c = false) (cs : Chars) :
    lower (encode set (lower cs)) = lower (encode set cs) := by
  induction cs with
  | nil => rfl
  | cons c cs ih =>
    have hhead : lower (encodeChar set c.toLower) = lower (encodeChar set c) := by
      by_cases hc : c.isAlpha = true
      · have hlow : c.toLower.isAlpha = true := by rwa [Char.isAlpha_toLower_eq_isAlpha]
        rw [encodeChar, encodeChar, hset c hc, hset _ hlow]
        simp [lower]
      · have hupper : ¬ c.isUpper = true := fun hu => hc (by rw [Char.isAlpha, hu, Bool.true_or])
        rw [Char.toLower_eq_of_not_isUpper hupper]
    rw [lower_cons, encode, encode, List.flatMap_cons, List.flatMap_cons, lower_append, lower_append, hhead]
    exact congrArg _ ih

theorem inControlSet_letter {c : Char} (hc : c.isAlpha = true) : inControlSet c = false := by
  have := isAlpha_iff.mp hc
  simp only [inControlSet, Bool.or_eq_false_iff, decide_eq_false_iff_not]
  omega

theorem inPathSet_letter {c : Char} (hc : c.isAlpha = true) : inPathSet c = false := by
  have hne : c ∉ [' ', '"', '#', '<', '>', '?', '^', '`', '{', '}'] := fun hmem => by
    have hall : [' ', '"', '#', '<', '>', '?', '^', '`', '{', '}'].all (!·.isAlpha) = true := rfl
    have := List.all_eq_true.mp hall c hmem
    rw [hc] at this
    cases this
  rw [inPathSet, inControlSet_letter hc, Bool.false_or]
  exact decide_eq_false hne

theorem isSingleDot_lower (seg : Chars) : isSingleDot (lower seg) = isSingleDot seg := by
  rw [isSingleDot, isSingleDot, lower_lower]

theorem isDoubleDot_lower (seg : Chars) : isDoubleDot (lower seg) = isDoubleDot seg := by
  rw [isDoubleDot, isDoubleDot, lower_lower]

theorem isNormalDrive_lower (seg : Chars) : isNormalDrive (lower seg) = isNormalDrive seg := by
  rw [isNormalDrive, isNormalDrive, isDrive_lower, lower, List.getLast?_map]
  cases seg.getLast? with
  | none => rfl
  | some c => exact congrArg _ (decide_eq_decide.mpr (by simp [toLower_eq_iff (d := ':') rfl]))

theorem shorten_lower (k : Kind) (path : List Chars) : (shorten k path).map lower = shorten k (path.map lower) := by
  have hany : (path.map lower).any isNormalDrive = path.any isNormalDrive := by
    rw [List.any_map]
    exact congrArg path.any (funext isNormalDrive_lower)
  simp only [shorten, hany, List.length_map]
  split_ifs
  · rfl
  · rw [List.map_dropLast]

section Paths

variable {k : Kind} {p q : List Chars} (hpq : p.map lower = q.map lower) (seg : Chars)

include hpq

theorem segment_lower : lower (segment k p (lower seg)) = lower (segment k q seg) := by
  have hnil : p = [] ↔ q = [] := by rw [← List.map_eq_nil_iff (f := lower), hpq, List.map_eq_nil_iff]
  have hsame := encode_lower (fun _ => inPathSet_letter) seg
  have hdrive : isDrive (encode inPathSet (lower seg)) = isDrive (encode inPathSet seg) := by
    rw [← isDrive_lower, hsame, isDrive_lower]
  simp only [segment, hnil, hdrive]
  split_ifs
  · rw [lower_append, lower_append]
    refine congrArg (· ++ lower [':']) ?_
    calc lower ((encode inPathSet (lower seg)).take 1) = (lower (encode inPathSet (lower seg))).take 1 := List.map_take
      _ = (lower (encode inPathSet seg)).take 1 := congrArg _ hsame
      _ = lower ((encode inPathSet seg).take 1) := List.map_take.symm
  · exact hsame

theorem midStep_lower : (midStep k p (lower seg)).map lower = (midStep k q seg).map lower := by
  simp only [midStep, isDoubleDot_lower, isSingleDot_lower]
  split_ifs
  · rw [shorten_lower, shorten_lower, hpq]
  · exact hpq
  · rw [List.map_append, List.map_append, hpq, List.map_singleton, List.map_singleton, segment_lower hpq]

theorem lastStep_lower : (lastStep k p (lower seg)).map lower = (lastStep k q seg).map lower := by
  simp only [lastStep, isDoubleDot_lower, isSingleDot_lower]
  split_ifs
  · rw [List.map_append, List.map_append, shorten_lower, shorten_lower, hpq]
  · rw [List.map_append, List.map_append, hpq]
  · rw [List.map_append, List.map_append, hpq, List.map_singleton, List.map_singleton, segment_lower hpq]

theorem foldl_midStep_lower (segs : List Chars) :
    ((segs.map lower).foldl (midStep k) p).map lower = (segs.foldl (midStep k) q).map lower := by
  induction segs generalizing p q with
  | nil => exact hpq
  | cons seg segs ih => exact ih (midStep_lower hpq seg)

end Paths

theorem resolvePath_lower (k : Kind) (segs : List Chars) :
    (resolvePath k (segs.map lower)).map lower = (resolvePath k segs).map lower := by
  have hlast : (segs.map lower).getLast?.getD [] = lower (segs.getLast?.getD []) := by
    rw [List.getLast?_map]
    cases segs.getLast? with
    | none => rfl
    | some seg => rfl
  rw [resolvePath, resolvePath, hlast, ← List.map_dropLast]
  exact lastStep_lower (foldl_midStep_lower rfl _) _

theorem pathText_lower (tail : Chars) : pathText (lower tail) = lower (pathText tail) :=
  takeWhile_lower (p := fun c => c != '?' && c != '#')
    (fun c => congrArg₂ Bool.and ((blind_beq rfl).not c) ((blind_beq rfl).not c)) tail

theorem pathSegments_lower (k : Kind) (tail : Chars) :
    (pathSegments k (lower tail)).map lower = (pathSegments k tail).map lower := by
  simp only [pathSegments, pathText_lower, lower_eq_nil]
  split_ifs
  · rfl
  · rw [lower, ← List.map_drop]
    change ((resolvePath k ((lower ((pathText tail).drop 1)).splitOnP (isSlash k))).map lower) = _
    rw [splitOnP_lower (blind_isSlash k), resolvePath_lower]

def Path.lowered : Path → Path
  | .text cs => .text (lower cs)
  | .segments path => .segments (path.map lower)

/-- The scheme, the host and the path in lower case. -/
def Record.place (r : Record) : Chars × Chars × Path := (r.scheme, lower r.hostname, r.path.lowered)

theorem parseBody_lower (hosts : HostParser) (k : Kind) (scheme body : Chars) :
    (parseBody hosts k scheme (lower body)).map Record.place = (parseBody hosts k scheme body).map Record.place := by
  unfold parseBody
  have htext := takeWhile_lower (blind_endsHost k).not body
  have htail := dropWhile_lower (blind_endsHost k).not body
  simp only [htext, htail, isDrive_lower]
  split_ifs
  · rw [fileAuthority_lower, Option.map_map, Option.map_map]
    refine Option.map_congr fun a _ => ?_
    have hpath := pathSegments_lower k ('/' :: body)
    simp only [Function.comp_apply, Record.place, Path.lowered]
    rw [← hpath]
    rfl
  · rw [fileAuthority_lower, Option.map_map, Option.map_map]
    refine Option.map_congr fun a _ => ?_
    simp only [Function.comp_apply, Record.place, Path.lowered, pathSegments_lower]
  · have hhost := authority_lower hosts k (body.takeWhile (!endsHost k ·))
    have hplace : ∀ a : Authority, ∀ tail : Chars, Record.place
        ⟨scheme, a.username, a.password, a.host, .segments (pathSegments k tail)⟩ =
          (fun h => (scheme, h, Path.segments ((pathSegments k tail).map lower))) (lower a.host) :=
      fun _ _ => rfl
    simp only [Option.map_map, Function.comp_def, hplace, pathSegments_lower]
    have := congrArg (Option.map fun h =>
      (scheme, h, Path.segments ((pathSegments k (body.dropWhile (!endsHost k ·))).map lower))) hhost
    simpa only [Option.map_map, Function.comp_def] using this

theorem hostlessPath_lower (k : Kind) (rest : Chars) :
    (hostlessPath k (lower rest)).lowered = (hostlessPath k rest).lowered := by
  have hpath : ∀ tail, Path.lowered (.segments (pathSegments k (lower tail))) =
      .segments ((pathSegments k tail).map lower) := fun tail =>
    congrArg Path.segments (pathSegments_lower k tail)
  cases rest with
  | nil => rfl
  | cons c rest =>
    cases k with
    | other =>
      by_cases hc : c = '/'
      · subst hc
        exact hpath ('/' :: rest)
      · have hlow : c.toLower ≠ '/' := fun h => hc ((toLower_eq_iff rfl).mp h)
        rw [lower_cons, hostlessPath, hostlessPath, ← lower_cons, pathText_lower]
        · exact congrArg Path.text (encode_lower (fun _ => inControlSet_letter) _)
        · exact fun _ h => hc (List.cons_eq_cons.mp h).1
        · exact fun _ h => hlow (List.cons_eq_cons.mp h).1
    | web | file =>
      simp only [lower_cons, hostlessPath, blind_isSlash _ c]
      split_ifs
      · exact hpath ('/' :: rest)
      · exact hpath ('/' :: c :: rest)

/-- **The parser is blind to letter case** up to the letter case of what it returns. -/
theorem parse_lower (hosts : HostParser) (text : Chars) :
    (parse hosts (lower text)).map Record.place = (parse hosts text).map Record.place := by
  unfold parse
  rw [clean_lower, scheme?_lower]
  cases scheme? (clean text) with
  | none => rfl
  | some s =>
    simp only [Option.map_some, body?_lower]
    cases body? (kindOf s.1) s.2 with
    | none => exact congrArg (fun path => some (s.1, [], path)) (hostlessPath_lower _ _)
    | some body => exact parseBody_lower hosts _ _ body

end Case

end Vellar.UrlParser
