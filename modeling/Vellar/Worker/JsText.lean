import Mathlib

/-!
# Vellar.Worker.JsText — what the services use of the JavaScript runtime

Text operations as JavaScript defines them, and `Platform` for the two that rest on tables outside the
repository: `toLowerCase` beyond ASCII and the URL parser.
-/

set_option autoImplicit false

namespace Vellar.Worker

/-! ## Strings -/

/-- The characters `trim` removes: white space and line terminators. -/
def isJsSpace (c : Char) : Bool :=
  c.toNat ∈ [9, 10, 11, 12, 13, 32, 160, 0x1680, 0x2028, 0x2029, 0x202f, 0x205f, 0x3000, 0xfeff] ||
    (decide (0x2000 ≤ c.toNat) && decide (c.toNat ≤ 0x200a))

def trimChars (cs : List Char) : List Char := ((cs.dropWhile isJsSpace).reverse.dropWhile isJsSpace).reverse

/-- `s.trim()`. -/
def trim (s : String) : String := String.ofList (trimChars s.toList)

/-- `s.includes(part)`. -/
def includes (s part : String) : Bool := decide (part.toList <:+: s.toList)

/-- `s.split(c)` for one character. -/
def split (s : String) (c : Char) : List String := (s.toList.splitOn c).map String.ofList

def lowerChar (c : Char) : Char := if 'A' ≤ c ∧ c ≤ 'Z' then Char.ofNat (c.toNat + 32) else c

/-- Lower case for ASCII letters, nothing else touched. -/
def asciiLower (s : String) : String := String.ofList (s.toList.map lowerChar)

/-- The string a JavaScript condition takes for true: present and not empty. -/
def truthy (s : Option String) : Option String := s.filter fun t => t ≠ ""

/-- `JSON.stringify` of one character of a string. -/
def jsonChar (c : Char) : List Char :=
  if c = '"' then ['\\', '"']
  else if c = '\\' then ['\\', '\\']
  else if c.toNat = 8 then ['\\', 'b']
  else if c.toNat = 9 then ['\\', 't']
  else if c.toNat = 10 then ['\\', 'n']
  else if c.toNat = 12 then ['\\', 'f']
  else if c.toNat = 13 then ['\\', 'r']
  else if c.toNat < 32 then '\\' :: 'u' :: '0' :: '0' :: (Nat.toDigits 16 (256 + c.toNat)).drop 1
  else [c]

/-- `JSON.stringify` of a string. -/
def jsonString (s : String) : String := String.ofList ('"' :: s.toList.flatMap jsonChar ++ ['"'])

/-! ## The platform -/

/-- What `new URL(text)` gives, as far as the services read it. -/
structure Url where
  protocol : String
  username : String
  password : String
  hostname : String
  pathname : String

structure Platform where
  toLowerCase : String → String
  toLowerCase_ascii : ∀ s, (∀ c ∈ s.toList, c.toNat < 128) → toLowerCase s = asciiLower s
  /-- `new URL(text)`; none when it throws. -/
  parseUrl : String → Option Url

/-- The platform of ASCII texts. -/
def Platform.ascii (parseUrl : String → Option Url) : Platform := ⟨asciiLower, fun _ _ => rfl, parseUrl⟩

/-! ## Text without what is cut off -/

theorem trim_eq_self {s : String} (h : ∀ c ∈ s.toList, isJsSpace c = false) : trim s = s := by
  have hdrop : ∀ cs : List Char, (∀ c ∈ cs, isJsSpace c = false) → cs.dropWhile isJsSpace = cs := by
    intro cs hcs
    cases cs with
    | nil => rfl
    | cons c cs => rw [List.dropWhile_cons_of_neg (by simpa using hcs c (by simp))]
  unfold trim trimChars
  rw [hdrop s.toList h, hdrop s.toList.reverse fun c hc => h c (List.mem_reverse.mp hc), List.reverse_reverse,
    String.ofList_toList]

theorem asciiLower_eq_self {s : String} (h : ∀ c ∈ s.toList, lowerChar c = c) : asciiLower s = s := by
  unfold asciiLower
  rw [List.map_congr_left h, List.map_id', String.ofList_toList]

end Vellar.Worker
