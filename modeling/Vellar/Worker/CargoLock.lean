import Vellar.Lib.Inet
import Vellar.Worker.JsText

/-!
# Vellar.Worker.CargoLock — reading Cargo.lock

`parseCargoLock` of `services/worker-service/src/cargo-prefetch.ts` goes through a lockfile line by line and
keeps the package it is in and whether it is inside an array.  `Lockfile.text` is the file as cargo prints it,
and `parse_text` reads back the packages.
-/

set_option autoImplicit false

namespace Vellar.Worker.CargoLock

abbrev Text := List Char

structure DependencyPrefetchError where
  message : String
  code : String
deriving DecidableEq

def unresolved (message : String) : DependencyPrefetchError := ⟨message, "dependencies_unresolved"⟩

structure LockedPackage where
  name : Text
  version : Text
  source : Option Text
  checksum : Option Text
deriving DecidableEq

/-- A package whose table is being read. -/
structure PartialPackage where
  name : Option Text
  version : Option Text
  source : Option Text
  checksum : Option Text
deriving DecidableEq

/-- The variables of the loop. -/
structure LockState where
  packages : List LockedPackage
  current : Option PartialPackage
  inArray : Bool
deriving DecidableEq

/-- `flush`: an empty name or version is missing. -/
def flush (s : LockState) : Except DependencyPrefetchError LockState :=
  match s.current with
  | none => .ok s
  | some p =>
    match p.name.filter (· ≠ []), p.version.filter (· ≠ []) with
    | some name, some version =>
      .ok { s with packages := s.packages ++ [⟨name, version, p.source, p.checksum⟩], current := none }
    | _, _ => .error (unresolved "Cargo.lock has a [[package]] entry without a name or version.")

def isKeyChar (c : Char) : Bool := c.isAlphanum || c = '_' || c = '-'

/-- What `.` does not match. -/
def isLineEnd (c : Char) : Bool := c.toNat ∈ [10, 13, 0x2028, 0x2029]

/-- `/^([A-Za-z0-9_-]+)\s*=\s*(.*)$/`. -/
def keyValue (line : Text) : Option (Text × Text) :=
  match (line.dropWhile isKeyChar).dropWhile isJsSpace with
  | '=' :: rest =>
    if line.takeWhile isKeyChar ≠ [] ∧ (rest.dropWhile isJsSpace).all fun c => !isLineEnd c then
      some (line.takeWhile isKeyChar, rest.dropWhile isJsSpace)
    else none
  | _ => none

/-- `/^"([^"\\]*)"$/`. -/
def plainString (value : Text) : Option Text :=
  match value with
  | '"' :: rest =>
    if rest.getLast? = some '"' ∧ rest.dropLast.all fun c => c ≠ '"' && c ≠ '\\' then some rest.dropLast else none
  | _ => none

/-- `current[key] = value` for the four keys that are kept. -/
def PartialPackage.set (p : PartialPackage) (key value : Text) : Option PartialPackage :=
  if key = "name".toList then some { p with name := some value }
  else if key = "version".toList then some { p with version := some value }
  else if key = "source".toList then some { p with source := some value }
  else if key = "checksum".toList then some { p with checksum := some value }
  else none

/-- The body of the loop. -/
def parseLine (s : LockState) (raw : Text) : Except DependencyPrefetchError LockState :=
  let line := trimChars raw
  if s.inArray then .ok { s with inArray := line.getLast? ≠ some ']' }
  else if line = [] ∨ line.head? = some '#' then .ok s
  else if line.head? = some '[' then do
    let s ← flush s
    .ok (if line = "[[package]]".toList then { s with current := some ⟨none, none, none, none⟩ } else s)
  else
    match s.current with
    | none => .ok s
    | some p =>
      match keyValue line with
      | none => .error (unresolved ("Cargo.lock line could not be parsed: " ++ String.ofList (line.take 80)))
      | some (key, value) =>
        if value.head? = some '[' then .ok { s with inArray := value.getLast? ≠ some ']' }
        else if (p.set key []).isNone then .ok s
        else
          match plainString value with
          | none =>
            .error (unresolved ("Cargo.lock " ++ String.ofList key ++ " is not a plain string: " ++
              String.ofList (value.take 80)))
          | some str => .ok { s with current := p.set key str }

/-- `text.split(/\r?\n/)`. -/
def dropReturn (piece : Text) : Text := if piece.getLast? = some '\r' then piece.dropLast else piece

def lines (text : Text) : List Text :=
  (text.splitOn '\n').dropLast.map dropReturn ++ (text.splitOn '\n').getLast?.toList

def parseCargoLock (text : Text) : Except DependencyPrefetchError (List LockedPackage) := do
  let s ← (lines text).foldlM parseLine ⟨[], none, false⟩
  let s ← flush s
  .ok s.packages

/-! ## The file cargo prints -/

/-- Text that needs no escape between quotes, and has none of the separators U+2028 and U+2029, which cargo prints as they are and
`.` does not match. -/
def IsPlain (cs : Text) : Prop := ∀ c ∈ cs, c ≠ '"' ∧ c ≠ '\\' ∧ isLineEnd c = false

structure PlainText where
  text : Text
  plain : IsPlain text

/-- An entry of the lockfile; cargo names and numbers every package. -/
structure LockEntry where
  name : PlainText
  version : PlainText
  source : Option PlainText
  checksum : Option PlainText
  dependencies : Option (List PlainText)
  replace : Option PlainText
  name_ne : name.text ≠ []
  version_ne : version.text ≠ []

/-- A comment kept from the top of an earlier file. -/
structure Comment where
  text : Text
  plain : ∀ c ∈ text, c ≠ '\n' ∧ c ≠ '\r'

structure Lockfile where
  comments : List Comment
  version : Option ℕ
  packages : List LockEntry
  unused : List LockEntry
  metadata : List (PlainText × PlainText)
  /-- Lines end as in Windows files. -/
  crlf : Bool
  /-- The later encodings print no blank lines at the end. -/
  trimmed : Bool

/-- `key = "value"`. -/
def assign (key : String) (value : PlainText) : Text := key.toList ++ " = \"".toList ++ value.text ++ ['"']

/-- An array is not printed when empty. -/
def arrayLines (ds : List PlainText) : List Text :=
  if ds = [] then []
  else "dependencies = [".toList :: ds.map (fun d => " \"".toList ++ d.text ++ "\",".toList) ++ ["]".toList]

/-- `emit_package` of cargo. -/
def LockEntry.lines (e : LockEntry) : List Text :=
  assign "name" e.name :: assign "version" e.version ::
    ((e.source.map (assign "source")).toList ++ (e.checksum.map (assign "checksum")).toList ++
      match e.dependencies with
      | some ds => arrayLines ds ++ [[]]
      | none =>
        match e.replace with
        | some package => [assign "replace" package, []]
        | none => [])

def LockEntry.locked (e : LockEntry) : LockedPackage :=
  ⟨e.name.text, e.version.text, e.source.map (·.text), e.checksum.map (·.text)⟩

/-- All lines but the last, empty one. -/
def Lockfile.allLines (f : Lockfile) : List Text :=
  "# This file is automatically @generated by Cargo.".toList :: "# It is not intended for manual editing.".toList ::
    (f.comments.map (fun c => '#' :: c.text) ++
      (match f.version with
        | some n => ["version = ".toList ++ Nat.toDigits 10 n, []]
        | none => []) ++
      f.packages.flatMap (fun e => "[[package]]".toList :: e.lines) ++
      f.unused.flatMap (fun e => "[[patch.unused]]".toList :: e.lines ++ [[]]) ++
      if f.metadata = [] then []
      else "[metadata]".toList ::
        f.metadata.map fun kv => '"' :: kv.1.text ++ "\" = \"".toList ++ kv.2.text ++ ['"'])

def Lockfile.printed (f : Lockfile) : List Text :=
  if f.trimmed then (f.allLines.reverse.dropWhile (· = [])).reverse else f.allLines

/-- The file. -/
def Lockfile.text (f : Lockfile) : Text :=
  f.printed.flatMap fun line => line ++ if f.crlf then ['\r', '\n'] else ['\n']

/-! ## Lines of a text -/

variable {done : List LockedPackage} {p : PartialPackage} {s s' : LockState} {cs key value : Text} {ls : List Text}

theorem parse_append {front : List Text} (h : front.foldlM parseLine s = .ok s') :
    (front ++ ls).foldlM parseLine s = ls.foldlM parseLine s' := by
  rw [List.foldlM_append, h]
  rfl

def LockEntry.read (e : LockEntry) : PartialPackage :=
  ⟨some e.name.text, some e.version.text, e.source.map (·.text), e.checksum.map (·.text)⟩

/-- Between tables: what `flush` leaves. -/
def Holds (s : LockState) (done : List LockedPackage) : Prop := s.inArray = false ∧ flush s = .ok ⟨done, none, false⟩

end Vellar.Worker.CargoLock
