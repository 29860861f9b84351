import Vellar.Lib.Hex
import Vellar.Lib.JsNumber
import Vellar.Lib.Sha256
import Vellar.Lib.Tokens
import Vellar.Lib.Utf16

/-!
# Vellar.Cleanup.AuditRedaction — what is left of an audit event

`redactAuditEvent` over the objects of a heap, which may be shared or contain one another.  `frames` is how many calls
of the walk the stack has room for; one more than there are objects is enough.
-/

set_option autoImplicit false

namespace Vellar.Cleanup.AuditRedaction

open Utf16 (encodeUtf8)
open WebText (Text text)

abbrev Key := Text

/-- A value, in a heap of `n` objects. -/
inductive Value (n : ℕ) where
  | undefined
  | null
  | bool (b : Bool)
  | number (x : JsNumber)
  | bigint (z : ℤ)
  | string (t : Text)
  | symbol (description : Text)
  | function
  | ref (id : Fin n)

structure Property (n : ℕ) where
  key : Key
  value : Value n
  enumerable : Bool

structure Object (n : ℕ) where
  /-- `value instanceof Error` -/
  isError : Bool
  /-- The elements, of an array. -/
  items : Option (List (Value n))
  /-- The own properties, but for the elements and the length of an array. -/
  own : List (Property n)
  /-- What is found on the prototypes. -/
  inherited : List (Key × Value n)

abbrev Heap (n : ℕ) := Fin n → Object n

/-- What redaction makes: values it keeps as they are, texts it writes, and new arrays and objects. -/
inductive Tree (n : ℕ) where
  | value (v : Value n)
  | written (t : Text)
  | array (items : List (Tree n))
  | object (fields : List (Key × Tree n))

section Model

variable {n : ℕ}

def Value.isUndefined : Value n → Bool
  | .undefined => true
  | _ => false

def Tree.isUndefined : Tree n → Bool
  | .value v => v.isUndefined
  | _ => false

/-- An array or an object that the walk made. -/
def Tree.isMade : Tree n → Bool
  | .array _ | .object _ => true
  | _ => false

namespace Object

variable (o : Object n)

/-- The own properties. -/
def properties : List (Property n) :=
  match o.items with
  | none => o.own
  | some items =>
    (items.zipIdx.map fun (v, i) => ⟨text (toString i), v, true⟩) ++
      ⟨text "length", .number (.finite items.length), false⟩ :: o.own

/-- `key in o` -/
def has (key : Key) : Bool := o.properties.any (fun p => p.key = key) || o.inherited.any fun p => p.1 = key

/-- `o[key]` -/
def get (key : Key) : Value n :=
  match o.properties.find? fun p => p.key = key with
  | some p => p.value
  | none => (o.inherited.lookup key).getD .undefined

/-- `Object.entries` -/
def entries : List (Key × Value n) := (o.properties.filter Property.enumerable).map fun p => (p.key, p.value)

end Object

/-! ## Texts -/

/-- A unit of `[A-Z0-9]`. -/
def isUpperOrDigit (c : UInt16) : Bool := decide (65 ≤ c.toNat ∧ c.toNat ≤ 90 ∨ 48 ≤ c.toNat ∧ c.toNat ≤ 57)

/-- A unit of `\w`. -/
def isWord (c : UInt16) : Bool := isUpperOrDigit c || decide (97 ≤ c.toNat ∧ c.toNat ≤ 122 ∨ c.toNat = 95)

def isS (c : UInt16) : Bool := decide (c.toNat = 83)

def redactedSecretKey : Text := text "[REDACTED_SECRET_KEY" ++ text "]"

/-- The text with the mark for each match of `STELLAR_SECRET_REGEX`. -/
def redactString (str : Text) : Text := Tokens.replaceTokens isUpperOrDigit isWord isS 56 redactedSecretKey str

def contains (part str : Text) : Bool := str.tails.any part.isPrefixOf

/-- A unit that `.` matches. -/
def isNotLineEnd (c : UInt16) : Bool := decide (c.toNat ∉ [10, 13, 0x2028, 0x2029])

def isSensitiveKey (key : Key) : Bool :=
  let key := key.map WebText.lowerUnit
  contains (text "secret") key || contains (text "privatekey") key || contains (text "private_key") key ||
    key.tails.any (fun t => (text "sponsor").isPrefixOf t &&
      contains (text "key") ((t.drop 7).takeWhile isNotLineEnd)) ||
    contains (text "seed") key

/-- `hashForRedaction` -/
def hashForRedaction (value salt : Text) : Text :=
  (text (Hex.hexOf (Sha256.sha256 (encodeUtf8 (value ++ salt))))).take 12

/-- `value.toString()` of a symbol. -/
def symbolText (description : Text) : Text := text "Symbol(" ++ description ++ text ")"

/-! ## The walk -/

def circular : Text := text "[Circular]"

def functionMark : Text := text "[Function]"

/-- What a field of a result is made of. -/
inductive Slot (n : ℕ) where
  | keep (v : Value n)
  | hide
  | walk (v : Value n)

def fieldSlot (key : Key) (v : Value n) : Slot n := if isSensitiveKey key then .hide else .walk v

namespace Object

variable (o : Object n)

def isErrorLike : Bool := o.isError || o.has (text "message") && o.has (text "name")

/-- The text with its secret keys replaced, or what is no text. -/
def redactedMessage : Value n :=
  match o.get (text "message") with
  | .string t => .string (redactString t)
  | v => v

/-- The fields of what is made of an error. -/
def errorParts : List (Key × Slot n) :=
  [(text "name", .keep (o.get (text "name"))), (text "message", .keep o.redactedMessage)] ++
    (match o.get (text "stack") with
      | .string t => [(text "stack", .keep (.string (redactString t)))]
      | _ => []) ++
    (if o.has (text "cause") && !(o.get (text "cause")).isUndefined then
      [(text "cause", .walk (o.get (text "cause")))] else []) ++
    ((o.properties.map Property.key).filter fun prop =>
      prop ∉ [text "name", text "message", text "stack", text "cause"]).map
        fun prop => (prop, fieldSlot prop (o.get prop))

/-- The parts of what is made of an object. -/
def parts : List (Key × Slot n) :=
  if o.isErrorLike then o.errorParts
  else match o.items with
    | some items => items.zipIdx.map fun (v, i) => (text (toString i), .walk v)
    | none => o.entries.map fun (k, v) => (k, fieldSlot k v)

end Object

def proto : Key := text "__proto__"

/-- The fields of an object to which these are assigned: `__proto__` takes an object only. -/
def assigned (fields : List (Key × Tree n)) : List (Key × Tree n) :=
  fields.filter fun (k, tree) => decide (k ≠ proto) || tree.isMade

/-- What is made of an object, of its parts. -/
def Object.rebuild (o : Object n) (trees : List (Tree n)) : Tree n :=
  if o.isErrorLike || o.items.isNone then .object (assigned ((o.parts.map Prod.fst).zip trees)) else .array trees

abbrev Seen (n : ℕ) := Finset (Fin n)

/-- The slots filled one after the other, with what has been seen handed on. -/
def fill (walk : Seen n → Value n → Option (Tree n × Seen n)) :
    Seen n → List (Slot n) → Option (List (Tree n) × Seen n)
  | seen, [] => some ([], seen)
  | seen, .keep v :: slots => (fill walk seen slots).map fun (trees, seen) => (.value v :: trees, seen)
  | seen, .hide :: slots => (fill walk seen slots).map fun (trees, seen) => (.written redactedSecretKey :: trees, seen)
  | seen, .walk v :: slots => do
    let (tree, seen) ← walk seen v
    let (trees, seen) ← fill walk seen slots
    pure (tree :: trees, seen)

variable (heap : Heap n)

def redactNested : ℕ → Seen n → Value n → Option (Tree n × Seen n)
  | 0, _, _ => none
  | frames + 1, seen, value => match value with
    | .string t => some (.value (.string (redactString t)), seen)
    | .symbol description => some (.value (.string (symbolText description)), seen)
    | .function => some (.written functionMark, seen)
    | .ref id =>
      if id ∈ seen then some (.written circular, seen)
      else (fill (redactNested frames) (insert id seen) ((heap id).parts.map Prod.snd)).map
        fun (trees, seen) => ((heap id).rebuild trees, seen)
    | v => some (.value v, seen)

/-! ## Events -/

structure AuditEvent (n : ℕ) where
  type : Text
  «at» : Text
  /-- The object of the data. -/
  data : Fin n

/-- A redacted event. -/
structure Redacted (n : ℕ) where
  type : Text
  «at» : Text
  data : List (Key × Tree n)

/-- A field for a text. -/
def textField (key : Key) (make : Text → Tree n) : Value n → List (Key × Tree n)
  | .string t => [(key, make t)]
  | _ => []

def numberField (key : Key) : Value n → List (Key × Tree n)
  | .number x => [(key, .value (.number x))]
  | _ => []

def boolField (key : Key) : Value n → List (Key × Tree n)
  | .bool b => [(key, .value (.bool b))]
  | _ => []

/-- The types of the blockers, each once. -/
def extractBlockerTypes (blockers : List (Value n)) : List Text :=
  let types := blockers.filterMap fun blocker => match blocker with
    | .ref id => match (heap id).get (text "type") with
      | .string t => some t
      | _ => none
    | _ => none
  types.dedup.mergeSort fun a b => decide (a ≤ b)

def redactPlan (salt : Text) : Value n → List (Key × Tree n)
  | .ref id =>
    let p := heap id
    textField (text "accountRef") (fun t => .written (hashForRedaction t salt)) (p.get (text "accountId")) ++
      textField (text "destinationRef") (fun t => .written (hashForRedaction t salt)) (p.get (text "destination")) ++
      numberField (text "estimatedTransactions") (p.get (text "estimatedTransactions")) ++
      boolField (text "mergeReady") (p.get (text "mergeReady")) ++
      (match p.get (text "blockers") with
        | .ref blockers => match (heap blockers).items with
          | some items =>
            [(text "blockerTypes", .array ((extractBlockerTypes heap items).map fun t => .value (.string t))),
              (text "blockerCount", .value (.number (.finite items.length)))]
          | none => []
        | _ => [])
  | _ => []

def redactStep : Value n → List (Key × Tree n)
  | .ref id =>
    textField (text "title") (fun t => .value (.string t)) ((heap id).get (text "title")) ++
      textField (text "hash") (fun t => .value (.string t)) ((heap id).get (text "hash"))
  | _ => []

/-- What an `if` takes for true. -/
def Value.truthy : Value n → Bool
  | .undefined | .null => false
  | .bool b => b
  | .number x => decide (x ≠ .nan ∧ x ≠ .finite 0)
  | .bigint z => decide (z ≠ 0)
  | .string t => decide (t ≠ [])
  | .symbol _ | .function | .ref _ => true

def planField (salt : Text) (data : Object n) : List (Key × Tree n) :=
  if (data.get (text "plan")).truthy then [(text "plan", .object (redactPlan heap salt (data.get (text "plan"))))]
  else []

def stepsField (data : Object n) : List (Key × Tree n) :=
  match data.get (text "steps") with
  | .ref steps => match (heap steps).items with
    | some items => [(text "steps", .array (items.map fun step => .object (redactStep heap step)))]
    | none => []
  | _ => []

def stepField (data : Object n) : List (Key × Tree n) :=
  if (data.get (text "step")).truthy then [(text "step", .object (redactStep heap (data.get (text "step"))))] else []

def inspectTypes : List Text := [text "lifecycle.inspect_requested", text "lifecycle.account_inspected"]

def planTypes : List Text := [text "lifecycle.plan_requested", text "lifecycle.cleanup_planned"]

def executeTypes : List Text := [text "lifecycle.execute_requested", text "lifecycle.cleanup_executed"]

def mergeTypes : List Text := [text "lifecycle.merge_requested", text "lifecycle.account_merged"]

/-- The data of an event of a known type. -/
def knownFields (type salt : Text) (data : Object n) : Option (List (Key × Tree n)) :=
  if type ∈ inspectTypes then some []
  else if type ∈ planTypes then some (planField heap salt data)
  else if type ∈ executeTypes then some (planField heap salt data ++ stepsField heap data)
  else if type ∈ mergeTypes then some (stepField heap data)
  else none

/-- The names that the data of an unknown event loses. -/
def droppedNames : List Key :=
  [text "accountId", text "destination", text "account", text "dataKeys", text "offers", text "description"]

def unknownParts (data : Object n) : List (Key × Slot n) :=
  (data.entries.filter fun e => e.1 ∉ droppedNames).map fun (k, v) => (k, fieldSlot k v)

/-- `fields[key] === undefined` -/
def lacks (fields : List (Key × Tree n)) (key : Key) : Bool := ((fields.lookup key).map Tree.isUndefined).getD true

/-- The data of the result before an error is attached. -/
def redactedData (frames : ℕ) (type salt : Text) (data : Object n) : Option (List (Key × Tree n) × Seen n) :=
  match knownFields heap type salt data with
  | some fields => some (fields, ∅)
  | none => (fill (redactNested heap frames) ∅ ((unknownParts data).map Prod.snd)).map
      fun (trees, seen) => (assigned (((unknownParts data).map Prod.fst).zip trees), seen)

def redactAuditEvent (frames : ℕ) (event : AuditEvent n) (salt : Text) : Option (Redacted n) := do
  let data := heap event.data
  let error := data.get (text "error")
  let (fields, seen) ← redactedData heap frames event.type salt data
  if !error.isUndefined && lacks fields (text "error") then
    let (tree, _) ← redactNested heap frames seen error
    pure ⟨event.type, event.at, fields ++ [(text "error", tree)]⟩
  else pure ⟨event.type, event.at, fields⟩

end Model

end Vellar.Cleanup.AuditRedaction
