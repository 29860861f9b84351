import Mathlib

/-!
# Vellar.Lib.Json — JSON values and schemas

A JSON value, and schemas as the values they accept, with the combinators of a schema library: strings and numbers
under a check, arrays, objects that admit no other keys, refinements.  Each combinator has one lemma that says what
it accepts.
-/

set_option autoImplicit false

namespace Vellar

/-- An object is its entries; of two with one key the first counts. -/
inductive Json where
  | null
  | bool (b : Bool)
  | num (n : ℚ)
  | str (s : String)
  | arr (items : List Json)
  | obj (fields : List (String × Json))

namespace Json

/-- `value[key]`; none for `undefined`. -/
def get? : Json → String → Option Json
  | obj fields, key => fields.lookup key
  | _, _ => none

def str? : Json → Option String
  | str s => some s
  | _ => none

def num? : Json → Option ℚ
  | num n => some n
  | _ => none

def items? : Json → Option (List Json)
  | arr items => some items
  | _ => none

/-- What `??` and `?.` pass on. -/
def nonNull : Option Json → Option Json
  | some null => none
  | x => x

/-- `{ ...value, key: x }` -/
def set : Json → String → Json → Json
  | obj fields, key, x =>
    if key ∈ fields.map Prod.fst then obj (fields.map fun f => if f.1 = key then (key, x) else f)
    else obj (fields ++ [(key, x)])
  | value, _, _ => value

@[simp] theorem str?_str (s : String) : (str s).str? = some s := rfl

@[simp] theorem num?_num (n : ℚ) : (num n).num? = some n := rfl

@[simp] theorem items?_arr (items : List Json) : (arr items).items? = some items := rfl

@[simp] theorem nonNull_str (s : String) : nonNull (some (str s)) = some (str s) := rfl

@[simp] theorem nonNull_none : nonNull none = none := rfl

end Json

/-- A schema, by what it accepts. -/
abbrev Schema := Json → Bool

namespace Schema

/-- A key of an object, by the values it may have; none when it is absent. -/
abbrev Field := Option Json → Bool

def string (check : String → Bool) : Schema
  | .str s => check s
  | _ => false

def number (check : ℚ → Bool) : Schema
  | .num n => check n
  | _ => false

def literal (text : String) : Schema := string fun s => s = text

def array (item : Schema) (check : List Json → Bool) : Schema
  | .arr items => items.all item && check items
  | _ => false

def required (schema : Schema) : Field
  | some v => schema v
  | none => false

def optional (schema : Schema) : Field
  | some v => schema v
  | none => true

/-- An object with these keys and no others. -/
def strictObject (fields : List (String × Field)) : Schema
  | .obj entries =>
    (fields.all fun f => f.2 (entries.lookup f.1)) && entries.all fun e => decide (e.1 ∈ fields.map Prod.fst)
  | _ => false

def refine (schema : Schema) (check : Json → Bool) : Schema := fun v => schema v && check v

/-- One of two schemas, told apart by a literal of theirs. -/
def union (a b : Schema) : Schema := fun v => a v || b v

variable {v : Json}

theorem string_iff {check : String → Bool} : string check v = true ↔ ∃ s, v = .str s ∧ check s = true := by
  cases v <;> simp [string]

theorem number_iff {check : ℚ → Bool} : number check v = true ↔ ∃ n, v = .num n ∧ check n = true := by
  cases v <;> simp [number]

theorem literal_iff {text : String} : literal text v = true ↔ v = .str text := by
  unfold literal
  rw [string_iff]
  refine ⟨?_, fun h => ⟨text, h, by simp⟩⟩
  rintro ⟨s, rfl, hs⟩
  rw [of_decide_eq_true hs]

theorem array_iff {item : Schema} {check : List Json → Bool} :
    array item check v = true ↔ ∃ items, v = .arr items ∧ (∀ x ∈ items, item x = true) ∧ check items = true := by
  cases v <;> simp [array]

theorem required_iff {schema : Schema} {x : Option Json} :
    required schema x = true ↔ ∃ w, x = some w ∧ schema w = true := by
  cases x <;> simp [required]

theorem optional_iff {schema : Schema} {x : Option Json} :
    optional schema x = true ↔ ∀ w, x = some w → schema w = true := by
  cases x <;> simp [optional]

/-- Every key of an accepted object has a value its schema accepts. -/
theorem strictObject_field {fields : List (String × Field)} (h : strictObject fields v = true) (key : String)
    {field : Field} (hmem : (key, field) ∈ fields) : field (v.get? key) = true := by
  cases v with
  | obj entries =>
    rw [strictObject, Bool.and_eq_true] at h
    exact List.all_eq_true.mp h.1 _ hmem
  | null | bool | num | str | arr => cases h

theorem refine_iff {schema : Schema} {check : Json → Bool} :
    refine schema check v = true ↔ schema v = true ∧ check v = true := by
  unfold refine
  rw [Bool.and_eq_true]

theorem union_iff {a b : Schema} : union a b v = true ↔ a v = true ∨ b v = true := by
  unfold union
  rw [Bool.or_eq_true]

/-- The strings of an array of strings. -/
def strings (items : List Json) : List String := items.filterMap Json.str?

theorem strings_of_all {items : List Json} {check : String → Bool} (h : ∀ x ∈ items, string check x = true) :
    items = (strings items).map Json.str ∧ ∀ s ∈ strings items, check s = true := by
  induction items with
  | nil => exact ⟨rfl, fun s hs => absurd hs List.not_mem_nil⟩
  | cons x items ih =>
    obtain ⟨s, rfl, hs⟩ := string_iff.mp (h x List.mem_cons_self)
    obtain ⟨heq, hall⟩ := ih fun y hy => h y (List.mem_cons_of_mem _ hy)
    have hcons : strings (.str s :: items) = s :: strings items := rfl
    rw [hcons, List.map_cons, ← heq]
    refine ⟨rfl, fun t ht => ?_⟩
    rcases List.mem_cons.mp ht with rfl | hrest
    · exact hs
    · exact hall t hrest

end Schema

end Vellar
