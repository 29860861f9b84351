import Vellar.Lib.JsNumber
import Vellar.Lib.LongRuns
import Vellar.Lib.Partial
import Vellar.Lib.Reach
import Vellar.Lib.WebText

/-!
# Vellar.Extension.ErrorReporter — the error reports of the background worker

What `redactCredentialData` makes of a value, and what `reportError` hands to its client and resolves to.

An object that the caller made lies in a heap, where it may be shared or contain itself; a part of it is `none` where
reading it throws.  What the walk makes is a tree.  The elements of a typed array keep a mark, so that the tree shows
which of its numbers are binary data.  `frames` is how many calls of the walk the stack has room for.
-/

set_option autoImplicit false

namespace Vellar.Extension.ErrorReporter

open WebText (Text text)

abbrev Key := Text

/-- What a typed array holds: bigints in the two with 64-bit elements, else numbers. -/
inductive Element where
  | number (x : JsNumber)
  | bigint (n : ℤ)

inductive Value where
  | undefined
  | null
  | bool (b : Bool)
  | number (x : JsNumber)
  | bigint (n : ℤ)
  | symbol (id : ℕ)
  /-- Out of a typed array. -/
  | element (x : Element)
  | string (t : Text)
  | ref (id : ℕ)
  | array (items : List Value)
  | object (fields : List (Key × Value))

/-- An object of the caller's. -/
inductive Cell where
  | array (items : Option (List Value))
  /-- A `Uint8Array` or an `ArrayBuffer`. -/
  | bytes
  /-- Another typed array. -/
  | view (elements : List Element)
  /-- Any other object, by `Object.entries`. -/
  | object (entries : Option (List (Key × Value)))
  | function (entries : Option (List (Key × Value)))

/-- What a value is to the walk. -/
inductive Shape where
  | atom
  | element
  | text (t : Text)
  | bytes
  | array (items : Option (List Value))
  | object (entries : Option (List (Key × Value)))
  | function (entries : Option (List (Key × Value)))

def viewEntries (elements : List Element) : List (Key × Value) :=
  elements.zipIdx.map fun (x, i) => (text (toString i), .element x)

def Cell.shape : Cell → Shape
  | .array items => .array items
  | .bytes => .bytes
  | .view elements => .object (some (viewEntries elements))
  | .object entries => .object entries
  | .function entries => .function entries

def shape (heap : ℕ → Cell) : Value → Shape
  | .string t => .text t
  | .element _ => .element
  | .array items => .array (some items)
  | .object fields => .object (some fields)
  | .ref id => (heap id).shape
  | _ => .atom

/-! ## Redaction -/

/-- The names in `CREDENTIAL_FIELD_NAME_PATTERN`. -/
def credentialFieldNames : List String :=
  ["rawid", "credentialid", "clientdatajson", "attestationobject", "authenticatordata", "userhandle", "publickey",
    "signature"]

def isCredentialKey (key : Key) : Bool :=
  credentialFieldNames.any fun name => decide (text name <:+: key.map WebText.lowerUnit)

/-- `REDACTED_PLACEHOLDER` -/
def redactedPlaceholder : Text := text "[redacted: passkey credential data]"

/-- A unit of `[A-Za-z0-9_-]`. -/
def isBase64url (c : UInt16) : Bool :=
  65 ≤ c.toNat && c.toNat ≤ 90 || 97 ≤ c.toNat && c.toNat ≤ 122 || 48 ≤ c.toNat && c.toNat ≤ 57 || c.toNat == 95 ||
    c.toNat == 45

/-- A match of `BASE64URL_RUN_PATTERN`. -/
def hasRun (t : Text) : Bool := LongRuns.hasRun isBase64url 32 t

def redactEmbeddedCredentialText (value : Text) : Text :=
  LongRuns.replaceRuns isBase64url 32 (text "[redacted: possible credential data" ++ [WebText.unit ']']) value

def isCredential (keyHint : Option Key) : Bool := keyHint.any isCredentialKey

def proto : Key := text "__proto__"

/-- The own entries of an object to which these are assigned: `__proto__` names none. -/
def assigned (entries : List (Key × Value)) : List (Key × Value) := entries.filter fun e => e.1 ≠ proto

def redactCredentialData (heap : ℕ → Cell) : ℕ → Value → Option Key → Option Value
  | 0, _, _ => none
  | n + 1, value, keyHint =>
    if isCredential keyHint then some (.string redactedPlaceholder)
    else match shape heap value with
      | .text t => some (.string (redactEmbeddedCredentialText t))
      | .array items => items.bind fun items =>
          (items.mapM fun entry => redactCredentialData heap n entry none).map .array
      | .bytes => some (.string redactedPlaceholder)
      | .object entries => entries.bind fun entries =>
          (entries.mapM fun e => (redactCredentialData heap n e.2 (some e.1)).map (Prod.mk e.1)).map
            fun out => .object (assigned out)
      | .atom | .element | .function _ => some value

/-! ## What a report must not hold -/

/-- Down to a depth: no long run in a text or a key, no binary data, and nothing under a credential's key. -/
def CleanAt (heap : ℕ → Cell) : ℕ → Value → Prop
  | 0, _ => True
  | n + 1, value => match shape heap value with
      | .atom => True
      | .element => False
      | .bytes => False
      | .text t => hasRun t = false
      | .array items => ∀ l ∈ items, ∀ entry ∈ l, CleanAt heap n entry
      | .object entries | .function entries => ∀ l ∈ entries, ∀ e ∈ l,
          hasRun e.1 = false ∧ (isCredentialKey e.1 = true → e.2 = .string redactedPlaceholder) ∧ CleanAt heap n e.2

def Clean (heap : ℕ → Cell) (value : Value) : Prop := ∀ n, CleanAt heap n value

/-! ## The walk -/

/-- A value, and the key that it is under. -/
abbrev Spot := Option Key × Value

variable (heap : ℕ → Cell)

/-- Where the walk goes to. -/
def walked (spot : Spot) : List Spot :=
  if isCredential spot.1 then []
  else match shape heap spot.2 with
    | .array items => (items.getD []).map fun entry => (none, entry)
    | .object entries => (entries.getD []).map fun e => (some e.1, e.2)
    | _ => []

/-- Of these, what it keeps. -/
def kept (spot : Spot) : List Spot := (walked heap spot).filter fun s => s.1 ≠ some proto

/-- Nothing throws when the walk reads the value. -/
def readable (spot : Spot) : Prop :=
  isCredential spot.1 = true ∨ shape heap spot.2 ≠ .array none ∧ shape heap spot.2 ≠ .object none

/-- What the walk leaves as it is does no harm: a key, a number, a function. -/
def tame (spot : Spot) : Prop :=
  (∀ key ∈ spot.1, hasRun key = false) ∧
    (isCredential spot.1 = true ∨ match shape heap spot.2 with
      | .element => False
      | .function _ => Clean heap spot.2
      | _ => True)

/-- The walk ends: it stays within its frames, and nothing that it reads throws. -/
def Ends (frames : ℕ) : Spot → Prop := Reach.Throughout (walked heap) fun d spot => d < frames ∧ readable heap spot

def Tame : Spot → Prop := Reach.Throughout (kept heap) fun _ spot => tame heap spot

variable {heap}

/-! ### Texts -/

theorem hasRun_redactEmbeddedCredentialText (value : Text) : hasRun (redactEmbeddedCredentialText value) = false :=
  LongRuns.hasRun_replaceRuns (by omega) (by decide) (by decide) value

theorem redactEmbeddedCredentialText_of_clean {value : Text} (h : hasRun value = false) :
    redactEmbeddedCredentialText value = value := LongRuns.replaceRuns_of_not_hasRun h

theorem redactEmbeddedCredentialText_idem (value : Text) :
    redactEmbeddedCredentialText (redactEmbeddedCredentialText value) = redactEmbeddedCredentialText value :=
  redactEmbeddedCredentialText_of_clean (hasRun_redactEmbeddedCredentialText value)

theorem hasRun_redactedPlaceholder : hasRun redactedPlaceholder = false := by decide

/-! ### One step of the walk -/

section Step

variable {n : ℕ} {value : Value} {keyHint : Option Key}

theorem redact_credential (h : isCredential keyHint = true) :
    redactCredentialData heap (n + 1) value keyHint = some (.string redactedPlaceholder) := by
  rw [redactCredentialData, if_pos h]

theorem redact_eq (h : ¬ isCredential keyHint = true) :
    redactCredentialData heap (n + 1) value keyHint = match shape heap value with
      | .text t => some (.string (redactEmbeddedCredentialText t))
      | .array items => items.bind fun items =>
          (items.mapM fun entry => redactCredentialData heap n entry none).map .array
      | .bytes => some (.string redactedPlaceholder)
      | .object entries => entries.bind fun entries =>
          (entries.mapM fun e => (redactCredentialData heap n e.2 (some e.1)).map (Prod.mk e.1)).map
            fun out => .object (assigned out)
      | .atom | .element | .function _ => some value := by
  rw [redactCredentialData, if_neg h]

theorem walked_credential (h : isCredential keyHint = true) : walked heap (keyHint, value) = [] := if_pos h

theorem walked_eq (h : ¬ isCredential keyHint = true) :
    walked heap (keyHint, value) = match shape heap value with
      | .array items => (items.getD []).map fun entry => (none, entry)
      | .object entries => (entries.getD []).map fun e => (some e.1, e.2)
      | _ => [] := if_neg h

theorem ends_iff {spot : Spot} :
    Ends heap (n + 1) spot ↔ readable heap spot ∧ ∀ s ∈ walked heap spot, Ends heap n s := by
  rw [Ends, Reach.throughout_iff]
  simp only [Nat.add_lt_add_iff_right, Nat.zero_lt_succ, true_and]
  rfl

theorem tame_iff {spot : Spot} : Tame heap spot ↔ tame heap spot ∧ ∀ s ∈ kept heap spot, Tame heap s :=
  Reach.throughout_iff

theorem not_ends_zero (spot : Spot) : ¬ Ends heap 0 spot := fun h => absurd (h 0 spot (.here spot)).1 (Nat.lt_irrefl 0)

/-- The walk returns exactly when it ends. -/
theorem exists_redact_iff :
    (∃ out, redactCredentialData heap n value keyHint = some out) ↔ Ends heap n (keyHint, value) := by
  induction n generalizing value keyHint with
  | zero =>
    refine iff_of_false ?_ (not_ends_zero _)
    rintro ⟨out, hout⟩
    exact absurd hout (Option.some_ne_none out).symm
  | succ n ih =>
    rw [ends_iff]
    by_cases hcred : isCredential keyHint = true
    · rw [redact_credential hcred, walked_credential hcred]
      exact iff_of_true ⟨_, rfl⟩ ⟨Or.inl hcred, fun s hs => absurd hs List.not_mem_nil⟩
    · rw [redact_eq hcred, walked_eq hcred, readable, or_iff_right hcred]
      dsimp only
      rcases hshape : shape heap value with _ | _ | t | _ | items | entries | entries
      case array =>
        rcases items with _ | items
        · simp
        · simp [Partial.exists_mapM_iff, ih]
      case object =>
        rcases entries with _ | entries
        · simp
        · have hentries : ∀ e : Key × Value,
              (∃ y, (redactCredentialData heap n e.2 (some e.1)).map (Prod.mk e.1) = some y) ↔
                Ends heap n (some e.1, e.2) := by
            intro e
            simp [← ih]
          simp only [Option.bind_some, Option.getD_some, List.forall_mem_map, ← hentries,
            ← Partial.exists_mapM_iff]
          simp
      all_goals simp

theorem redact_of_credential {out : Value} (h : redactCredentialData heap n value keyHint = some out)
    (hcred : isCredential keyHint = true) : out = .string redactedPlaceholder := by
  cases n with
  | zero => exact absurd h (Option.some_ne_none out).symm
  | succ n =>
    rw [redact_credential hcred] at h
    exact (Option.some.inj h).symm

end Step

/-! ### Cleanliness, one level down -/

section Levels

theorem clean_string {t : Text} : Clean heap (.string t) ↔ hasRun t = false := by
  constructor
  · intro h
    exact h 1
  · rintro h (_ | n)
    · trivial
    · exact h

theorem clean_of_atom {value : Value} (h : shape heap value = .atom) : Clean heap value := by
  rintro (_ | n)
  · trivial
  · rw [CleanAt, h]
    trivial

theorem not_clean_of_element {value : Value} (h : shape heap value = .element) : ¬ Clean heap value := by
  intro hclean
  have hone := hclean 1
  rw [CleanAt, h] at hone
  exact hone

theorem clean_array {items : List Value} : Clean heap (.array items) ↔ ∀ entry ∈ items, Clean heap entry := by
  constructor
  · intro h entry hentry n
    exact h (n + 1) items rfl entry hentry
  · rintro h (_ | n)
    · trivial
    · intro l hl entry hentry
      obtain rfl := Option.some.inj hl
      exact h entry hentry n

theorem clean_object {fields : List (Key × Value)} :
    Clean heap (.object fields) ↔ ∀ e ∈ fields,
      hasRun e.1 = false ∧ (isCredentialKey e.1 = true → e.2 = .string redactedPlaceholder) ∧ Clean heap e.2 := by
  constructor
  · intro h e he
    have hone := h 1 fields rfl e he
    exact ⟨hone.1, hone.2.1, fun n => (h (n + 1) fields rfl e he).2.2⟩
  · rintro h (_ | n)
    · trivial
    · intro l hl e he
      obtain rfl := Option.some.inj hl
      obtain ⟨hkey, hcred, hvalue⟩ := h e he
      exact ⟨hkey, hcred, hvalue n⟩

theorem mem_assigned {fields : List (Key × Value)} {e : Key × Value} :
    e ∈ assigned fields ↔ e ∈ fields ∧ e.1 ≠ proto := by
  rw [assigned, List.mem_filter, decide_eq_true_iff]

end Levels

/-! ### The walk as a whole -/

section Walk

variable {n : ℕ} {value out : Value} {keyHint : Option Key}

/-- What the walk makes is clean exactly when what it leaves as it is does no harm. -/
theorem clean_redact_iff (h : redactCredentialData heap n value keyHint = some out) :
    (∀ key ∈ keyHint, hasRun key = false) ∧ Clean heap out ↔ Tame heap (keyHint, value) := by
  induction n generalizing value keyHint out with
  | zero => exact absurd h (Option.some_ne_none out).symm
  | succ n ih =>
    rw [tame_iff, tame, kept]
    by_cases hcred : isCredential keyHint = true
    · obtain rfl := redact_of_credential h hcred
      rw [walked_credential hcred, clean_string]
      simp [hcred, hasRun_redactedPlaceholder]
    · rw [redact_eq hcred] at h
      rw [walked_eq hcred, or_iff_right hcred, and_assoc]
      refine and_congr_right fun _ => ?_
      dsimp only
      rcases hshape : shape heap value with _ | _ | t | _ | items | entries | entries
      all_goals rw [hshape] at h
      case atom =>
        obtain rfl := Option.some.inj h
        simp [clean_of_atom hshape]
      case element =>
        obtain rfl := Option.some.inj h
        simp [not_clean_of_element hshape]
      case text =>
        obtain rfl := Option.some.inj h
        simp [clean_string, hasRun_redactEmbeddedCredentialText]
      case bytes =>
        obtain rfl := Option.some.inj h
        simp [clean_string, hasRun_redactedPlaceholder]
      case function =>
        obtain rfl := Option.some.inj h
        simp
      case array =>
        obtain ⟨items, rfl, h⟩ := Option.bind_eq_some_iff.mp h
        obtain ⟨outs, houts, rfl⟩ := Option.map_eq_some_iff.mp h
        have hrel := Partial.forall_iff (Partial.mapM_eq_some.mp houts) fun entry out hout => (ih hout).symm
        rw [clean_array]
        simpa using hrel.symm
      case object =>
        obtain ⟨entries, rfl, h⟩ := Option.bind_eq_some_iff.mp h
        obtain ⟨outs, houts, rfl⟩ := Option.map_eq_some_iff.mp h
        have hrel : (∀ e ∈ entries, e.1 ≠ proto → Tame heap (some e.1, e.2)) ↔
            ∀ e ∈ outs, e.1 ≠ proto → hasRun e.1 = false ∧
              (isCredentialKey e.1 = true → e.2 = .string redactedPlaceholder) ∧ Clean heap e.2 := by
          refine Partial.forall_iff (Partial.mapM_eq_some.mp houts) fun e o ho => ?_
          obtain ⟨w, hw, rfl⟩ := Option.map_eq_some_iff.mp ho
          refine imp_congr_right fun _ => ?_
          have hkey : (∀ key ∈ some e.1, hasRun key = false) ↔ hasRun e.1 = false := by simp
          rw [← ih hw, hkey]
          exact and_congr_right fun _ => (and_iff_right (redact_of_credential hw)).symm
        rw [clean_object]
        simp only [mem_assigned, and_imp, ← hrel, List.mem_filter, List.forall_mem_map, decide_eq_true_iff, true_and,
          Option.getD_some, ne_eq, Option.some.injEq]

/-- The walk leaves what it has made as it is. -/
theorem redact_redact (h : redactCredentialData heap n value keyHint = some out) :
    redactCredentialData heap n out keyHint = some out := by
  induction n generalizing value keyHint out with
  | zero => exact absurd h (Option.some_ne_none out).symm
  | succ n ih =>
    by_cases hcred : isCredential keyHint = true
    · obtain rfl := redact_of_credential h hcred
      exact redact_credential hcred
    · rw [redact_eq hcred] at h ⊢
      rcases hshape : shape heap value with _ | _ | t | _ | items | entries | entries
      all_goals rw [hshape] at h
      case text =>
        obtain rfl := Option.some.inj h
        exact congrArg (fun t => some (Value.string t)) (redactEmbeddedCredentialText_idem t)
      case bytes =>
        obtain rfl := Option.some.inj h
        exact congrArg (fun t => some (Value.string t))
          (redactEmbeddedCredentialText_of_clean hasRun_redactedPlaceholder)
      case array =>
        obtain ⟨items, rfl, h⟩ := Option.bind_eq_some_iff.mp h
        obtain ⟨outs, houts, rfl⟩ := Option.map_eq_some_iff.mp h
        have hagain : outs.mapM (fun entry => redactCredentialData heap n entry none) = some outs := by
          refine Partial.mapM_eq_some.mpr (List.forall₂_same.mpr fun o ho => ?_)
          obtain ⟨entry, -, hentry⟩ := Partial.exists_left (Partial.mapM_eq_some.mp houts) o ho
          exact ih hentry
        show Option.map Value.array (outs.mapM fun entry => redactCredentialData heap n entry none) = _
        rw [hagain]
        rfl
      case object =>
        obtain ⟨entries, rfl, h⟩ := Option.bind_eq_some_iff.mp h
        obtain ⟨outs, houts, rfl⟩ := Option.map_eq_some_iff.mp h
        have hagain : (assigned outs).mapM (fun e : Key × Value =>
            (redactCredentialData heap n e.2 (some e.1)).map (Prod.mk e.1)) = some (assigned outs) := by
          refine Partial.mapM_eq_some.mpr (List.forall₂_same.mpr fun o ho => ?_)
          obtain ⟨e, -, he⟩ := Partial.exists_left (Partial.mapM_eq_some.mp houts) o (mem_assigned.mp ho).1
          obtain ⟨w, hw, rfl⟩ := Option.map_eq_some_iff.mp he
          exact congrArg (Option.map (Prod.mk e.1)) (ih hw)
        have hassigned : assigned (assigned outs) = assigned outs := by
          rw [assigned, List.filter_eq_self]
          exact fun e he => decide_eq_true (mem_assigned.mp he).2
        show Option.map (fun out => Value.object (assigned out)) ((assigned outs).mapM fun e =>
          (redactCredentialData heap n e.2 (some e.1)).map (Prod.mk e.1)) = _
        rw [hagain, Option.map_some, hassigned]
      all_goals
        obtain rfl := Option.some.inj h
        rw [hshape]

end Walk

/-- An object that contains itself is walked for ever: no number of frames is enough. -/
theorem not_ends_of_cycle {frames d e : ℕ} {spot loop : Spot} (h : Reach.Met (walked heap) spot d loop)
    (hloop : Reach.Met (walked heap) loop (e + 1) loop) : ¬ Ends heap frames spot := by
  intro hends
  obtain ⟨m, hm, hmet⟩ := Reach.met_cycle hloop frames
  have hframes := (hends _ _ (h.trans hmet)).1
  omega

/-! ## Reports -/

namespace Value

def truthy : Value → Bool
  | undefined | null => false
  | bool b => b
  | number x | element (.number x) => decide (x ≠ .finite 0 ∧ x ≠ .nan)
  | bigint n | element (.bigint n) => decide (n ≠ 0)
  | string t => decide (t ≠ [])
  | symbol _ | ref _ | array _ | object _ => true

def isText : Value → Bool
  | string _ => true
  | _ => false

/-- `value || fallback` -/
def or (value : Value) (fallback : String) : Value := if value.truthy then value else .string (text fallback)

end Value

/-- `redactEmbeddedCredentialText` of what may be no text: then it has no `replace`. -/
def redactText : Value → Option Value
  | .string t => some (.string (redactEmbeddedCredentialText t))
  | _ => none

/-- `stack ? redactEmbeddedCredentialText(stack) : stack` -/
def redactStack (stack : Value) : Option Value := if stack.truthy then redactText stack else some stack

/-- What reading the fields of an error gives, or `none` where it throws. -/
structure ErrorFields where
  message : Option Value
  name : Option Value
  stack : Option Value

inductive Thrown where
  /-- An instance of `Error`. -/
  | error (fields : ErrorFields)
  | value (v : Value)

/-- `new Date().toISOString()` -/
structure Timestamp where
  text : Text
  length_le : text.length ≤ 27

structure Runtime where
  heap : ℕ → Cell
  frames : ℕ
  /-- `String(v)` of what is not a text. -/
  stringOf : Value → Option Text
  /-- The stack of an error made here with a message. -/
  stackAt : Text → Text
  now : Timestamp

structure Reporter where
  extensionVersion : Text
  browserInfo : Text

structure Payload where
  name : Value
  message : Value
  stack : Value
  context : Value
  timestamp : Timestamp

/-- `error instanceof Error ? error : new Error(String(error ?? "Unknown Error"))` -/
def Runtime.errObj (rt : Runtime) : Thrown → Option ErrorFields
  | .error fields => some fields
  | .value v => (match v with
      | .undefined | .null => some (text "Unknown Error")
      | .string t => some t
      | v => rt.stringOf v).map fun message =>
        ⟨some (.string message), some (.string (text "Error")), some (.string (rt.stackAt message))⟩

/-- `fields[key] = value` -/
def assign (fields : List (Key × Value)) (e : Key × Value) : List (Key × Value) :=
  if fields.any fun f => f.1 = e.1 then fields.map fun f => if f.1 = e.1 then e else f else fields ++ [e]

def Reporter.rawContext (reporter : Reporter) (additional : List (Key × Value)) : Value :=
  .object (additional.foldl assign
    [(text "extensionVersion", .string reporter.extensionVersion), (text "browserInfo", .string reporter.browserInfo)])

/-- The payload of a report, unless making it throws.  The additional context is what spreading it reads. -/
def payload (rt : Runtime) (reporter : Reporter) (error : Thrown) (additionalContext : Option (List (Key × Value))) :
    Option Payload := do
  let errObj ← rt.errObj error
  let rawMessage ← errObj.message
  let additional ← additionalContext
  let name ← errObj.name
  let message ← redactText (rawMessage.or "An unknown error occurred")
  let rawStack ← errObj.stack
  let stack ← redactStack rawStack
  let context ← redactCredentialData rt.heap rt.frames (reporter.rawContext additional) none
  some ⟨name.or "Error", message, stack, context, rt.now⟩

/-- What `client.send` does. -/
inductive Sending where
  | resolves
  | throws
  | pending
deriving DecidableEq

inductive Outcome where
  | resolved (payload : Payload)
  | rejected
  | pending

structure Report where
  /-- What the client was handed. -/
  handed : Option Payload
  outcome : Outcome

def reportError (rt : Runtime) (reporter : Reporter) (error : Thrown)
    (additionalContext : Option (List (Key × Value))) (sending : Sending) : Report :=
  match payload rt reporter error additionalContext with
  | none => ⟨none, .rejected⟩
  | some p => match sending with
    | .resolves | .throws => ⟨some p, .resolved p⟩
    | .pending => ⟨some p, .pending⟩

/-! ### What a report promises -/

namespace Payload

structure Clean (heap : ℕ → Cell) (p : Payload) : Prop where
  name : ErrorReporter.Clean heap p.name
  message : ErrorReporter.Clean heap p.message
  stack : ErrorReporter.Clean heap p.stack
  context : ErrorReporter.Clean heap p.context
  timestamp : hasRun p.timestamp.text = false

def retext : Value → Value
  | .string t => .string (redactEmbeddedCredentialText t)
  | value => value

/-- The payload redacted a second time. -/
def redacted (heap : ℕ → Cell) (frames : ℕ) (p : Payload) : Option Payload :=
  (redactCredentialData heap frames p.context none).map fun context =>
    { p with name := retext p.name, message := retext p.message, stack := retext p.stack, context := context }

end Payload

/-- The report resolves, and what the client was handed is clean and stays as it is. -/
def Contained (rt : Runtime) (report : Report) : Prop :=
  ∃ p, report = ⟨some p, .resolved p⟩ ∧ p.Clean rt.heap ∧ p.redacted rt.heap rt.frames = some p

/-- An error whose message and stack are texts, if anything, and whose name holds no credential. -/
structure ErrorFields.Plain (heap : ℕ → Cell) (fields : ErrorFields) : Prop where
  message : ∃ m, fields.message = some m ∧ (m.truthy = true → m.isText = true)
  name : ∃ m, fields.name = some m ∧ (m.truthy = true → Clean heap m)
  stack : ∃ m, fields.stack = some m ∧ (m.truthy = true → m.isText = true) ∧ shape heap m ≠ .element

/-- The error is plain, the context can be walked and is tame, and the client answers. -/
structure Reportable (rt : Runtime) (reporter : Reporter) (error : Thrown)
    (additionalContext : Option (List (Key × Value))) (sending : Sending) : Prop where
  error : ∃ fields, rt.errObj error = some fields ∧ fields.Plain rt.heap
  context : ∃ additional, additionalContext = some additional ∧
    Ends rt.heap rt.frames (none, reporter.rawContext additional) ∧
    Tame rt.heap (none, reporter.rawContext additional)
  sending : sending ≠ .pending

section Reports

variable {rt : Runtime} {reporter : Reporter} {error : Thrown} {additionalContext : Option (List (Key × Value))}
  {sending : Sending} {p : Payload}

theorem redactText_eq_some {v w : Value} :
    redactText v = some w ↔ ∃ t, v = .string t ∧ w = .string (redactEmbeddedCredentialText t) := by
  cases v <;> simp [redactText, eq_comm]

theorem isText_iff {v : Value} : v.isText = true ↔ ∃ t, v = .string t := by
  cases v <;> simp [Value.isText]

theorem clean_redactText {v w : Value} (h : redactText v = some w) : Clean heap w := by
  obtain ⟨t, -, rfl⟩ := redactText_eq_some.mp h
  exact clean_string.mpr (hasRun_redactEmbeddedCredentialText t)

theorem exists_redactText_or {v : Value} {fallback : String} :
    (∃ w, redactText (v.or fallback) = some w) ↔ (v.truthy = true → v.isText = true) := by
  by_cases hv : v.truthy = true
  · rw [Value.or, if_pos hv]
    simp [redactText_eq_some, isText_iff, hv]
  · rw [Value.or, if_neg hv]
    exact iff_of_true ⟨_, rfl⟩ fun h => absurd h hv

theorem clean_of_falsy {v : Value} (hv : v.truthy = false) (helement : shape heap v ≠ .element) : Clean heap v := by
  cases v with
  | element x => exact absurd rfl helement
  | string t =>
    obtain rfl : t = [] := by simpa [Value.truthy] using hv
    exact clean_string.mpr rfl
  | symbol | ref | array | object => simp [Value.truthy] at hv
  | _ => exact clean_of_atom rfl

theorem retext_of_clean {v : Value} (h : Clean heap v) : Payload.retext v = v := by
  cases v with
  | string t => exact congrArg Value.string (redactEmbeddedCredentialText_of_clean (clean_string.mp h))
  | _ => rfl

theorem clean_or_iff {v : Value} :
    Clean heap (v.or "Error") ↔ (v.truthy = true → Clean heap v) := by
  by_cases hv : v.truthy = true
  · rw [Value.or, if_pos hv]
    exact ⟨fun h _ => h, fun h => h hv⟩
  · rw [Value.or, if_neg hv]
    exact iff_of_true (clean_string.mpr (by decide)) fun h => absurd h hv

theorem Payload.Clean.redacted {frames : ℕ} (h : p.Clean heap)
    (hcontext : redactCredentialData heap frames p.context none = some p.context) :
    p.redacted heap frames = some p := by
  rw [Payload.redacted, hcontext, Option.map_some, retext_of_clean h.name, retext_of_clean h.message,
    retext_of_clean h.stack]

theorem payload_eq_some :
    payload rt reporter error additionalContext = some p ↔
      ∃ fields message name stack additional, rt.errObj error = some fields ∧ fields.message = some message ∧
        fields.name = some name ∧ fields.stack = some stack ∧ additionalContext = some additional ∧
        p.name = name.or "Error" ∧ redactText (message.or "An unknown error occurred") = some p.message ∧
        redactStack stack = some p.stack ∧
        redactCredentialData rt.heap rt.frames (reporter.rawContext additional) none = some p.context ∧
        p.timestamp = rt.now := by
  constructor
  · intro h
    obtain ⟨fields, hfields, h⟩ := Option.bind_eq_some_iff.mp h
    obtain ⟨message, hmessage, h⟩ := Option.bind_eq_some_iff.mp h
    obtain ⟨additional, hadditional, h⟩ := Option.bind_eq_some_iff.mp h
    obtain ⟨name, hname, h⟩ := Option.bind_eq_some_iff.mp h
    obtain ⟨message', hmessage', h⟩ := Option.bind_eq_some_iff.mp h
    obtain ⟨stack, hstack, h⟩ := Option.bind_eq_some_iff.mp h
    obtain ⟨stack', hstack', h⟩ := Option.bind_eq_some_iff.mp h
    obtain ⟨context, hcontext, h⟩ := Option.bind_eq_some_iff.mp h
    obtain rfl := Option.some.inj h
    exact ⟨fields, message, name, stack, additional, hfields, hmessage, hname, hstack, hadditional, rfl, hmessage',
      hstack', hcontext, rfl⟩
  · rintro ⟨fields, message, name, stack, additional, hfields, hmessage, hname, hstack, rfl, hname', hmessage',
      hstack', hcontext, htime⟩
    obtain ⟨pname, pmessage, pstack, pcontext, ptime⟩ := p
    obtain rfl := hname'
    obtain rfl := htime
    simp only [payload, hfields, hmessage, hname, hstack, hmessage', hstack', hcontext, Option.bind_eq_bind,
      Option.bind_some]

theorem reportError_eq_resolved :
    reportError rt reporter error additionalContext sending = ⟨some p, .resolved p⟩ ↔
      payload rt reporter error additionalContext = some p ∧ sending ≠ .pending := by
  rw [reportError]
  rcases payload rt reporter error additionalContext with _ | q
  · simp
  · cases sending <;> simp

theorem exists_redactStack_iff {stack : Value} :
    (∃ w, redactStack stack = some w ∧ Clean heap w) ↔
      (stack.truthy = true → stack.isText = true) ∧ shape heap stack ≠ .element := by
  by_cases hstack : stack.truthy = true
  · rw [redactStack, if_pos hstack]
    constructor
    · rintro ⟨w, hw, -⟩
      obtain ⟨t, rfl, -⟩ := redactText_eq_some.mp hw
      exact ⟨fun _ => rfl, Shape.noConfusion⟩
    · rintro ⟨htext, -⟩
      obtain ⟨t, rfl⟩ := isText_iff.mp (htext hstack)
      exact ⟨_, rfl, clean_string.mpr (hasRun_redactEmbeddedCredentialText t)⟩
  · rw [redactStack, if_neg hstack]
    constructor
    · rintro ⟨w, hw, hclean⟩
      obtain rfl := Option.some.inj hw
      exact ⟨fun h => absurd h hstack, fun helement => not_clean_of_element helement hclean⟩
    · rintro ⟨-, helement⟩
      exact ⟨stack, rfl, clean_of_falsy (Bool.not_eq_true _ ▸ hstack) helement⟩

/-- When a report resolves, and leaks nothing. -/
theorem contained_iff :
    Contained rt (reportError rt reporter error additionalContext sending) ↔
      Reportable rt reporter error additionalContext sending := by
  constructor
  · rintro ⟨p, hreport, hclean, -⟩
    obtain ⟨hpayload, hsending⟩ := reportError_eq_resolved.mp hreport
    obtain ⟨fields, message, name, stack, additional, hfields, hmessage, hname, hstack, hadditional, hname',
      hmessage', hstack', hcontext, -⟩ := payload_eq_some.mp hpayload
    have hplain : fields.Plain rt.heap := {
      message := ⟨message, hmessage, exists_redactText_or.mp ⟨_, hmessage'⟩⟩
      name := ⟨name, hname, clean_or_iff.mp (hname' ▸ hclean.name)⟩
      stack := ⟨stack, hstack, exists_redactStack_iff.mp ⟨_, hstack', hclean.stack⟩⟩ }
    have htame := (clean_redact_iff hcontext).mp ⟨fun key hkey => (nomatch hkey), hclean.context⟩
    exact ⟨⟨fields, hfields, hplain⟩, ⟨additional, hadditional, exists_redact_iff.mp ⟨_, hcontext⟩, htame⟩, hsending⟩
  · rintro ⟨⟨fields, hfields, hplain⟩, ⟨additional, hadditional, hends, htame⟩, hsending⟩
    obtain ⟨message, hmessage, htext⟩ := hplain.message
    obtain ⟨name, hname, hcleanName⟩ := hplain.name
    obtain ⟨stack, hstack, hcleanStack⟩ := hplain.stack
    obtain ⟨message', hmessage'⟩ := exists_redactText_or.mpr htext
    obtain ⟨stack', hstack', hstackClean⟩ := exists_redactStack_iff.mpr hcleanStack
    obtain ⟨context, hcontext⟩ := exists_redact_iff.mpr hends
    have hpayload : payload rt reporter error additionalContext =
        some ⟨name.or "Error", message', stack', context, rt.now⟩ :=
      payload_eq_some.mpr ⟨fields, message, name, stack, additional, hfields, hmessage, hname, hstack, hadditional,
        rfl, hmessage', hstack', hcontext, rfl⟩
    have hclean : Payload.Clean rt.heap ⟨name.or "Error", message', stack', context, rt.now⟩ := {
      name := clean_or_iff.mpr hcleanName
      message := clean_redactText hmessage'
      stack := hstackClean
      context := ((clean_redact_iff hcontext).mpr htame).2
      timestamp := LongRuns.hasRun_of_length (rt.now.length_le.trans_lt (by omega)) }
    exact ⟨_, reportError_eq_resolved.mpr ⟨hpayload, hsending⟩, hclean, hclean.redacted (redact_redact hcontext)⟩

/-- A report whose context contains itself never resolves, whatever the stack and the client. -/
theorem not_contained_of_cycle {additional : List (Key × Value)} {loop : Spot} {d e : ℕ}
    (h : Reach.Met (walked rt.heap) (none, reporter.rawContext additional) d loop)
    (hloop : Reach.Met (walked rt.heap) loop (e + 1) loop) :
    ¬ Contained rt (reportError rt reporter error (some additional) sending) := by
  rintro ⟨p, hreport, -⟩
  obtain ⟨hpayload, -⟩ := reportError_eq_resolved.mp hreport
  obtain ⟨-, -, -, -, _, -, -, -, -, hadditional, -, -, -, hcontext, -⟩ := payload_eq_some.mp hpayload
  obtain rfl := Option.some.inj hadditional
  exact not_ends_of_cycle h hloop (exists_redact_iff.mp ⟨_, hcontext⟩)

end Reports

/-! ### An error whose name is a credential -/

/-- A runtime with one object, a buffer. -/
def plainRuntime : Runtime where
  heap := fun _ => .bytes
  frames := 8
  stringOf := fun _ => none
  stackAt := id
  now := ⟨text "2026-01-01T00:00:00.000Z", by decide⟩

def plainReporter : Reporter := ⟨text "0.1.0", text "Mozilla/5.0"⟩

def credentialId : Text := text "QWxhZGRpbjpvcGVuIHNlc2FtZQxyz_-ABCxyz_-ABC"

theorem name_leaked :
    ¬ Contained plainRuntime (reportError plainRuntime plainReporter
      (.error ⟨some (.string (text "assertion failed")), some (.string credentialId), some .undefined⟩) (some [])
      .resolves) := by
  rintro ⟨p, hreport, hclean, -⟩
  obtain ⟨hpayload, -⟩ := reportError_eq_resolved.mp hreport
  obtain ⟨fields, -, name, -, -, hfields, -, hname, -, -, hname', -⟩ := payload_eq_some.mp hpayload
  obtain rfl := Option.some.inj hfields
  obtain rfl := Option.some.inj hname
  have hleak : hasRun credentialId = true := by decide
  have hkept : (Value.string credentialId).or "Error" = .string credentialId := rfl
  have hcleanName : Clean plainRuntime.heap (.string credentialId) := by
    rw [← hkept, ← hname']
    exact hclean.name
  have hfree := clean_string.mp hcleanName
  rw [hleak] at hfree
  exact Bool.noConfusion hfree

example : redactCredentialData plainRuntime.heap 3 (.object [(text "data", .ref 0), (text "n", .number (.finite 1))])
    none = some (.object [(text "data", .string redactedPlaceholder), (text "n", .number (.finite 1))]) := by
  rfl

end Vellar.Extension.ErrorReporter
