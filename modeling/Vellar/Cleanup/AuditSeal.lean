import Vellar.Cleanup.AuditWalk

/-!
# Vellar.Cleanup.AuditSeal — when redaction leaves no secret key

The data of a known event are copied by name, those of any other are walked.  `sealed_iff`: when no secret key gets
through, and of the plan's addresses only their hashes.
-/

set_option autoImplicit false

namespace Vellar.Cleanup.AuditRedaction

open Reach
open WebText (Text text)

section Model

variable {n : ℕ} {heap : Heap n} {seen : Seen n} {trees : List (Tree n)}

/-! ## Events -/

/-- A type of event whose data are copied by name. -/
def isKnown (type : Text) : Bool := decide (type ∈ inspectTypes ++ planTypes ++ executeTypes ++ mergeTypes)

section Events

variable (heap) (event : AuditEvent n)

/-- The parts of what is made of the data of an unknown event. -/
def dataParts : List (Key × Slot n) := if isKnown event.type then [] else unknownParts (heap event.data)

/-- An error that is not among them is attached to them. -/
def attachesError : Bool :=
  !((heap event.data).get (text "error")).isUndefined &&
    (((dataParts heap event).lookup (text "error")).map Slot.isUndefined).getD true

def eventParts : List (Key × Slot n) :=
  dataParts heap event ++
    if attachesError heap event then [(text "error", .walk ((heap event.data).get (text "error")))] else []

/-- The types of the blockers of a plan. -/
def planTexts : Value n → List Text
  | .ref id => match (heap id).get (text "blockers") with
    | .ref blockers => ((heap blockers).items.map (extractBlockerTypes heap)).getD []
    | _ => []
  | _ => []

/-- A value's text. -/
def Value.texts : Value n → List Text
  | .string t => [t]
  | _ => []

/-- The title and the hash of a step. -/
def stepTexts : Value n → List Text
  | .ref id => ((heap id).get (text "title")).texts ++ ((heap id).get (text "hash")).texts
  | _ => []

def stepsTexts : Value n → List Text
  | .ref steps => ((heap steps).items.getD []).flatMap (stepTexts heap)
  | _ => []

/-- The texts of the data of a known event that are copied. -/
def copiedTexts : List Text :=
  let data := heap event.data
  if event.type ∈ inspectTypes then []
  else if event.type ∈ planTypes then planTexts heap (data.get (text "plan"))
  else if event.type ∈ executeTypes then
    planTexts heap (data.get (text "plan")) ++ stepsTexts heap (data.get (text "steps"))
  else if event.type ∈ mergeTypes then stepTexts heap (data.get (text "step"))
  else []

/-- The addresses of the plan. -/
def planAddresses : List Text :=
  match (heap event.data).get (text "plan") with
  | .ref id => ((heap id).get (text "accountId")).texts ++ ((heap id).get (text "destination")).texts
  | _ => []

end Events

theorem holds_object {fields : List (Key × Tree n)} {o : Origin} {s : Text} :
    (Tree.object fields).Holds heap o s ↔ ∃ field ∈ fields, field.2.Holds heap o s := by
  constructor
  · rintro (_ | _ | _ | ⟨hmem, htree⟩)
    exact ⟨_, hmem, htree⟩
  · rintro ⟨⟨key, tree⟩, hmem, htree⟩
    exact .field hmem htree

theorem holds_array {items : List (Tree n)} {o : Origin} {s : Text} :
    (Tree.array items).Holds heap o s ↔ ∃ tree ∈ items, tree.Holds heap o s := by
  constructor
  · rintro (_ | _ | ⟨hmem, htree⟩ | _)
    exact ⟨_, hmem, htree⟩
  · rintro ⟨tree, hmem, htree⟩
    exact .item hmem htree

theorem holds_texts {make : Text → Tree n} {o : Origin} {texts : List Text} {s : Text} :
    (Tree.array (texts.map make)).Holds heap o s ↔ ∃ t ∈ texts, (make t).Holds heap o s := by
  simp only [holds_array, List.mem_map, exists_exists_and_eq_and]

theorem holds_textField {key : Key} {make : Text → Tree n} {v : Value n} {o : Origin} {s : Text} :
    (∃ field ∈ textField key make v, field.2.Holds heap o s) ↔ ∃ t ∈ v.texts, (make t).Holds heap o s := by
  cases v <;> simp [textField, Value.texts]

theorem holds_stringValue {t s : Text} : (Tree.value (.string t) : Tree n).Holds heap .event s ↔ s = t :=
  holds_value.trans holds_string

/-- Numbers and booleans hold no text. -/
theorem not_holds_number {x : JsNumber} {s : Text} : ¬ (Value.number x : Value n).Holds heap s := by
  rintro ⟨⟩

theorem not_holds_bool {b : Bool} {s : Text} : ¬ (Value.bool b : Value n).Holds heap s := by
  rintro ⟨⟩

theorem holds_numberField {key : Key} {v : Value n} {s : Text} :
    ¬ ∃ field ∈ numberField key v, field.2.Holds heap .event s := by
  rintro ⟨field, hfield, h⟩
  cases v
  case number x =>
    rw [List.mem_singleton.mp hfield] at h
    exact not_holds_number (holds_value.mp h)
  all_goals exact absurd hfield List.not_mem_nil

theorem holds_boolField {key : Key} {v : Value n} {s : Text} :
    ¬ ∃ field ∈ boolField key v, field.2.Holds heap .event s := by
  rintro ⟨field, hfield, h⟩
  cases v
  case bool b =>
    rw [List.mem_singleton.mp hfield] at h
    exact not_holds_bool (holds_value.mp h)
  all_goals exact absurd hfield List.not_mem_nil

theorem exists_mem_append_iff {α : Type*} {p : α → Prop} {l m : List α} :
    (∃ a ∈ l ++ m, p a) ↔ (∃ a ∈ l, p a) ∨ ∃ a ∈ m, p a := by
  simp only [List.mem_append, or_and_right, exists_or]

theorem holds_redactStep (v : Value n) (s : Text) :
    (Tree.object (redactStep heap v)).Holds heap .event s ↔ s ∈ stepTexts heap v := by
  rw [holds_object]
  cases v
  case ref id =>
    rw [redactStep, exists_mem_append_iff, holds_textField, holds_textField, stepTexts, List.mem_append]
    simp only [holds_stringValue, exists_eq_right']
  all_goals exact iff_of_false (by rintro ⟨_, h, -⟩; exact absurd h List.not_mem_nil) List.not_mem_nil

theorem holds_redactPlan (salt : Text) (v : Value n) (s : Text) :
    (Tree.object (redactPlan heap salt v)).Holds heap .event s ↔ s ∈ planTexts heap v := by
  rw [holds_object]
  cases v
  case ref id =>
    rw [redactPlan, planTexts, exists_mem_append_iff, exists_mem_append_iff, exists_mem_append_iff,
      exists_mem_append_iff, holds_textField, holds_textField]
    have hrefs : ∀ texts : List Text, ¬ ∃ t ∈ texts,
        (Tree.written (hashForRedaction t salt) : Tree n).Holds heap .event s := by
      rintro texts ⟨t, -, h⟩
      exact holds_written h
    simp only [hrefs, holds_numberField, holds_boolField, false_or]
    cases (heap id).get (text "blockers")
    case ref blockers =>
      dsimp only
      rcases (heap blockers).items with _ | items
      · simp
      · rw [List.exists_mem_cons_iff, List.exists_mem_cons_iff]
        simp [holds_texts, holds_value, holds_string, not_holds_number]
    all_goals simp
  all_goals exact iff_of_false (by rintro ⟨_, h, -⟩; exact absurd h List.not_mem_nil) List.not_mem_nil

/-- Without a step or a plan there is nothing to copy. -/
theorem texts_of_not_truthy {v : Value n} (h : ¬ v.truthy = true) : planTexts heap v = [] ∧ stepTexts heap v = [] := by
  cases v
  case ref id => exact absurd rfl h
  all_goals exact ⟨rfl, rfl⟩

theorem holds_planField (salt : Text) (data : Object n) (s : Text) :
    (∃ field ∈ planField heap salt data, field.2.Holds heap .event s) ↔
      s ∈ planTexts heap (data.get (text "plan")) := by
  rw [planField]
  by_cases h : (data.get (text "plan")).truthy = true
  · rw [if_pos h, ← holds_redactPlan salt]
    simp
  · rw [if_neg h, (texts_of_not_truthy h).1]
    simp

theorem holds_stepField (data : Object n) (s : Text) :
    (∃ field ∈ stepField heap data, field.2.Holds heap .event s) ↔ s ∈ stepTexts heap (data.get (text "step")) := by
  rw [stepField]
  by_cases h : (data.get (text "step")).truthy = true
  · rw [if_pos h, ← holds_redactStep]
    simp
  · rw [if_neg h, (texts_of_not_truthy h).2]
    simp

theorem holds_stepsField (data : Object n) (s : Text) :
    (∃ field ∈ stepsField heap data, field.2.Holds heap .event s) ↔ s ∈ stepsTexts heap (data.get (text "steps")) := by
  rw [stepsField]
  generalize data.get (text "steps") = v
  cases v
  case ref steps =>
    rw [stepsTexts]
    dsimp only
    rcases (heap steps).items with _ | items
    · simp
    · simp [holds_array, holds_redactStep]
  all_goals simp [stepsTexts]

theorem knownFields_eq_none {type salt : Text} {data : Object n} :
    knownFields heap type salt data = none ↔ isKnown type = false := by
  rw [knownFields, isKnown, decide_eq_false_iff_not]
  simp only [List.mem_append]
  split_ifs <;> simp [*]

/-- What the data of a known event hold of the event's texts. -/
theorem holds_knownFields {event : AuditEvent n} {salt : Text} {fields : List (Key × Tree n)}
    (h : knownFields heap event.type salt (heap event.data) = some fields) (s : Text) :
    (∃ field ∈ fields, field.2.Holds heap .event s) ↔ s ∈ copiedTexts heap event := by
  rw [knownFields] at h
  rw [copiedTexts]
  split_ifs at h ⊢
  · obtain rfl := Option.some.inj h
    simp
  · obtain rfl := Option.some.inj h
    exact holds_planField salt _ s
  · obtain rfl := Option.some.inj h
    rw [exists_mem_append_iff, holds_planField, holds_stepsField, List.mem_append]
  · obtain rfl := Option.some.inj h
    exact holds_stepField _ s

theorem length_hashForRedaction (value salt : Text) : (hashForRedaction value salt).length ≤ 12 := by
  rw [hashForRedaction, List.length_take]
  exact min_le_left _ _

/-! ### What redaction writes -/

/-- A text with a secret key is as long as one. -/
theorem not_hasSecret_of_length {t : Text} (h : t.length < 56) : ¬ HasSecret t := by
  rintro ⟨pre, run, post, hrun⟩
  have hparts := congrArg List.length hrun.parts
  have hlength := hrun.length
  rw [List.length_append, List.length_append] at hparts
  omega

theorem length_marks : ∀ t ∈ marks, t.length < 56 := by decide +kernel

variable (heap) in
/-- No text that redaction writes is long. -/
def Short (tree : Tree n) : Prop := ∀ t, tree.Holds heap .redaction t → t.length < 56

theorem short_value (v : Value n) : Short heap (.value v) := fun _ ht => absurd ht value_written

theorem short_object {fields : List (Key × Tree n)} (h : ∀ field ∈ fields, Short heap field.2) :
    Short heap (.object fields) := by
  intro t ht
  obtain ⟨field, hfield, hholds⟩ := holds_object.mp ht
  exact h field hfield t hholds

theorem short_array {items : List (Tree n)} (h : ∀ tree ∈ items, Short heap tree) : Short heap (.array items) := by
  intro t ht
  obtain ⟨tree, htree, hholds⟩ := holds_array.mp ht
  exact h tree htree t hholds

theorem short_textField {key : Key} {make : Text → Tree n} (h : ∀ t, Short heap (make t)) (v : Value n) :
    ∀ field ∈ textField key make v, Short heap field.2 := by
  intro field hfield
  cases v
  case string t =>
    rw [List.mem_singleton.mp hfield]
    exact h t
  all_goals exact absurd hfield List.not_mem_nil

theorem short_numberField {key : Key} (v : Value n) : ∀ field ∈ numberField key v, Short heap field.2 := by
  intro field hfield
  cases v
  case number x =>
    rw [List.mem_singleton.mp hfield]
    exact short_value _
  all_goals exact absurd hfield List.not_mem_nil

theorem short_boolField {key : Key} (v : Value n) : ∀ field ∈ boolField key v, Short heap field.2 := by
  intro field hfield
  cases v
  case bool b =>
    rw [List.mem_singleton.mp hfield]
    exact short_value _
  all_goals exact absurd hfield List.not_mem_nil

theorem short_redactStep (v : Value n) : Short heap (.object (redactStep heap v)) := by
  refine short_object fun field hfield => ?_
  cases v
  case ref id =>
    rcases List.mem_append.mp hfield with hfield | hfield
    · exact short_textField (fun t => short_value _) _ field hfield
    · exact short_textField (fun t => short_value _) _ field hfield
  all_goals exact absurd hfield List.not_mem_nil

theorem short_redactPlan (salt : Text) (v : Value n) : Short heap (.object (redactPlan heap salt v)) := by
  have hhash : ∀ t, Short heap (.written (hashForRedaction t salt) : Tree n) := by
    intro t s hs
    rw [written_mem hs]
    exact (length_hashForRedaction t salt).trans_lt (by omega)
  refine short_object fun field hfield => ?_
  cases v
  case ref id =>
    rw [redactPlan] at hfield
    simp only [List.mem_append] at hfield
    rcases hfield with (((hfield | hfield) | hfield) | hfield) | hfield
    · exact short_textField hhash _ field hfield
    · exact short_textField hhash _ field hfield
    · exact short_numberField _ field hfield
    · exact short_boolField _ field hfield
    · split at hfield
      · split at hfield
        · rcases List.mem_cons.mp hfield with rfl | hfield
          · refine short_array fun tree htree => ?_
            obtain ⟨t, -, rfl⟩ := List.mem_map.mp htree
            exact short_value _
          · rw [List.mem_singleton.mp hfield]
            exact short_value _
        · exact absurd hfield List.not_mem_nil
      · exact absurd hfield List.not_mem_nil
  all_goals exact absurd hfield List.not_mem_nil

theorem short_knownFields {type salt : Text} {data : Object n} {fields : List (Key × Tree n)}
    (h : knownFields heap type salt data = some fields) : ∀ field ∈ fields, Short heap field.2 := by
  have hplan : ∀ field ∈ planField heap salt data, Short heap field.2 := by
    intro field hfield
    rw [planField] at hfield
    split_ifs at hfield
    · rw [List.mem_singleton.mp hfield]
      exact short_redactPlan salt _
    · exact absurd hfield List.not_mem_nil
  have hsteps : ∀ field ∈ stepsField heap data, Short heap field.2 := by
    intro field hfield
    rw [stepsField] at hfield
    split at hfield
    · split at hfield
      · rw [List.mem_singleton.mp hfield]
        refine short_array fun tree htree => ?_
        obtain ⟨step, -, rfl⟩ := List.mem_map.mp htree
        exact short_redactStep step
      · exact absurd hfield List.not_mem_nil
    · exact absurd hfield List.not_mem_nil
  have hstep : ∀ field ∈ stepField heap data, Short heap field.2 := by
    intro field hfield
    rw [stepField] at hfield
    split_ifs at hfield
    · rw [List.mem_singleton.mp hfield]
      exact short_redactStep _
    · exact absurd hfield List.not_mem_nil
  rw [knownFields] at h
  intro field hfield
  split_ifs at h
  · obtain rfl := Option.some.inj h
    exact absurd hfield List.not_mem_nil
  · obtain rfl := Option.some.inj h
    exact hplan field hfield
  · obtain rfl := Option.some.inj h
    rcases List.mem_append.mp hfield with hfield | hfield
    · exact hplan field hfield
    · exact hsteps field hfield
  · obtain rfl := Option.some.inj h
    exact hstep field hfield

/-! ### Results -/

section Results

variable {event : AuditEvent n} {salt : Text} {frames : ℕ}

theorem lookup_assigned {parts : List (Key × Slot n)} (h : List.Forall₂ (Fits heap) (parts.map Prod.snd) trees)
    {key : Key} (hkey : key ≠ proto) :
    ((assigned ((parts.map Prod.fst).zip trees)).lookup key).map Tree.isUndefined =
      (parts.lookup key).map Slot.isUndefined := by
  induction parts generalizing trees with
  | nil =>
    rcases trees with _ | ⟨tree, trees⟩
    · rfl
    · exact absurd h (by simp)
  | cons part parts ih =>
    obtain ⟨k, slot⟩ := part
    rcases trees with _ | ⟨tree, trees⟩
    · exact absurd h (by simp)
    · obtain ⟨hfits, hrest⟩ := List.forall₂_cons.mp h
      rw [List.map_cons, List.zip_cons_cons, assigned, List.filter_cons]
      by_cases hk : key = k
      · subst hk
        have hstays : (decide (key ≠ proto) || tree.isMade) = true := by rw [decide_eq_true hkey, Bool.true_or]
        rw [if_pos hstays, List.lookup_cons_self, List.lookup_cons_self, Option.map_some, Option.map_some,
          hfits.undefined]
      · have hne : (key == k) = false := beq_eq_false_iff_ne.mpr hk
        rw [List.lookup_cons, hne]
        split_ifs
        · rw [List.lookup_cons, hne]
          exact ih hrest
        · exact ih hrest

theorem lookup_error_knownFields {type : Text} {data : Object n} {fields : List (Key × Tree n)}
    (h : knownFields heap type salt data = some fields) : fields.lookup (text "error") = none := by
  have hplan : ∀ rest : List (Key × Tree n),
      (planField heap salt data ++ rest).lookup (text "error") = rest.lookup (text "error") := by
    intro rest
    rw [planField]
    split_ifs
    · rfl
    · rfl
  have hsteps : (stepsField heap data).lookup (text "error") = none := by
    rw [stepsField]
    split
    · split <;> rfl
    · rfl
  have hstep : (stepField heap data).lookup (text "error") = none := by
    rw [stepField]
    split_ifs <;> rfl
  rw [knownFields] at h
  split_ifs at h
  · obtain rfl := Option.some.inj h
    rfl
  · obtain rfl := Option.some.inj h
    have hnil := hplan []
    rwa [List.append_nil] at hnil
  · obtain rfl := Option.some.inj h
    rw [hplan, hsteps]
  · obtain rfl := Option.some.inj h
    exact hstep

theorem redactedData_spec {fields : List (Key × Tree n)}
    (h : redactedData heap frames event.type salt (heap event.data) = some (fields, seen)) :
    ∃ trees, Filled heap ∅ ((dataParts heap event).map Prod.snd) trees seen ∧
      fields = (knownFields heap event.type salt (heap event.data)).getD [] ++
        assigned (((dataParts heap event).map Prod.fst).zip trees) ∧
      lacks fields (text "error") =
        (((dataParts heap event).lookup (text "error")).map Slot.isUndefined).getD true := by
  rw [redactedData] at h
  rcases hknown : knownFields heap event.type salt (heap event.data) with _ | known
  · rw [hknown] at h
    have hparts : dataParts heap event = unknownParts (heap event.data) := by
      rw [dataParts, knownFields_eq_none.mp hknown]
      rfl
    obtain ⟨⟨trees, seen'⟩, hfill, heq⟩ := Option.map_eq_some_iff.mp h
    obtain ⟨rfl, rfl⟩ := Prod.mk.inj heq
    have hfilled := filled_fill (fun _ _ _ _ => filled_redactNested) hfill
    rw [hparts]
    refine ⟨trees, hfilled, rfl, ?_⟩
    rw [lacks, lookup_assigned hfilled.each (by decide)]
  · rw [hknown] at h
    obtain ⟨rfl, rfl⟩ := Prod.mk.inj (Option.some.inj h)
    have hparts : dataParts heap event = [] := by
      have hisKnown : isKnown event.type ≠ false := by
        rw [Ne, ← @knownFields_eq_none n heap event.type salt (heap event.data), hknown]
        exact Option.some_ne_none known
      rw [dataParts, if_pos (Bool.not_eq_false _ ▸ hisKnown)]
    rw [hparts]
    refine ⟨[], filled_nil, (List.append_nil known).symm, ?_⟩
    rw [lacks, lookup_error_knownFields hknown]
    rfl

theorem assigned_append (fields fields' : List (Key × Tree n)) :
    assigned (fields ++ fields') = assigned fields ++ assigned fields' := List.filter_append _ _

/-- What a result is. -/
theorem redactAuditEvent_spec {out : Redacted n} (h : redactAuditEvent heap frames event salt = some out) :
    ∃ trees seen, Filled heap ∅ ((eventParts heap event).map Prod.snd) trees seen ∧
      out = ⟨event.type, event.at, (knownFields heap event.type salt (heap event.data)).getD [] ++
        assigned (((eventParts heap event).map Prod.fst).zip trees)⟩ := by
  obtain ⟨⟨fields, seen⟩, hdata, h⟩ := Option.bind_eq_some_iff.mp h
  obtain ⟨trees, hfilled, rfl, hlacks⟩ := redactedData_spec hdata
  dsimp only at h
  rw [hlacks] at h
  by_cases hattach : attachesError heap event = true
  · rw [attachesError] at hattach
    rw [if_pos hattach] at h
    obtain ⟨⟨tree, seen'⟩, herror, h⟩ := Option.bind_eq_some_iff.mp h
    obtain rfl := Option.some.inj h
    refine ⟨trees ++ [tree], seen', ?_, ?_⟩
    · rw [eventParts, attachesError, if_pos hattach, List.map_append]
      exact hfilled.append (filled_redactNested herror)
    · have hlength : ((dataParts heap event).map Prod.fst).length = trees.length := by
        rw [← hfilled.each.length_eq, List.length_map, List.length_map]
      rw [eventParts, attachesError, if_pos hattach, List.map_append, List.zip_append hlength, assigned_append,
        ← List.append_assoc]
      rfl
  · rw [attachesError] at hattach
    rw [if_neg hattach] at h
    obtain rfl := Option.some.inj h
    refine ⟨trees, seen, ?_, ?_⟩
    · rw [eventParts, attachesError, if_neg hattach, List.append_nil]
      exact hfilled
    · rw [eventParts, attachesError, if_neg hattach, List.append_nil]

/-- One frame more than there are objects is enough. -/
theorem exists_redactAuditEvent (hframes : n < frames) : ∃ out, redactAuditEvent heap frames event salt = some out := by
  have hcard : ∀ seen : Seen n, seenᶜ.card < frames := fun seen =>
    (Finset.card_le_univ _).trans_lt (by rwa [Fintype.card_fin])
  obtain ⟨⟨fields, seen⟩, hdata⟩ : ∃ r, redactedData heap frames event.type salt (heap event.data) = some r := by
    rw [redactedData]
    rcases knownFields heap event.type salt (heap event.data) with _ | known
    · obtain ⟨r, hr⟩ := @exists_fill n heap ∅ _ (fun _ _ _ _ => filled_redactNested)
        (fun seen' _ => exists_redactNested (hcard seen')) ((unknownParts (heap event.data)).map Prod.snd)
      exact ⟨_, by rw [hr]; rfl⟩
    · exact ⟨_, rfl⟩
  obtain ⟨r, hr⟩ := @exists_redactNested n heap seen frames (hcard seen) ((heap event.data).get (text "error"))
  rw [redactAuditEvent, hdata]
  dsimp only [Option.bind_eq_bind, Option.bind_some]
  split_ifs
  · exact ⟨_, by rw [hr]; rfl⟩
  · exact ⟨_, rfl⟩

end Results

/-! ## No secret key, and no address -/

section Sealing

variable (heap) (event : AuditEvent n) (salt : Text)

/-- No text of the result has a secret key, and a known event's addresses are left as their hashes only. -/
structure Sealed (out : Redacted n) : Prop where
  secrets : ∀ origin t, out.Holds heap origin t → ¬ HasSecret t
  hashed : event.type ∈ planTypes ++ executeTypes → ∀ id, (heap event.data).get (text "plan") = .ref id →
    ∀ address ref t,
      (address, ref) ∈ [(text "accountId", text "accountRef"), (text "destination", text "destinationRef")] →
      (heap id).get address = .string t →
        ∃ fields, (text "plan", .object fields) ∈ out.data ∧ (ref, .written (hashForRedaction t salt)) ∈ fields
  addresses : isKnown event.type = true → ∀ address ∈ planAddresses heap event, ∀ t, out.Holds heap .event t →
    ¬ address <:+: t

/-- A value of which a secret key is left: a text where one touches a word unit, a symbol with one, or an error with one
in its name or in a message that is no text, or such a text for a message or a stack. -/
def Exposes : Value n → Prop
  | .string t => HasJoinedSecret t
  | .symbol description => HasSecret (symbolText description)
  | .ref id =>
    let o := heap id
    o.isErrorLike = true ∧
      ((∃ t, (o.get (text "name")).Holds heap t ∧ HasSecret t) ∨
        (match o.get (text "message") with
          | .string t => HasJoinedSecret t
          | v => ∃ t, v.Holds heap t ∧ HasSecret t) ∨
        ∃ t, o.get (text "stack") = .string t ∧ HasJoinedSecret t)
  | _ => False

/-- What is copied has no secret key, none is exposed where the walk goes, and a known event's addresses are in none of
the texts that are copied or left by the walk. -/
structure Harmless : Prop where
  copied : ∀ t ∈ event.type :: event.at :: copiedTexts heap event, ¬ HasSecret t
  walked : ∀ root ∈ begins (eventParts heap event), ∀ d v, Met (walked heap) root d v → ¬ Exposes heap v
  addresses : isKnown event.type = true → ∀ address ∈ planAddresses heap event,
    (∀ t ∈ event.type :: event.at :: copiedTexts heap event, ¬ address <:+: t) ∧
      ∀ root ∈ begins (eventParts heap event), ∀ d v, Met (AuditRedaction.walked heap) root d v →
        ∀ t, Leaves heap v t → ¬ address <:+: t

end Sealing

section Criterion

variable {event : AuditEvent n} {salt : Text} {frames : ℕ}

/-- A replaced text has just the secret keys that touch a word unit. -/
theorem hasSecret_redactString (t : Text) : HasSecret (redactString t) ↔ HasJoinedSecret t := by
  refine Tokens.hasToken_replaceTokens (by omega) (fun c hc => ?_) (fun c hc => ?_) (by decide +kernel)
    (by decide +kernel) (by decide +kernel) t
  · rw [isWord, hc, Bool.true_or]
  · have h83 := of_decide_eq_true hc
    exact decide_eq_true (Or.inl (by omega))

theorem not_keep_fieldSlot {key : Key} {v w : Value n} : fieldSlot key v ≠ .keep w := by
  rw [fieldSlot]
  split_ifs
  · exact fun h => (nomatch h)
  · exact fun h => (nomatch h)

/-- What is kept of an object: the name, the message and the stack of an error. -/
theorem keeps_iff {o : Object n} {s : Text} :
    (∃ part ∈ o.parts.filter stays, ∃ w, part.2 = .keep w ∧ w.Holds heap s) ↔
      o.isErrorLike = true ∧ ((o.get (text "name")).Holds heap s ∨ o.redactedMessage.Holds heap s ∨
        ∃ t, o.get (text "stack") = .string t ∧ s = redactString t) := by
  rw [Object.parts]
  by_cases herror : o.isErrorLike = true
  · rw [if_pos herror, Object.errorParts]
    constructor
    · rintro ⟨part, hpart, w, hw, hholds⟩
      refine ⟨herror, ?_⟩
      rcases List.mem_append.mp (List.mem_of_mem_filter hpart) with hpart | hpart
      · rcases List.mem_append.mp hpart with hpart | hpart
        · rcases List.mem_append.mp hpart with hpart | hpart
          · rcases List.mem_cons.mp hpart with rfl | hpart
            · obtain ⟨⟩ := hw
              exact Or.inl hholds
            · rw [List.mem_singleton.mp hpart] at hw
              obtain ⟨⟩ := hw
              exact Or.inr (Or.inl hholds)
          · split at hpart
            · rename_i t hstack
              rw [List.mem_singleton.mp hpart] at hw
              obtain ⟨⟩ := hw
              exact Or.inr (Or.inr ⟨t, hstack, holds_string.mp hholds⟩)
            · exact absurd hpart List.not_mem_nil
        · split_ifs at hpart
          · rw [List.mem_singleton.mp hpart] at hw
            cases hw
          · exact absurd hpart List.not_mem_nil
      · obtain ⟨prop, -, rfl⟩ := List.mem_map.mp hpart
        exact absurd hw not_keep_fieldSlot
    · have hkept : ∀ {key : Key}, key ≠ proto → ∀ w : Value n, stays (key, .keep w) = true :=
        fun hkey _ => decide_eq_true hkey
      rintro ⟨-, hname | hmessage | ⟨t, hstack, rfl⟩⟩
      · exact ⟨(text "name", .keep (o.get (text "name"))), List.mem_filter.mpr ⟨by simp, hkept (by decide) _⟩, _, rfl,
          hname⟩
      · exact ⟨(text "message", .keep o.redactedMessage), List.mem_filter.mpr ⟨by simp, hkept (by decide) _⟩, _, rfl,
          hmessage⟩
      · exact ⟨(text "stack", .keep (.string (redactString t))), List.mem_filter.mpr ⟨by simp [hstack],
          hkept (by decide) _⟩, _, rfl, .string _⟩
  · rw [if_neg herror]
    refine iff_of_false ?_ fun h => herror h.1
    rintro ⟨part, hpart, w, hw, -⟩
    have hmem := List.mem_of_mem_filter hpart
    split at hmem
    · obtain ⟨⟨v, i⟩, -, rfl⟩ := List.mem_map.mp hmem
      cases hw
    · obtain ⟨⟨k, v⟩, -, rfl⟩ := List.mem_map.mp hmem
      exact absurd hw not_keep_fieldSlot

/-- The secret keys of a message that is kept. -/
theorem redactedMessage_iff {o : Object n} :
    (∃ s, o.redactedMessage.Holds heap s ∧ HasSecret s) ↔
      match o.get (text "message") with
        | .string t => HasJoinedSecret t
        | v => ∃ t, v.Holds heap t ∧ HasSecret t := by
  rw [Object.redactedMessage]
  cases o.get (text "message")
  case string t =>
    dsimp only
    simp only [holds_string, exists_eq_left, hasSecret_redactString]
  all_goals exact Iff.rfl

/-- A secret key is left of a value just when it is exposed. -/
theorem exposes_iff {v : Value n} : Exposes heap v ↔ ∃ s, Leaves heap v s ∧ HasSecret s := by
  have hscalar : ∀ w : Value n, (∀ id, w ≠ .ref id) → ∀ s, Leaves heap w s ↔ (Slot.walk w).Gives heap s := by
    intro w hw s
    refine or_iff_left ?_
    rintro ⟨id, hid, -⟩
    exact hw id hid
  cases v
  case string t =>
    simp only [hscalar (.string t) (by rintro id ⟨⟩), Slot.Gives, exists_eq_left]
    exact (hasSecret_redactString t).symm
  case symbol description =>
    simp only [hscalar (.symbol description) (by rintro id ⟨⟩), Slot.Gives, exists_eq_left]
    rfl
  case ref id =>
    have hleaves : ∀ s, Leaves heap (.ref id) s ↔ (heap id).isErrorLike = true ∧
        (((heap id).get (text "name")).Holds heap s ∨ (heap id).redactedMessage.Holds heap s ∨
          ∃ t, (heap id).get (text "stack") = .string t ∧ s = redactString t) := by
      intro s
      rw [← keeps_iff, Leaves]
      constructor
      · rintro (h | ⟨_, ⟨⟩, h⟩)
        · exact absurd h fun h => h
        · exact h
      · exact fun h => Or.inr ⟨id, rfl, h⟩
    have hstack : (∃ s, (∃ t, (heap id).get (text "stack") = .string t ∧ s = redactString t) ∧ HasSecret s) ↔
        ∃ t, (heap id).get (text "stack") = .string t ∧ HasJoinedSecret t := by
      constructor
      · rintro ⟨s, ⟨t, hstack, rfl⟩, hs⟩
        exact ⟨t, hstack, (hasSecret_redactString t).mp hs⟩
      · rintro ⟨t, hstack, ht⟩
        exact ⟨_, ⟨t, hstack, rfl⟩, (hasSecret_redactString t).mpr ht⟩
    simp only [hleaves, and_assoc, or_and_right, exists_or, exists_and_left, redactedMessage_iff]
    rw [hstack]
    rfl
  all_goals
    refine iff_of_false id ?_
    rintro ⟨s, hs, -⟩
    rw [hscalar _ (by rintro id ⟨⟩)] at hs
    exact hs

theorem not_keep_eventParts : ∀ part ∈ eventParts heap event, ∀ v, part.2 ≠ .keep v := by
  intro part hpart v
  rcases List.mem_append.mp hpart with hpart | hpart
  · rw [dataParts] at hpart
    split_ifs at hpart
    · exact absurd hpart List.not_mem_nil
    · obtain ⟨⟨k, w⟩, -, rfl⟩ := List.mem_map.mp hpart
      exact not_keep_fieldSlot
  · split_ifs at hpart
    · rw [List.mem_singleton.mp hpart]
      exact fun h => (nomatch h)
    · exact absurd hpart List.not_mem_nil

theorem copiedTexts_unknown (h : isKnown event.type = false) : copiedTexts heap event = [] := by
  rw [isKnown, decide_eq_false_iff_not] at h
  simp only [List.mem_append, not_or] at h
  obtain ⟨⟨⟨hinspect, hplan⟩, hexecute⟩, hmerge⟩ := h
  rw [copiedTexts, if_neg hinspect, if_neg hplan, if_neg hexecute, if_neg hmerge]

/-- The texts of the event in a result. -/
theorem holds_iff {out : Redacted n} (h : redactAuditEvent heap frames event salt = some out) (s : Text) :
    out.Holds heap .event s ↔ s ∈ event.type :: event.at :: copiedTexts heap event ∨
      ∃ root ∈ begins (eventParts heap event), ∃ d v, Met (walked heap) root d v ∧ Leaves heap v s := by
  obtain ⟨trees, seen, hfilled, rfl⟩ := redactAuditEvent_spec h
  have hcopied : (∃ field ∈ (knownFields heap event.type salt (heap event.data)).getD [], field.2.Holds heap .event s) ↔
      s ∈ copiedTexts heap event := by
    rcases hknown : knownFields heap event.type salt (heap event.data) with _ | known
    · rw [copiedTexts_unknown (knownFields_eq_none.mp hknown)]
      simp
    · exact holds_knownFields hknown s
  have hwalked : (∃ field ∈ assigned (((eventParts heap event).map Prod.fst).zip trees),
      field.2.Holds heap .event s) ↔ _ := (holds_assigned_iff hfilled.each s).trans (hfilled.leaves_iff not_keep_eventParts s)
  rw [List.mem_cons, List.mem_cons, ← hcopied, ← hwalked, or_assoc, or_assoc, ← exists_mem_append_iff]
  constructor
  · rintro (_ | _ | ⟨hmem, htree⟩)
    · exact Or.inl rfl
    · exact Or.inr (Or.inl rfl)
    · exact Or.inr (Or.inr ⟨_, hmem, htree⟩)
  · rintro (rfl | rfl | ⟨⟨key, tree⟩, hmem, htree⟩)
    · exact .type
    · exact .at
    · exact .data hmem htree

theorem short_out {out : Redacted n} (h : redactAuditEvent heap frames event salt = some out) {s : Text}
    (hs : out.Holds heap .redaction s) : s.length < 56 := by
  obtain ⟨trees, seen, hfilled, rfl⟩ := redactAuditEvent_spec h
  rcases hs with _ | _ | ⟨hmem, htree⟩
  rcases List.mem_append.mp hmem with hmem | hmem
  · rcases hknown : knownFields heap event.type salt (heap event.data) with _ | known
    · rw [hknown] at hmem
      exact absurd hmem List.not_mem_nil
    · rw [hknown] at hmem
      exact short_knownFields hknown _ hmem s htree
  · obtain ⟨slot, -, hfits⟩ := Partial.exists_left hfilled.each _ (List.of_mem_zip (mem_assigned.mp hmem).1).2
    exact length_marks s (hfits.written s htree)

theorem hashed_out {out : Redacted n} (h : redactAuditEvent heap frames event salt = some out)
    (htype : event.type ∈ planTypes ++ executeTypes) {id : Fin n}
    (hplan : (heap event.data).get (text "plan") = .ref id)
    {address ref t : Text}
    (href : (address, ref) ∈ [(text "accountId", text "accountRef"), (text "destination", text "destinationRef")])
    (haddress : (heap id).get address = .string t) :
    ∃ fields, (text "plan", .object fields) ∈ out.data ∧ (ref, .written (hashForRedaction t salt)) ∈ fields := by
  obtain ⟨trees, seen, -, rfl⟩ := redactAuditEvent_spec h
  have hfield : planField heap salt (heap event.data) = [(text "plan", .object (redactPlan heap salt (.ref id)))] := by
    rw [planField, hplan]
    rfl
  have hmem : (text "plan", .object (redactPlan heap salt (.ref id))) ∈
      (knownFields heap event.type salt (heap event.data)).getD [] := by
    have hinspect : event.type ∉ inspectTypes := by
      intro hinspect
      have hapart : ∀ t ∈ inspectTypes, t ∉ planTypes ++ executeTypes := by decide +kernel
      exact hapart _ hinspect htype
    rw [knownFields, if_neg hinspect, hfield]
    by_cases hplanType : event.type ∈ planTypes
    · rw [if_pos hplanType]
      exact List.mem_cons_self
    · rw [if_neg hplanType, if_pos ((List.mem_append.mp htype).resolve_left hplanType)]
      exact List.mem_cons_self
  refine ⟨_, List.mem_append_left _ hmem, ?_⟩
  rw [redactPlan]
  simp only [List.mem_append]
  rcases List.mem_cons.mp href with heq | href
  · obtain ⟨rfl, rfl⟩ := Prod.mk.inj heq
    rw [haddress]
    exact Or.inl (Or.inl (Or.inl (Or.inl List.mem_cons_self)))
  · obtain ⟨rfl, rfl⟩ := Prod.mk.inj (List.mem_singleton.mp href)
    rw [haddress]
    exact Or.inl (Or.inl (Or.inl (Or.inr List.mem_cons_self)))

theorem sealed_iff_harmless {out : Redacted n} (hout : redactAuditEvent heap frames event salt = some out) :
    Sealed heap event salt out ↔ Harmless heap event := by
  constructor
  · intro h
    refine ⟨fun t ht => h.secrets .event t ((holds_iff hout t).mpr (Or.inl ht)), ?_, ?_⟩
    · intro root hroot d v hmet hexposes
      obtain ⟨s, hleaves, hsecret⟩ := exposes_iff.mp hexposes
      exact h.secrets .event s ((holds_iff hout s).mpr (Or.inr ⟨root, hroot, d, v, hmet, hleaves⟩)) hsecret
    · intro hknown address haddress
      refine ⟨fun t ht => h.addresses hknown address haddress t ((holds_iff hout t).mpr (Or.inl ht)), ?_⟩
      intro root hroot d v hmet t hleaves
      exact h.addresses hknown address haddress t
        ((holds_iff hout t).mpr (Or.inr ⟨root, hroot, d, v, hmet, hleaves⟩))
  · intro h
    refine ⟨?_, fun htype id hplan address ref t href => hashed_out hout htype hplan href, ?_⟩
    · intro origin t ht
      rcases origin with _ | _
      · rcases (holds_iff hout t).mp ht with hcopied | ⟨root, hroot, d, v, hmet, hleaves⟩
        · exact h.copied t hcopied
        · exact fun hsecret => h.walked root hroot d v hmet (exposes_iff.mpr ⟨t, hleaves, hsecret⟩)
      · exact not_hasSecret_of_length (short_out hout ht)
    · intro hknown address haddress t ht
      obtain ⟨hcopied, hwalked⟩ := h.addresses hknown address haddress
      rcases (holds_iff hout t).mp ht with hmem | ⟨root, hroot, d, v, hmet, hleaves⟩
      · exact hcopied t hmem
      · exact hwalked root hroot d v hmet t hleaves

/-- When redaction leaves no secret key, and of the plan's addresses their hashes only. -/
theorem sealed_iff (heap : Heap n) (event : AuditEvent n) (salt : Text) (spare : ℕ) :
    ∃ out, redactAuditEvent heap (n + 1 + spare) event salt = some out ∧
      (Sealed heap event salt out ↔ Harmless heap event) := by
  obtain ⟨out, hout⟩ : ∃ out, redactAuditEvent heap (n + 1 + spare) event salt = some out :=
    exists_redactAuditEvent (by omega)
  exact ⟨out, hout, sealed_iff_harmless hout⟩

end Criterion

end Model

/-! ### A key behind an underscore -/

/-- An event of an unknown type with one note. -/
def noted (note : Text) : Heap 1 := fun _ => ⟨false, none, [⟨text "note", .string note, true⟩], []⟩

def failed : AuditEvent 1 := ⟨text "lifecycle.action_failed", text "2026-08-29T14:30:00Z", 0⟩

def sponsorKey : Text := text "SBYV4L7OGVGB45PDR3P7W3RFL6IOMTXCQN6N23TY6P72F7Y5K6X6YXYZ"

theorem key_after_underscore :
    ∃ out, redactAuditEvent (noted (text "key_" ++ sponsorKey)) 2 failed (text "00") = some out ∧
      ¬ Sealed (noted (text "key_" ++ sponsorKey)) failed (text "00") out := by
  obtain ⟨out, hout⟩ : ∃ out, redactAuditEvent (noted (text "key_" ++ sponsorKey)) 2 failed (text "00") = some out :=
    exists_redactAuditEvent (by omega)
  refine ⟨out, hout, fun h => ?_⟩
  have hjoined : HasJoinedSecret (text "key_" ++ sponsorKey) :=
    (Tokens.hasJoined_iff (by omega)).mp (by decide +kernel)
  have hparts : eventParts (noted (text "key_" ++ sponsorKey)) failed =
      [(text "note", .walk (.string (text "key_" ++ sponsorKey)))] := by rfl
  refine ((sealed_iff_harmless hout).mp h).walked (.string (text "key_" ++ sponsorKey)) ?_ 0 _ (.here _) hjoined
  exact mem_begins.mpr ⟨_, by rw [hparts]; exact List.mem_cons_self, rfl⟩

end Vellar.Cleanup.AuditRedaction
