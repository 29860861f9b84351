import Vellar.Cleanup.AuditRedaction
import Vellar.Lib.Partial
import Vellar.Lib.Reach

/-!
# Vellar.Cleanup.AuditWalk — what the walk of the redaction leaves

A walk goes once into each object that it meets.  `Filled` says what it has then seen and made, one slot or object at a
time; `Filled.leaves_iff`: the texts that are left are those of all that is met from the first values.
-/

set_option autoImplicit false

namespace Vellar.Cleanup.AuditRedaction

open Reach
open WebText (Text text)

section Walk

variable {n : ℕ} (heap : Heap n)

/-! ## What a result holds -/

/-- Where a text of a result is from. -/
inductive Origin where
  | event
  | redaction

/-- The values of an object. -/
def Object.contents (o : Object n) : List (Value n) := o.properties.map Property.value

/-- A text is among the values, at any depth. -/
inductive Value.Holds : Value n → Text → Prop
  | string (t : Text) : Holds (.string t) t
  | part {id : Fin n} {v : Value n} {t : Text} (hv : v ∈ (heap id).contents) (h : Holds v t) : Holds (.ref id) t

inductive Tree.Holds : Tree n → Origin → Text → Prop
  | value {v : Value n} {t : Text} (h : v.Holds heap t) : Holds (.value v) .event t
  | written (t : Text) : Holds (.written t) .redaction t
  | item {items : List (Tree n)} {tree : Tree n} {o : Origin} {t : Text} (htree : tree ∈ items)
      (h : Holds tree o t) : Holds (.array items) o t
  | field {fields : List (Key × Tree n)} {key : Key} {tree : Tree n} {o : Origin} {t : Text}
      (htree : (key, tree) ∈ fields) (h : Holds tree o t) : Holds (.object fields) o t

inductive Redacted.Holds (out : Redacted n) : Origin → Text → Prop
  | type : Holds out .event out.type
  | «at» : Holds out .event out.at
  | data {key : Key} {tree : Tree n} {o : Origin} {t : Text} (htree : (key, tree) ∈ out.data)
      (h : tree.Holds heap o t) : Holds out o t

/-- A Stellar secret key is in the text: a run of `[A-Z0-9]` of length 56, as long as it goes, that begins with `S`. -/
def HasSecret (t : Text) : Prop := Tokens.HasToken isUpperOrDigit isS 56 t

/-- A secret key is in the text, with a lower-case letter or an underscore next to it. -/
def HasJoinedSecret (t : Text) : Prop := Tokens.HasJoined isUpperOrDigit isWord isS 56 t

/-! ## What the walk meets -/

/-- What a part adds to the result when it is no object. -/
def Slot.Gives : Slot n → Text → Prop
  | .keep v, s => v.Holds heap s
  | .walk (.string t), s => s = redactString t
  | .walk (.symbol description), s => s = symbolText description
  | _, _ => False

/-- What is made of it is `undefined`. -/
def Slot.isUndefined : Slot n → Bool
  | .keep v | .walk v => v.isUndefined
  | .hide => false

def Value.isRef : Value n → Bool
  | .ref _ => true
  | _ => false

/-- A part of which something is left. -/
def stays : Key × Slot n → Bool
  | (k, .walk v) => decide (k ≠ proto) || v.isRef
  | (k, _) => decide (k ≠ proto)

/-- The values in some parts that the walk goes to, and keeps something of. -/
def begins (parts : List (Key × Slot n)) : List (Value n) :=
  (parts.filter stays).filterMap fun part => match part.2 with
    | .walk v => some v
    | _ => none

/-- Where the walk goes to. -/
def walked : Value n → List (Value n)
  | .ref id => begins (heap id).parts
  | _ => []

/-- What the walk leaves of the texts of a value it meets. -/
def Leaves (v : Value n) (s : Text) : Prop :=
  (Slot.walk v).Gives heap s ∨
    ∃ id, v = .ref id ∧ ∃ part ∈ (heap id).parts.filter stays, ∃ w, part.2 = .keep w ∧ w.Holds heap s

/-! ## The walk, one object at a time -/

/-- What an object adds to the result, without the objects in it. -/
def Local (id : Fin n) (s : Text) : Prop := ∃ part ∈ (heap id).parts.filter stays, part.2.Gives heap s

/-- The texts that the walk writes. -/
def marks : List Text := [redactedSecretKey, functionMark, circular]

/-- What is made of a slot. -/
structure Fits (slot : Slot n) (tree : Tree n) : Prop where
  gives : tree.isMade = false → ∀ s, tree.Holds heap .event s ↔ slot.Gives heap s
  none : tree.isMade = true → ∀ s, ¬ slot.Gives heap s
  undefined : tree.isUndefined = slot.isUndefined
  written : ∀ t, tree.Holds heap .redaction t → t ∈ marks

/-- The slots are filled: everything met is seen, and each object seen on the way is in a tree once. -/
structure Filled (seen : Seen n) (slots : List (Slot n)) (trees : List (Tree n)) (seen' : Seen n) : Prop where
  grows : seen ⊆ seen'
  covers : ∀ id, .walk (.ref id) ∈ slots → id ∈ seen'
  closed : ∀ id ∈ seen', id ∉ seen → ∀ id', .ref id' ∈ walked heap (.ref id) → id' ∈ seen'
  sound : ∀ id ∈ seen', id ∉ seen → ∃ v d, .walk v ∈ slots ∧ Met (walked heap) v d (.ref id)
  made : ∀ s, (∃ tree ∈ trees, tree.isMade = true ∧ tree.Holds heap .event s) ↔
    ∃ id ∈ seen', id ∉ seen ∧ Local heap id s
  each : List.Forall₂ (Fits heap) slots trees

variable {heap} {seen seen' seen'' : Seen n} {slots slots' : List (Slot n)} {trees trees' : List (Tree n)}

/-! ### Slots -/

section Slots

theorem holds_written {t s : Text} : ¬ (Tree.written t : Tree n).Holds heap .event s := by
  rintro ⟨⟩

theorem holds_value {v : Value n} {s : Text} : (Tree.value v).Holds heap .event s ↔ v.Holds heap s := by
  constructor
  · rintro ⟨h⟩
    exact h
  · exact .value

theorem value_written {v : Value n} {s : Text} : ¬ (Tree.value v).Holds heap .redaction s := by
  rintro ⟨⟩

theorem written_mem {t s : Text} (h : (Tree.written t : Tree n).Holds heap .redaction s) : s = t := by
  cases h
  rfl

theorem holds_string {t s : Text} : (Value.string t : Value n).Holds heap s ↔ s = t := by
  constructor
  · rintro ⟨⟩
    rfl
  · rintro rfl
    exact .string s

theorem filled_nil : Filled heap seen [] [] seen where
  grows := Finset.Subset.refl seen
  covers := fun id h => absurd h List.not_mem_nil
  closed := fun id h hnot => absurd h hnot
  sound := fun id h hnot => absurd h hnot
  made := by
    intro s
    constructor
    · rintro ⟨tree, htree, -⟩
      exact absurd htree List.not_mem_nil
    · rintro ⟨id, h, hnot, -⟩
      exact absurd h hnot
  each := .nil

theorem Filled.append (h : Filled heap seen slots trees seen') (h' : Filled heap seen' slots' trees' seen'') :
    Filled heap seen (slots ++ slots') (trees ++ trees') seen'' where
  grows := h.grows.trans h'.grows
  covers := by
    intro id hid
    rcases List.mem_append.mp hid with hid | hid
    · exact h'.grows (h.covers id hid)
    · exact h'.covers id hid
  closed := by
    intro id hid hnot id' hid'
    by_cases hmid : id ∈ seen'
    · exact h'.grows (h.closed id hmid hnot id' hid')
    · exact h'.closed id hid hmid id' hid'
  sound := by
    intro id hid hnot
    by_cases hmid : id ∈ seen'
    · obtain ⟨v, d, hv, hmet⟩ := h.sound id hmid hnot
      exact ⟨v, d, List.mem_append_left _ hv, hmet⟩
    · obtain ⟨v, d, hv, hmet⟩ := h'.sound id hid hmid
      exact ⟨v, d, List.mem_append_right _ hv, hmet⟩
  made := by
    intro s
    constructor
    · rintro ⟨tree, htree, hmade⟩
      rcases List.mem_append.mp htree with htree | htree
      · obtain ⟨id, hid, hnot, hlocal⟩ := (h.made s).mp ⟨tree, htree, hmade⟩
        exact ⟨id, h'.grows hid, hnot, hlocal⟩
      · obtain ⟨id, hid, hnot, hlocal⟩ := (h'.made s).mp ⟨tree, htree, hmade⟩
        exact ⟨id, hid, fun hseen => hnot (h.grows hseen), hlocal⟩
    · rintro ⟨id, hid, hnot, hlocal⟩
      by_cases hmid : id ∈ seen'
      · obtain ⟨tree, htree, hmade⟩ := (h.made s).mpr ⟨id, hmid, hnot, hlocal⟩
        exact ⟨tree, List.mem_append_left _ htree, hmade⟩
      · obtain ⟨tree, htree, hmade⟩ := (h'.made s).mpr ⟨id, hid, hmid, hlocal⟩
        exact ⟨tree, List.mem_append_right _ htree, hmade⟩
  each := List.rel_append h.each h'.each

/-- A slot whose tree is not made by the walk changes nothing. -/
theorem filled_atom {slot : Slot n} {tree : Tree n} (hfits : Fits heap slot tree) (hmade : tree.isMade = false)
    (hseen : ∀ id, slot = .walk (.ref id) → id ∈ seen) : Filled heap seen [slot] [tree] seen where
  grows := Finset.Subset.refl seen
  covers := fun id h => hseen id (List.mem_singleton.mp h).symm
  closed := fun id h hnot => absurd h hnot
  sound := fun id h hnot => absurd h hnot
  made := by
    intro s
    constructor
    · rintro ⟨tree', htree, hmade', -⟩
      rw [List.mem_singleton.mp htree, hmade] at hmade'
      exact Bool.noConfusion hmade'
    · rintro ⟨id, h, hnot, -⟩
      exact absurd h hnot
  each := .cons hfits .nil

theorem fits_keep (v : Value n) : Fits heap (.keep v) (.value v) where
  gives := fun _ _ => holds_value
  none := fun h => Bool.noConfusion h
  undefined := rfl
  written := fun _ h => absurd h value_written

theorem fits_hide : Fits heap (.hide : Slot n) (.written redactedSecretKey) where
  gives := fun _ _ => iff_of_false holds_written id
  none := fun h => Bool.noConfusion h
  undefined := rfl
  written := fun _ h => written_mem h ▸ List.mem_cons_self

/-- What is made of a value that is no object. -/
theorem fits_scalar {v w : Value n} (hmake : ∀ s, w.Holds heap s ↔ (Slot.walk v).Gives heap s)
    (hundefined : w.isUndefined = v.isUndefined) : Fits heap (.walk v) (.value w) where
  gives := fun _ s => holds_value.trans (hmake s)
  none := fun h => Bool.noConfusion h
  undefined := hundefined
  written := fun _ h => absurd h value_written

theorem fits_mark {v : Value n} {t : Text} (hmark : t ∈ marks) (hgives : ∀ s, ¬ (Slot.walk v).Gives heap s)
    (hundefined : v.isUndefined = false) : Fits heap (.walk v) (.written t) where
  gives := fun _ s => iff_of_false holds_written (hgives s)
  none := fun h => Bool.noConfusion h
  undefined := hundefined.symm
  written := fun _ h => written_mem h ▸ hmark

end Slots

/-! ### Objects -/

section Objects

variable {id : Fin n}

theorem mem_begins {parts : List (Key × Slot n)} {v : Value n} :
    v ∈ begins parts ↔ ∃ part ∈ parts.filter stays, part.2 = .walk v := by
  rw [begins, List.mem_filterMap]
  constructor
  · rintro ⟨⟨k, slot⟩, hpart, hv⟩
    rcases slot with w | _ | w
    · exact absurd hv (Option.some_ne_none v).symm
    · exact absurd hv (Option.some_ne_none v).symm
    · exact ⟨_, hpart, congrArg Slot.walk (Option.some.inj hv)⟩
  · rintro ⟨⟨k, slot⟩, hpart, rfl⟩
    exact ⟨_, hpart, rfl⟩

theorem mem_walked_ref {v : Value n} :
    v ∈ walked heap (.ref id) ↔ ∃ part ∈ (heap id).parts.filter stays, part.2 = .walk v := mem_begins

/-- An object below a part is walked into, whatever its key. -/
theorem ref_mem_walked {id' : Fin n} (h : .walk (.ref id') ∈ (heap id).parts.map Prod.snd) :
    .ref id' ∈ walked heap (.ref id) := by
  obtain ⟨⟨k, slot⟩, hpart, rfl⟩ := List.mem_map.mp h
  refine mem_walked_ref.mpr ⟨_, List.mem_filter.mpr ⟨hpart, ?_⟩, rfl⟩
  exact Bool.or_true _

/-- Only from an object the walk goes to one. -/
theorem ref_of_met {v : Value n} {d : ℕ} (h : Met (walked heap) v d (.ref id)) : ∃ id', v = .ref id' := by
  rcases h with _ | ⟨hc, -⟩
  · exact ⟨id, rfl⟩
  · cases v
    case ref id' => exact ⟨id', rfl⟩
    all_goals exact absurd hc List.not_mem_nil

theorem index_ne_proto (i : ℕ) : text (toString i) ≠ proto := by
  intro h
  have hmem : WebText.unit '_' ∈ text (toString i) := by
    rw [h]
    decide
  obtain ⟨c, hc, hunit⟩ := List.mem_map.mp hmem
  have hdigit : c.isDigit = true := Decimal.isDigit_toDigits (Nat.toList_repr ▸ hc)
  rw [Char.isDigit_iff_toNat] at hdigit
  have hnat := congrArg UInt16.toNat hunit
  rw [WebText.unit, WebText.unit, UInt16.toNat_ofNat', UInt16.toNat_ofNat'] at hnat
  have h0 : '0'.toNat = 48 := rfl
  have h9 : '9'.toNat = 57 := rfl
  have h95 : '_'.toNat = 95 := rfl
  omega

theorem mem_assigned {fields : List (Key × Tree n)} {field : Key × Tree n} :
    field ∈ assigned fields ↔ field ∈ fields ∧ (field.1 ≠ proto ∨ field.2.isMade = true) := by
  rw [assigned, List.mem_filter, Bool.or_eq_true, decide_eq_true_iff]

/-- A tree is left of a part just when the part stays, or the tree is of an object. -/
theorem left_iff {part : Key × Slot n} {tree : Tree n} (h : Fits heap part.2 tree) (s : Text) :
    (part.1 ≠ proto ∨ tree.isMade = true) ∧ tree.Holds heap .event s ↔
      stays part = true ∧ part.2.Gives heap s ∨ tree.isMade = true ∧ tree.Holds heap .event s := by
  obtain ⟨k, slot⟩ := part
  by_cases hmade : tree.isMade = true
  · have hnone := h.none hmade s
    simp [hmade, hnone]
  · have hgives := h.gives (Bool.not_eq_true _ ▸ hmade) s
    simp only [hmade, hgives]
    rcases slot with v | _ | v
    · simp [stays]
    · simp [stays]
    · by_cases hv : v.isRef = true
      · obtain ⟨id, rfl⟩ : ∃ id, v = .ref id := by
          cases v <;> first | exact absurd hv Bool.false_ne_true | exact ⟨_, rfl⟩
        simp [Slot.Gives]
      · simp [stays, hv]

/-- What is left of the trees that fill some parts. -/
theorem holds_assigned_iff {parts : List (Key × Slot n)} {trees : List (Tree n)}
    (h : List.Forall₂ (Fits heap) (parts.map Prod.snd) trees) (s : Text) :
    (∃ field ∈ assigned ((parts.map Prod.fst).zip trees), field.2.Holds heap .event s) ↔
      (∃ part ∈ parts.filter stays, part.2.Gives heap s) ∨
        ∃ tree ∈ trees, tree.isMade = true ∧ tree.Holds heap .event s := by
  induction parts generalizing trees with
  | nil =>
    rcases trees with _ | ⟨tree, trees⟩
    · simp [assigned]
    · exact absurd h (by simp)
  | cons part parts ih =>
    rcases trees with _ | ⟨tree, trees⟩
    · exact absurd h (by simp)
    · obtain ⟨hfits, hrest⟩ := List.forall₂_cons.mp h
      have hhead := left_iff hfits s
      have htail := ih hrest
      simp only [mem_assigned, List.mem_filter, and_assoc] at htail
      simp only [mem_assigned, List.mem_filter, and_assoc, List.map_cons, List.zip_cons_cons, List.exists_mem_cons_iff,
        htail]
      rw [hhead, or_or_or_comm]

theorem mem_trees_iff {parts : List (Key × Slot n)} {trees : List (Tree n)} (h : trees.length = parts.length)
    {tree : Tree n} : tree ∈ trees ↔ ∃ key, (key, tree) ∈ (parts.map Prod.fst).zip trees := by
  constructor
  · intro htree
    have hsnd : ((parts.map Prod.fst).zip trees).map Prod.snd = trees := by
      rw [List.map_snd_zip]
      rw [List.length_map, h]
    obtain ⟨⟨key, tree'⟩, hmem, rfl⟩ := List.mem_map.mp (hsnd ▸ htree)
    exact ⟨key, hmem⟩
  · rintro ⟨key, hmem⟩
    exact (List.of_mem_zip hmem).2

/-- The elements of an array all stay. -/
theorem parts_array {o : Object n} (ho : (o.isErrorLike || o.items.isNone) = false) :
    ∀ part ∈ o.parts, part.1 ≠ proto := by
  obtain ⟨herror, hitems⟩ := Bool.or_eq_false_iff.mp ho
  rw [Object.parts, if_neg (by rw [herror]; exact Bool.false_ne_true)]
  rcases hcase : o.items with _ | items
  · rw [hcase] at hitems
    exact Bool.noConfusion hitems
  · rintro part hpart
    obtain ⟨⟨v, i⟩, -, rfl⟩ := List.mem_map.mp hpart
    exact index_ne_proto i

theorem holds_rebuild_iff {o : Object n} {trees : List (Tree n)}
    (h : List.Forall₂ (Fits heap) (o.parts.map Prod.snd) trees) (s : Text) :
    (o.rebuild trees).Holds heap .event s ↔
      (∃ part ∈ o.parts.filter stays, part.2.Gives heap s) ∨
        ∃ tree ∈ trees, tree.isMade = true ∧ tree.Holds heap .event s := by
  rw [← holds_assigned_iff h, Object.rebuild]
  have hlength : trees.length = o.parts.length := by
    rw [← h.length_eq, List.length_map]
  by_cases ho : (o.isErrorLike || o.items.isNone) = true
  · rw [if_pos ho]
    constructor
    · rintro (_ | _ | _ | ⟨hmem, htree⟩)
      exact ⟨_, hmem, htree⟩
    · rintro ⟨⟨key, tree⟩, hmem, htree⟩
      exact .field hmem htree
  · rw [if_neg ho]
    have hkeys := parts_array (Bool.not_eq_true _ ▸ ho)
    constructor
    · rintro (_ | _ | ⟨hmem, htree⟩ | _)
      obtain ⟨key, hzip⟩ := (mem_trees_iff hlength).mp hmem
      obtain ⟨part, hpart, rfl⟩ := List.mem_map.mp (List.of_mem_zip hzip).1
      exact ⟨_, mem_assigned.mpr ⟨hzip, Or.inl (hkeys part hpart)⟩, htree⟩
    · rintro ⟨⟨key, tree⟩, hmem, htree⟩
      exact .item ((mem_trees_iff hlength).mpr ⟨key, (mem_assigned.mp hmem).1⟩) htree

theorem written_rebuild {o : Object n} {trees : List (Tree n)}
    (h : List.Forall₂ (Fits heap) (o.parts.map Prod.snd) trees) {t : Text}
    (ht : (o.rebuild trees).Holds heap .redaction t) : t ∈ marks := by
  obtain ⟨tree, htree, hholds⟩ : ∃ tree ∈ trees, tree.Holds heap .redaction t := by
    rw [Object.rebuild] at ht
    split_ifs at ht
    · rcases ht with _ | _ | _ | ⟨hmem, htree⟩
      exact ⟨_, (List.of_mem_zip (mem_assigned.mp hmem).1).2, htree⟩
    · rcases ht with _ | _ | ⟨hmem, htree⟩ | _
      exact ⟨_, hmem, htree⟩
  obtain ⟨slot, -, hfits⟩ := Partial.exists_left h tree htree
  exact hfits.written t hholds

theorem isMade_rebuild (o : Object n) (trees : List (Tree n)) : (o.rebuild trees).isMade = true := by
  rw [Object.rebuild]
  split_ifs <;> rfl

theorem filled_object {id : Fin n} (hnew : id ∉ seen)
    (h : Filled heap (insert id seen) ((heap id).parts.map Prod.snd) trees seen') :
    Filled heap seen [.walk (.ref id)] [(heap id).rebuild trees] seen' where
  grows := (Finset.subset_insert id seen).trans h.grows
  covers := by
    intro id' hid'
    obtain ⟨⟩ := List.mem_singleton.mp hid'
    exact h.grows (Finset.mem_insert_self id seen)
  closed := by
    intro id' hid' hnot id'' hid''
    by_cases heq : id' = id
    · subst heq
      obtain ⟨part, hpart, hwalk⟩ := mem_walked_ref.mp hid''
      exact h.covers id'' (hwalk ▸ List.mem_map_of_mem (List.mem_of_mem_filter hpart))
    · exact h.closed id' hid' (fun hmem => (Finset.mem_insert.mp hmem).elim heq hnot) id'' hid''
  sound := by
    intro id' hid' hnot
    refine ⟨.ref id, ?_⟩
    by_cases heq : id' = id
    · exact ⟨0, List.mem_cons_self, heq ▸ .here _⟩
    · obtain ⟨v, d, hv, hmet⟩ := h.sound id' hid' fun hmem => (Finset.mem_insert.mp hmem).elim heq hnot
      obtain ⟨id'', rfl⟩ := ref_of_met hmet
      exact ⟨d + 1, List.mem_cons_self, .step (ref_mem_walked hv) hmet⟩
  made := by
    intro s
    constructor
    · rintro ⟨tree, htree, -, hholds⟩
      rw [List.mem_singleton.mp htree, holds_rebuild_iff h.each, h.made] at hholds
      rcases hholds with hlocal | ⟨id', hid', hnot, hlocal⟩
      · exact ⟨id, h.grows (Finset.mem_insert_self id seen), hnew, hlocal⟩
      · exact ⟨id', hid', fun hmem => hnot (Finset.mem_insert_of_mem hmem), hlocal⟩
    · rintro ⟨id', hid', hnot, hlocal⟩
      refine ⟨_, List.mem_cons_self, isMade_rebuild _ _, (holds_rebuild_iff h.each s).mpr ?_⟩
      by_cases heq : id' = id
      · exact Or.inl (heq ▸ hlocal)
      · exact Or.inr ((h.made s).mpr ⟨id', hid', fun hmem => (Finset.mem_insert.mp hmem).elim heq hnot, hlocal⟩)
  each := by
    refine .cons ⟨fun hmade => ?_, fun _ s hs => hs, ?_, fun t ht => written_rebuild h.each ht⟩ .nil
    · rw [isMade_rebuild] at hmade
      exact Bool.noConfusion hmade
    · rw [Object.rebuild]
      split_ifs <;> rfl

end Objects

/-! ### Runs of the walk -/

section Runs

variable {frames : ℕ}

theorem filled_fill {walk : Seen n → Value n → Option (Tree n × Seen n)}
    (hwalk : ∀ seen v tree seen', walk seen v = some (tree, seen') → Filled heap seen [.walk v] [tree] seen')
    (h : fill walk seen slots = some (trees, seen')) : Filled heap seen slots trees seen' := by
  induction slots generalizing seen trees with
  | nil =>
    obtain ⟨rfl, rfl⟩ := Prod.mk.inj (Option.some.inj h)
    exact filled_nil
  | cons slot slots ih =>
    rcases slot with v | _ | v
    · obtain ⟨⟨trees', seen₁⟩, hrest, heq⟩ := Option.map_eq_some_iff.mp h
      obtain ⟨rfl, rfl⟩ := Prod.mk.inj heq
      exact (filled_atom (fits_keep v) rfl fun id hid => (nomatch hid)).append (ih hrest)
    · obtain ⟨⟨trees', seen₁⟩, hrest, heq⟩ := Option.map_eq_some_iff.mp h
      obtain ⟨rfl, rfl⟩ := Prod.mk.inj heq
      exact (filled_atom fits_hide rfl fun id hid => (nomatch hid)).append (ih hrest)
    · obtain ⟨⟨tree, seen₁⟩, hfirst, h⟩ := Option.bind_eq_some_iff.mp h
      obtain ⟨⟨trees', seen₂⟩, hrest, heq⟩ := Option.bind_eq_some_iff.mp h
      obtain ⟨rfl, rfl⟩ := Prod.mk.inj (Option.some.inj heq)
      exact (hwalk _ _ _ _ hfirst).append (ih hrest)

theorem filled_redactNested {v : Value n} {tree : Tree n} (h : redactNested heap frames seen v = some (tree, seen')) :
    Filled heap seen [.walk v] [tree] seen' := by
  induction frames generalizing seen v tree seen' with
  | zero => exact absurd h (Option.some_ne_none _).symm
  | succ frames ih =>
    cases v
    case ref id =>
      rw [redactNested] at h
      by_cases hseen : id ∈ seen
      · rw [if_pos hseen] at h
        obtain ⟨rfl, rfl⟩ := Prod.mk.inj (Option.some.inj h)
        refine filled_atom (fits_mark (by simp [marks]) (fun _ hs => hs) rfl) rfl ?_
        rintro _ ⟨⟩
        exact hseen
      · rw [if_neg hseen] at h
        obtain ⟨⟨trees, seen₁⟩, hfill, heq⟩ := Option.map_eq_some_iff.mp h
        obtain ⟨rfl, rfl⟩ := Prod.mk.inj heq
        exact filled_object hseen (filled_fill (fun _ _ _ _ => ih) hfill)
    case function =>
      obtain ⟨rfl, rfl⟩ := Prod.mk.inj (Option.some.inj h)
      exact filled_atom (fits_mark (by simp [marks]) (fun _ hs => hs) rfl) rfl fun id hid => (nomatch hid)
    case string t =>
      obtain ⟨rfl, rfl⟩ := Prod.mk.inj (Option.some.inj h)
      exact filled_atom (fits_scalar (fun s => holds_string) rfl) rfl fun id hid => (nomatch hid)
    case symbol description =>
      obtain ⟨rfl, rfl⟩ := Prod.mk.inj (Option.some.inj h)
      exact filled_atom (fits_scalar (fun s => holds_string) rfl) rfl fun id hid => (nomatch hid)
    all_goals
      obtain ⟨rfl, rfl⟩ := Prod.mk.inj (Option.some.inj h)
      exact filled_atom (fits_scalar (fun s => iff_of_false (by rintro ⟨⟩) id) rfl) rfl fun id hid => (nomatch hid)

/-- Slots are filled when the walk returns on each value, whatever has been seen by then. -/
theorem exists_fill {walk : Seen n → Value n → Option (Tree n × Seen n)}
    (hwalk : ∀ seen v tree seen', walk seen v = some (tree, seen') → Filled heap seen [.walk v] [tree] seen')
    (hends : ∀ seen', seen ⊆ seen' → ∀ v, ∃ r, walk seen' v = some r) (slots : List (Slot n)) :
    ∃ r, fill walk seen slots = some r := by
  induction slots generalizing seen with
  | nil => exact ⟨_, rfl⟩
  | cons slot slots ih =>
    rcases slot with v | _ | v
    · obtain ⟨r, hr⟩ := ih hends
      exact ⟨_, by rw [fill, hr]; rfl⟩
    · obtain ⟨r, hr⟩ := ih hends
      exact ⟨_, by rw [fill, hr]; rfl⟩
    · obtain ⟨⟨tree, seen₁⟩, hfirst⟩ := hends seen (Finset.Subset.refl seen) v
      have hgrows := (hwalk _ _ _ _ hfirst).grows
      obtain ⟨⟨trees, seen₂⟩, hrest⟩ := ih fun seen' hseen' => hends seen' (hgrows.trans hseen')
      refine ⟨(tree :: trees, seen₂), ?_⟩
      rw [fill, hfirst]
      dsimp only [Option.bind_eq_bind, Option.bind_some]
      rw [hrest]
      rfl

/-- The walk returns when there are more frames than objects not seen. -/
theorem exists_redactNested (hframes : seenᶜ.card < frames) (v : Value n) :
    ∃ r, redactNested heap frames seen v = some r := by
  induction frames generalizing seen v with
  | zero => exact absurd hframes (Nat.not_lt_zero _)
  | succ frames ih =>
    cases v
    case ref id =>
      rw [redactNested]
      by_cases hseen : id ∈ seen
      · exact ⟨_, if_pos hseen⟩
      · rw [if_neg hseen]
        have hless : (insert id seen)ᶜ.card < seenᶜ.card := by
          refine Finset.card_lt_card (Finset.compl_ssubset_compl.mpr (Finset.ssubset_insert hseen))
        obtain ⟨r, hr⟩ := @exists_fill n heap (insert id seen) _ (fun _ _ _ _ => filled_redactNested)
          (fun seen' hgrows => ih ((Finset.card_le_card (Finset.compl_subset_compl.mpr hgrows)).trans_lt (by omega)))
          ((heap id).parts.map Prod.snd)
        exact ⟨_, by rw [hr]; rfl⟩
    all_goals exact ⟨_, rfl⟩

/-! ### All that is met -/

theorem ref_of_walked {v w : Value n} (h : w ∈ walked heap v) : ∃ id, v = .ref id := by
  cases v
  case ref id => exact ⟨id, rfl⟩
  all_goals exact absurd h List.not_mem_nil

/-- Every object met from filled slots has been seen. -/
theorem Filled.met (h : Filled heap ∅ slots trees seen) {v : Value n} (hv : .walk v ∈ slots) {d : ℕ} {w : Value n}
    (hmet : Met (walked heap) v d w) : ∀ id, w = .ref id → id ∈ seen := by
  suffices hstep : ∀ v, (∀ id, v = .ref id → id ∈ seen) → ∀ d w, Met (walked heap) v d w →
      ∀ id, w = .ref id → id ∈ seen from hstep v (fun id hid => h.covers id (hid ▸ hv)) d w hmet
  intro v hv d w hmet
  induction hmet with
  | here a => exact hv
  | step hc _ ih =>
    refine ih fun id' hid' => ?_
    obtain ⟨id, rfl⟩ := ref_of_walked hc
    exact h.closed id (hv id rfl) (Finset.notMem_empty id) id' (hid' ▸ hc)

/-- The texts of the event in what fills some parts: what the walk leaves of all it meets. -/
theorem Filled.leaves_iff {parts : List (Key × Slot n)} (hkeeps : ∀ part ∈ parts, ∀ v, part.2 ≠ .keep v)
    (h : Filled heap ∅ (parts.map Prod.snd) trees seen) (s : Text) :
    (∃ part ∈ parts.filter stays, part.2.Gives heap s) ∨
        (∃ tree ∈ trees, tree.isMade = true ∧ tree.Holds heap .event s) ↔
      ∃ root ∈ begins parts, ∃ d v, Met (walked heap) root d v ∧ Leaves heap v s := by
  rw [h.made]
  constructor
  · rintro (⟨⟨k, slot⟩, hpart, hgives⟩ | ⟨id, hid, hnot, ⟨k, slot⟩, hpart, hgives⟩)
    · rcases slot with v | _ | v
      · exact absurd rfl (hkeeps _ (List.mem_of_mem_filter hpart) v)
      · exact absurd hgives id
      · exact ⟨v, mem_begins.mpr ⟨_, hpart, rfl⟩, 0, v, .here v, Or.inl hgives⟩
    · obtain ⟨root, d, hroot, hmet⟩ := h.sound id hid hnot
      obtain ⟨id', rfl⟩ := ref_of_met hmet
      obtain ⟨root, hroot, hslot⟩ := List.mem_map.mp hroot
      have hbegins : .ref id' ∈ begins parts := by
        refine mem_begins.mpr ⟨root, List.mem_filter.mpr ⟨hroot, ?_⟩, hslot⟩
        obtain ⟨k, slot⟩ := root
        obtain rfl := hslot
        exact Bool.or_true _
      rcases slot with w | _ | w
      · exact ⟨_, hbegins, d, _, hmet, Or.inr ⟨id, rfl, _, hpart, w, rfl, hgives⟩⟩
      · exact absurd hgives fun h => h
      · exact ⟨_, hbegins, d + 1, w, hmet.snoc (mem_walked_ref.mpr ⟨_, hpart, rfl⟩), Or.inl hgives⟩
  · rintro ⟨root, hroot, d, v, hmet, hleaves⟩
    obtain ⟨⟨k, slot⟩, hpart, rfl⟩ := mem_begins.mp hroot
    have hslot : .walk root ∈ parts.map Prod.snd := List.mem_map_of_mem (List.mem_of_mem_filter hpart)
    rcases hleaves with hgives | ⟨id, rfl, part, hkeep, w, hw, hholds⟩
    · rcases hmet.last with rfl | ⟨e, c, hmet', hv⟩
      · exact Or.inl ⟨_, hpart, hgives⟩
      · obtain ⟨id, rfl⟩ := ref_of_walked hv
        obtain ⟨part, hpart', hwalk⟩ := mem_walked_ref.mp hv
        exact Or.inr ⟨id, h.met hslot hmet' id rfl, Finset.notMem_empty id, part, hpart', hwalk ▸ hgives⟩
    · exact Or.inr ⟨id, h.met hslot hmet id rfl, Finset.notMem_empty id, part, hkeep, hw ▸ hholds⟩

end Runs

end Walk

end Vellar.Cleanup.AuditRedaction
