import Vellar.Lib.JsonText
import Vellar.Policy.Templates
import Vellar.Worker.WasmMatch

/-!
# Vellar.Policy.CanonicalJson — what a policy hash identifies

`canonicalize` prints a value as `JSON.stringify` prints it once the keys of every object are in order
(`toList_canonicalize`), and what was printed reads back, so two values with one canonical text are the same up to the
order of keys (`content_iff`), and a definition that was stored as JSON keeps its hash.
-/

set_option autoImplicit false

namespace Vellar.Policy

open JsonText Wasm Worker
open Hex (hexOf fromHex_hexOf)

/-! ## The order of keys -/

theorem toNat_valid (c : Char) : c.toNat < 0xd800 ∨ 0xdfff < c.toNat ∧ c.toNat < 0x110000 := c.valid

/-- The units of a character. -/
def units (c : Char) : List ℕ :=
  if c.toNat < 0x10000 then [c.toNat] else [0xd7c0 + c.toNat / 0x400, 0xdc00 + c.toNat % 0x400]

theorem units_append {c d : Char} {r r' : List ℕ} (h : units c ++ r = units d ++ r') : c = d ∧ r = r' := by
  have hc := toNat_valid c
  have hd := toNat_valid d
  unfold units at h
  split_ifs at h with hsmall hsmall' hsmall'
  · obtain ⟨hnat, hrest⟩ := List.cons.inj h
    exact ⟨Char.toNat_inj.mp hnat, hrest⟩
  · have hhead := (List.cons.inj h).1
    omega
  · have hhead := (List.cons.inj h).1
    omega
  · obtain ⟨hhigh, hrest⟩ := List.cons.inj h
    obtain ⟨hlow, hrest⟩ := List.cons.inj hrest
    exact ⟨Char.toNat_inj.mp (by omega), hrest⟩

theorem flatMap_units_injective : ∀ {cs ds : List Char}, cs.flatMap units = ds.flatMap units → cs = ds
  | [], [], _ => rfl
  | [], d :: ds, h => by
    exfalso
    rw [List.flatMap_nil, List.flatMap_cons] at h
    unfold units at h
    split_ifs at h <;> cases h
  | c :: cs, [], h => by
    exfalso
    rw [List.flatMap_nil, List.flatMap_cons] at h
    unfold units at h
    split_ifs at h <;> cases h
  | c :: cs, d :: ds, h => by
    rw [List.flatMap_cons, List.flatMap_cons] at h
    obtain ⟨rfl, hrest⟩ := units_append h
    rw [flatMap_units_injective hrest]

theorem utf16_injective : Function.Injective utf16 := fun _ _ h => String.toList_inj.mp (flatMap_units_injective h)

/-- The order in which `canonicalize` puts entries. -/
def byKey {α : Type} (a b : String × α) : Bool := decide (utf16 a.1 ≤ utf16 b.1)

theorem map_byKey {α β : Type} (f : α → β) (fields : List (String × α)) :
    (fields.mergeSort byKey).map (fun e => (e.1, f e.2)) = (fields.map fun e => (e.1, f e.2)).mergeSort byKey :=
  List.map_mergeSort fun _ _ _ _ => rfl

/-- Entries with distinct keys have one order. -/
theorem mergeSort_byKey_eq_iff {α : Type} {fields fields' : List (String × α)} (h : (fields.map Prod.fst).Nodup)
    (h' : (fields'.map Prod.fst).Nodup) :
    fields.mergeSort byKey = fields'.mergeSort byKey ↔ ∀ e, e ∈ fields ↔ e ∈ fields' := by
  rw [← List.perm_ext_iff_of_nodup h.of_map h'.of_map]
  constructor
  · intro hsorted
    have hperm := List.mergeSort_perm fields byKey
    rw [hsorted] at hperm
    exact hperm.symm.trans (List.mergeSort_perm fields' byKey)
  · intro hperm
    have hordered : ∀ l : List (String × α), (l.mergeSort byKey).Pairwise fun a b => byKey a b = true := by
      refine List.pairwise_mergeSort (fun a b c hab hbc => ?_) fun a b => ?_
      · exact decide_eq_true (le_trans (of_decide_eq_true hab) (of_decide_eq_true hbc))
      · simpa [byKey] using le_total (utf16 a.1) (utf16 b.1)
    refine List.Perm.eq_of_pairwise (fun a b ha hb hab hba => ?_) (hordered fields) (hordered fields')
      ((List.mergeSort_perm ..).trans (hperm.trans (List.mergeSort_perm ..).symm))
    have hkeys : a.1 = b.1 := utf16_injective (le_antisymm (of_decide_eq_true hab) (of_decide_eq_true hba))
    exact List.inj_on_of_nodup_map h ((List.mergeSort_perm ..).mem_iff.mp ha)
      (hperm.mem_iff.mpr ((List.mergeSort_perm ..).mem_iff.mp hb)) hkeys

mutual

/-- The value with the keys of every object in order. -/
def sortKeys : Json → Json
  | .null => .null
  | .bool b => .bool b
  | .num n => .num n
  | .str s => .str s
  | .arr items => .arr (sortKeysItems items)
  | .obj fields => .obj ((sortKeysFields fields).mergeSort byKey)

def sortKeysItems : List Json → List Json
  | [] => []
  | item :: rest => sortKeys item :: sortKeysItems rest

def sortKeysFields : List (String × Json) → List (String × Json)
  | [] => []
  | (key, value) :: rest => (key, sortKeys value) :: sortKeysFields rest

end

theorem sortKeysItems_eq (items : List Json) : sortKeysItems items = items.map sortKeys := by
  induction items with
  | nil => rfl
  | cons item rest ih => rw [sortKeysItems, ih, List.map_cons]

theorem sortKeysFields_eq (fields : List (String × Json)) :
    sortKeysFields fields = fields.map fun e => (e.1, sortKeys e.2) := by
  induction fields with
  | nil => rfl
  | cons field rest ih => rw [sortKeysFields, ih, List.map_cons]

theorem distinct_sortKeys {v : Json} : Distinct v → Distinct (sortKeys v) := by
  induction v using JsonText.induction with
  | arr items ih =>
    rw [sortKeys, distinct_arr, distinct_arr, sortKeysItems_eq]
    intro h w hw
    obtain ⟨v, hv, rfl⟩ := List.mem_map.mp hw
    exact ih v hv (h v hv)
  | obj fields ih =>
    rw [sortKeys, distinct_obj, distinct_obj, sortKeysFields_eq]
    rintro ⟨hnodup, hvalues⟩
    refine ⟨?_, fun e he => ?_⟩
    · refine ((List.mergeSort_perm ..).map Prod.fst).nodup_iff.mpr ?_
      simpa [List.map_map, Function.comp_def] using hnodup
    · obtain ⟨field, hfield, rfl⟩ := List.mem_map.mp ((List.mergeSort_perm ..).mem_iff.mp he)
      exact ih field hfield (hvalues field hfield)
  | _ => exact id

section Text

variable (numberText : ℚ → String)

theorem canonicalizeItems_eq (items : List Json) :
    canonicalizeItems numberText items = items.map (canonicalize numberText) := by
  induction items with
  | nil => rfl
  | cons item rest ih => rw [canonicalizeItems, ih, List.map_cons]

theorem canonicalizeFields_eq (fields : List (String × Json)) :
    canonicalizeFields numberText fields = fields.map fun e => (e.1, canonicalize numberText e.2) := by
  induction fields with
  | nil => rfl
  | cons field rest ih => rw [canonicalizeFields, ih, List.map_cons]

theorem toList_intercalate (texts : List String) :
    (",".intercalate texts).toList = commas (texts.map String.toList) := by
  rw [String.toList_intercalate]
  rfl

/-- **The canonical text** is the text of the value with its keys in order. -/
theorem toList_canonicalize (v : Json) : (canonicalize numberText v).toList = stringify numberText (sortKeys v) := by
  induction v using JsonText.induction with
  | null => simp [canonicalize, sortKeys, stringify]
  | bool b => cases b <;> simp [canonicalize, sortKeys, stringify]
  | num n => rw [canonicalize, sortKeys, stringify]
  | str s => rw [canonicalize, sortKeys, stringify]
  | arr items ih =>
    have hitems : (items.map (canonicalize numberText)).map String.toList =
        (items.map sortKeys).map (stringify numberText) := by
      rw [List.map_map, List.map_map]
      exact List.map_congr_left ih
    rw [canonicalize, sortKeys, stringify, stringifyItems_eq, sortKeysItems_eq, canonicalizeItems_eq,
      String.toList_append, String.toList_append, toList_intercalate, hitems]
    rfl
  | obj fields ih =>
    have htexts : (fields.map fun e => (e.1, canonicalize numberText e.2)).map (fun e => (e.1, e.2.toList)) =
        (fields.map fun e => (e.1, sortKeys e.2)).map fun e => (e.1, stringify numberText e.2) := by
      rw [List.map_map, List.map_map]
      exact List.map_congr_left fun e he => congrArg (Prod.mk e.1) (ih e he)
    have hsorted : ((fields.map fun e => (e.1, canonicalize numberText e.2)).mergeSort byKey).map
          (fun e => (e.1, e.2.toList)) =
        ((fields.map fun e => (e.1, sortKeys e.2)).mergeSort byKey).map fun e => (e.1, stringify numberText e.2) := by
      rw [map_byKey, map_byKey, htexts]
    have hprinted : (((fields.map fun e => (e.1, canonicalize numberText e.2)).mergeSort byKey).map
          fun e => jsonString e.1 ++ ":" ++ e.2).map String.toList =
        ((fields.map fun e => (e.1, sortKeys e.2)).mergeSort byKey).map (stringifyField numberText) := by
      have hfields := congrArg (List.map fun e : String × List Char => (jsonString e.1).toList ++ ':' :: e.2) hsorted
      rw [List.map_map, List.map_map] at hfields
      rw [List.map_map]
      refine Eq.trans (List.map_congr_left fun e _ => ?_) hfields
      simp
    rw [canonicalize, sortKeys, stringify, stringifyFields_eq, sortKeysFields_eq, canonicalizeFields_eq,
      String.toList_append, String.toList_append, toList_intercalate]
    exact congrArg (fun texts => '\x7b' :: commas texts ++ ['\x7d']) hprinted

end Text

/-! ## Sameness -/

section Same

variable (numberText : ℚ → String)

mutual

/-- One JSON value up to the order of keys, numbers by what they are printed as. -/
def Same : Json → Json → Prop
  | .null, .null => True
  | .bool b, .bool b' => b = b'
  | .num n, .num n' => numberText n = numberText n'
  | .str s, .str s' => s = s'
  | .arr items, .arr items' => SameItems items items'
  | .obj fields, .obj fields' => SameFields fields fields' ∧ ∀ key ∈ fields'.map Prod.fst, key ∈ fields.map Prod.fst
  | _, _ => False

def SameItems : List Json → List Json → Prop
  | [], [] => True
  | item :: rest, item' :: rest' => Same item item' ∧ SameItems rest rest'
  | _, _ => False

/-- The other object has the same under every key. -/
def SameFields : List (String × Json) → List (String × Json) → Prop
  | [], _ => True
  | (key, value) :: rest, fields' =>
    (∃ value', fields'.lookup key = some value' ∧ Same value value') ∧ SameFields rest fields'

end

variable {numberText}

theorem sameItems_iff {items items' : List Json} :
    SameItems numberText items items' ↔ List.Forall₂ (Same numberText) items items' := by
  induction items generalizing items' with
  | nil => cases items' <;> simp [SameItems]
  | cons item rest ih =>
    cases items' with
    | nil => simp [SameItems]
    | cons item' rest' => rw [SameItems, ih, List.forall₂_cons]

theorem sameFields_iff {fields fields' : List (String × Json)} :
    SameFields numberText fields fields' ↔
      ∀ e ∈ fields, ∃ value', fields'.lookup e.1 = some value' ∧ Same numberText e.2 value' := by
  induction fields with
  | nil => simp [SameFields]
  | cons field rest ih => rw [SameFields, ih, List.forall_mem_cons]

end Same

/-- What is under a key, where keys are distinct. -/
theorem lookup_eq_some_iff {fields : List (String × Json)} (h : (fields.map Prod.fst).Nodup) {key : String}
    {value : Json} : fields.lookup key = some value ↔ (key, value) ∈ fields := by
  induction fields with
  | nil => simp
  | cons field rest ih =>
    rw [List.map_cons, List.nodup_cons] at h
    rw [List.lookup_cons, List.mem_cons]
    by_cases hkey : key = field.1
    · have habsent : (key, value) ∉ rest := fun hmem => h.1 (hkey ▸ List.mem_map_of_mem hmem)
      rw [beq_iff_eq.mpr hkey]
      simp only [Option.some.injEq, habsent, or_false]
      rw [Prod.ext_iff]
      exact ⟨fun heq => ⟨hkey, heq.symm⟩, fun heq => heq.2.symm⟩
    · rw [beq_false_of_ne hkey]
      dsimp only
      rw [ih h.2]
      exact ⟨.inr, fun hmem => hmem.resolve_left fun heq => hkey (congrArg Prod.fst heq)⟩

/-! ## One normal form -/

section Normal

variable {numberText : ℚ → String} {f : ℚ → ℚ}

/-- The value with its keys in order and `f` of its numbers. -/
def normal (f : ℚ → ℚ) (v : Json) : Json := mapNumbers f (sortKeys v)

theorem normal_arr (items : List Json) : normal f (.arr items) = .arr (items.map (normal f)) := by
  rw [normal, sortKeys, mapNumbers, mapNumbersItems_eq, sortKeysItems_eq, List.map_map]
  rfl

theorem normal_obj (fields : List (String × Json)) :
    normal f (.obj fields) = .obj ((fields.map fun e => (e.1, normal f e.2)).mergeSort byKey) := by
  rw [normal, sortKeys, mapNumbers, mapNumbersFields_eq, sortKeysFields_eq, map_byKey, List.map_map]
  rfl

theorem nodup_normal {fields : List (String × Json)} (h : (fields.map Prod.fst).Nodup) :
    ((fields.map fun e => (e.1, normal f e.2)).map Prod.fst).Nodup := by
  rw [List.map_map]
  exact h

theorem forall₂_iff_map_eq {R : Json → Json → Prop} {items items' : List Json}
    (h : ∀ v ∈ items, ∀ w ∈ items', R v w ↔ normal f v = normal f w) :
    List.Forall₂ R items items' ↔ items.map (normal f) = items'.map (normal f) := by
  induction items generalizing items' with
  | nil => cases items' <;> simp
  | cons item rest ih =>
    cases items' with
    | nil => simp
    | cons item' rest' =>
      rw [List.forall₂_cons, List.map_cons, List.map_cons, List.cons.injEq,
        h item List.mem_cons_self item' List.mem_cons_self,
        ih fun v hv w hw => h v (List.mem_cons_of_mem item hv) w (List.mem_cons_of_mem item' hw)]

/-- Two values are the same exactly if they have one normal form. -/
theorem same_iff_normal (hf : ∀ m n, f m = f n ↔ numberText m = numberText n) (x : Json) :
    ∀ y, Distinct x → Distinct y → (Same numberText x y ↔ normal f x = normal f y) := by
  induction x using JsonText.induction with
  | null =>
    intro y _ _
    cases y <;> simp [Same, normal, sortKeys, mapNumbers]
  | bool b =>
    intro y _ _
    cases y <;> simp [Same, normal, sortKeys, mapNumbers]
  | num n =>
    intro y _ _
    cases y <;> simp [Same, normal, sortKeys, mapNumbers, hf]
  | str s =>
    intro y _ _
    cases y <;> simp [Same, normal, sortKeys, mapNumbers]
  | arr items ih =>
    intro y hx hy
    rw [distinct_arr] at hx
    cases y with
    | arr items' =>
      rw [distinct_arr] at hy
      rw [Same, sameItems_iff, normal_arr, normal_arr, Json.arr.injEq]
      exact forall₂_iff_map_eq fun v hv w hw => ih v hv w (hx v hv) (hy w hw)
    | _ => simp [Same, normal, sortKeys, mapNumbers]
  | obj fields ih =>
    intro y hx hy
    cases y with
    | obj fields' =>
      obtain ⟨hkeys, hvalues⟩ := distinct_obj.mp hx
      obtain ⟨hkeys', hvalues'⟩ := distinct_obj.mp hy
      rw [Same, sameFields_iff, normal_obj, normal_obj, Json.obj.injEq,
        mergeSort_byKey_eq_iff (nodup_normal hkeys) (nodup_normal hkeys')]
      constructor
      · rintro ⟨hsame, hother⟩ ⟨key, value⟩
        rw [List.mem_map, List.mem_map]
        constructor
        · rintro ⟨e, he, heq⟩
          obtain ⟨value', hlookup, hvalue⟩ := hsame e he
          have hmem := (lookup_eq_some_iff hkeys').mp hlookup
          refine ⟨(e.1, value'), hmem, ?_⟩
          rw [← heq, (ih e he value' (hvalues e he) (hvalues' _ hmem)).mp hvalue]
        · rintro ⟨e', he', heq⟩
          obtain ⟨e, he, hkey⟩ := List.mem_map.mp (hother e'.1 (List.mem_map_of_mem he'))
          obtain ⟨value', hlookup, hvalue⟩ := hsame e he
          have hmem := (lookup_eq_some_iff hkeys').mp hlookup
          have hentry : (e.1, value') = e' := List.inj_on_of_nodup_map hkeys' hmem he' hkey
          refine ⟨e, he, ?_⟩
          rw [← heq, ← hentry, (ih e he value' (hvalues e he) (hvalues' _ hmem)).mp hvalue]
      · intro hmem
        refine ⟨fun e he => ?_, fun key hkey => ?_⟩
        · obtain ⟨e', he', heq⟩ := List.mem_map.mp ((hmem _).mp (List.mem_map_of_mem he))
          obtain ⟨hkey, hnormal⟩ := Prod.ext_iff.mp heq
          refine ⟨e'.2, (lookup_eq_some_iff hkeys').mpr ?_, ?_⟩
          · rw [← show e'.1 = e.1 from hkey]
            exact he'
          · exact (ih e he e'.2 (hvalues e he) (hvalues' e' he')).mpr hnormal.symm
        · obtain ⟨e', he', rfl⟩ := List.mem_map.mp hkey
          obtain ⟨e, he, heq⟩ := List.mem_map.mp ((hmem _).mpr (List.mem_map_of_mem he'))
          exact List.mem_map.mpr ⟨e, he, (Prod.ext_iff.mp heq).1⟩
    | _ => simp [Same, normal, sortKeys, mapNumbers]

end Normal

/-! ## The hash -/

section Hash

variable {numberText : ℚ → String}

theorem hexOf_injective : Function.Injective hexOf := fun a b h => by
  rw [← fromHex_hexOf a, h, fromHex_hexOf]

theorem stringify_mapNumbers {f : ℚ → ℚ} (hf : ∀ n, numberText (f n) = numberText n) (v : Json) :
    stringify numberText (mapNumbers f v) = stringify numberText v := by
  induction v using JsonText.induction with
  | num n => rw [mapNumbers, stringify, stringify, hf]
  | arr items ih =>
    rw [mapNumbers, stringify, stringify, stringifyItems_eq, stringifyItems_eq, mapNumbersItems_eq, List.map_map]
    exact congrArg (fun texts => '[' :: commas texts ++ [']']) (List.map_congr_left ih)
  | obj fields ih =>
    rw [mapNumbers, stringify, stringify, stringifyFields_eq, stringifyFields_eq, mapNumbersFields_eq, List.map_map]
    refine congrArg (fun texts => '\x7b' :: commas texts ++ ['\x7d']) (List.map_congr_left fun e he => ?_)
    exact congrArg (fun text => (jsonString e.1).toList ++ ':' :: text) (ih e he)
  | _ => rfl

theorem sortKeys_mapNumbers (f : ℚ → ℚ) (v : Json) : sortKeys (mapNumbers f v) = mapNumbers f (sortKeys v) := by
  induction v using JsonText.induction with
  | arr items ih =>
    rw [mapNumbers, sortKeys, sortKeys, mapNumbers, mapNumbersItems_eq, mapNumbersItems_eq, sortKeysItems_eq,
      sortKeysItems_eq, List.map_map, List.map_map]
    exact congrArg Json.arr (List.map_congr_left ih)
  | obj fields ih =>
    rw [mapNumbers, sortKeys, sortKeys, mapNumbers, mapNumbersFields_eq, mapNumbersFields_eq, sortKeysFields_eq,
      sortKeysFields_eq, map_byKey, List.map_map, List.map_map]
    refine congrArg (fun entries => Json.obj (entries.mergeSort byKey)) (List.map_congr_left fun e he => ?_)
    exact congrArg (Prod.mk e.1) (ih e he)
  | _ => rfl

/-- A canonical text is the text of one value, up to the order of keys. -/
theorem canonicalize_eq_iff (hnumerals : Numerals numberText) {x y : Json} (hx : Distinct x) (hy : Distinct y) :
    canonicalize numberText x = canonicalize numberText y ↔ Same numberText x y := by
  -- a number that is read for each numeral
  obtain ⟨pick, hpick⟩ : ∃ pick : String → ℚ, ∀ n, numberText (pick (numberText n)) = numberText n := by
    refine ⟨fun text => Function.invFun numberText text, fun n => ?_⟩
    exact Function.invFun_eq ⟨n, rfl⟩
  have hread : ∀ n, (some ∘ pick) (numberText n) = some ((pick ∘ numberText) n) := fun _ => rfl
  have hf : ∀ m n, (pick ∘ numberText) m = (pick ∘ numberText) n ↔ numberText m = numberText n := by
    intro m n
    constructor
    · intro h
      rw [← hpick m, ← hpick n]
      exact congrArg numberText h
    · intro h
      exact congrArg pick h
  rw [same_iff_normal hf x y hx hy, ← String.toList_inj, toList_canonicalize, toList_canonicalize]
  constructor
  · intro htext
    have hparsed := parse_stringify hnumerals hread (distinct_sortKeys hx)
    rw [htext, parse_stringify hnumerals hread (distinct_sortKeys hy)] at hparsed
    exact (Option.some.inj hparsed).symm
  · intro hnormal
    rw [← stringify_mapNumbers hpick (sortKeys x), ← stringify_mapNumbers hpick (sortKeys y)]
    exact congrArg (stringify numberText) hnormal

/-- The two texts are no collision. -/
def NoCollision (a b : List UInt8) : Prop := Sha256.sha256 a = Sha256.sha256 b → a = b

/-- **What a policy hash identifies**: the content of a definition, which storing it as JSON keeps. -/
theorem content_iff (hnumerals : Numerals numberText) {x y : Json} (hx : Distinct x) (hy : Distinct y) :
    (canonicalize numberText x = canonicalize numberText y ↔ Same numberText x y) ∧
    (NoCollision (utf8Bytes (canonicalize numberText x)) (utf8Bytes (canonicalize numberText y)) →
      (policyHash numberText x = policyHash numberText y ↔ Same numberText x y)) ∧
    ∀ readNumber : String → Option ℚ, (∀ n, ∃ m, readNumber (numberText n) = some m ∧ numberText m = numberText n) →
      ∃ stored, parse readNumber (stringify numberText x) = some stored ∧
        policyHash numberText stored = policyHash numberText x := by
  refine ⟨canonicalize_eq_iff hnumerals hx hy, fun hsha => ?_, fun readNumber hread => ?_⟩
  · rw [← canonicalize_eq_iff hnumerals hx hy]
    unfold policyHash
    constructor
    · intro h
      exact utf8Bytes_injective (hsha (hexOf_injective h))
    · intro h
      rw [h]
  · choose f hf using hread
    refine ⟨mapNumbers f x, parse_stringify hnumerals (fun n => (hf n).1) hx, ?_⟩
    have htext : canonicalize numberText (mapNumbers f x) = canonicalize numberText x := by
      rw [← String.toList_inj, toList_canonicalize, toList_canonicalize, sortKeys_mapNumbers,
        stringify_mapNumbers fun n => (hf n).2]
    rw [policyHash, policyHash, htext]

/-- What two numbers are printed as. -/
def smallText (n : ℚ) : String := if n = 1 then "1" else if n = 2 then "2" else "0"

def smallNumber (text : String) : Option ℚ := if text = "1" then some 1 else if text = "2" then some 2 else some 0

theorem smallText_numerals : Numerals smallText := by
  have hcases : ∀ n, smallText n = "1" ∨ smallText n = "2" ∨ smallText n = "0" := by
    intro n
    unfold smallText
    split_ifs <;> simp
  refine ⟨fun n => ?_, fun n => ?_⟩ <;> rcases hcases n with h | h | h <;> rw [h] <;> simp [isNumberChar]

/-- One definition with its keys in two orders. -/
theorem content_reordered :
    let x := Json.obj [("type", .str "spending_limit"), ("limits", .arr [.num 1, .num 2])]
    let y := Json.obj [("limits", .arr [.num 1, .num 2]), ("type", .str "spending_limit")]
    policyHash smallText x = policyHash smallText y ∧
      ∃ stored, parse smallNumber (stringify smallText x) = some stored ∧
        policyHash smallText stored = policyHash smallText x := by
  intro x y
  have hsame : Same smallText x y := by
    rw [Same, sameFields_iff]
    refine ⟨fun e he => ?_, by decide⟩
    rcases List.mem_cons.mp he with rfl | he
    · exact ⟨.str "spending_limit", rfl, by rw [Same]⟩
    · obtain rfl := List.mem_singleton.mp he
      exact ⟨.arr [.num 1, .num 2], rfl, by simp [Same, SameItems]⟩
  have hcontent := content_iff (x := x) (y := y) smallText_numerals
    (by simp [x, Distinct, DistinctFields, DistinctItems]) (by simp [y, Distinct, DistinctFields, DistinctItems])
  refine ⟨(hcontent.2.1 fun _ => ?_).mpr hsame, hcontent.2.2 smallNumber fun n => ?_⟩
  · rw [hcontent.1.mpr hsame]
  · unfold smallText
    split_ifs
    · exact ⟨1, by decide, by simp⟩
    · exact ⟨2, by decide, by simp⟩
    · exact ⟨0, by decide, by simp⟩

end Hash

end Vellar.Policy
