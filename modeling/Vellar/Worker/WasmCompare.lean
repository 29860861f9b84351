import Vellar.Worker.WasmSections

/-!
# Vellar.Worker.WasmCompare — the metadata-tolerant comparison

The rest of `services/worker-service/src/wasm-compare.ts`: the normalized view of a module, the toolchain
stamps, and `compareWasm`.  The view and the stamps are generic in the reading, `compareWasm` uses the
service's.  `compareWasm_toolchain_iff` says when the answer is `toolchain-metadata`, in terms of the last
value stored under a key (`lastValue`) rather than of the `Map` the source fills.
-/

set_option autoImplicit false

namespace Vellar.Wasm

open Checked Streams

/-- The only `contractmetav0` keys normalized. -/
def TOOLCHAIN_META_KEYS : List String := ["rsver", "rssdkver"]

inductive WasmComparison where
  | exact
  | toolchainMetadata (normalizedKeys : List String)
  | none (reason : String)
deriving DecidableEq

section View

variable {ν : Type} [DecidableEq ν] (R : Reading ν)

/-- The section is a `contractmetav0` custom section. -/
def IsMeta (s : WasmSection ν) : Prop := s.id = 0 ∧ s.name = some (R.lit CONTRACT_META_SECTION)

instance (s : WasmSection ν) : Decidable (IsMeta R s) := inferInstanceAs (Decidable (_ ∧ _))

/-- `TOOLCHAIN_META_KEYS.has(e.key)`. -/
def IsToolchain (e : MetaEntry ν) : Prop := e.key ∈ TOOLCHAIN_META_KEYS.map R.lit

instance (e : MetaEntry ν) : Decidable (IsToolchain R e) := inferInstanceAs (Decidable (_ ∈ _))

/-- What one turn of the loop of `normalizedView` pushes. -/
def normalizedSection (s : WasmSection ν) : List (WasmSection ν) :=
  if ¬ IsMeta R s then [s]
  else
    match parseMetaEntries R s.content with
    | .error _ => [s]
    | .ok entries =>
      let kept := entries.filter fun e => ¬ IsToolchain R e
      if kept.length = 0 then []
      else [⟨0, some (R.lit CONTRACT_META_SECTION), kept.flatMap MetaEntry.raw⟩]

def normalizedView (sections : List (WasmSection ν)) : List (WasmSection ν) :=
  sections.flatMap (normalizedSection R)

/-- The entries of the cleanly parsed `contractmetav0` sections, in order. -/
def metaEntries (sections : List (WasmSection ν)) : List (MetaEntry ν) :=
  sections.flatMap fun s =>
    if ¬ IsMeta R s then []
    else
      match parseMetaEntries R s.content with
      | .error _ => []
      | .ok entries => entries

/-- The body of the inner loop of `collect`. -/
def setStamp (map : ν → Option ν) (e : MetaEntry ν) : ν → Option ν :=
  if IsToolchain R e then Function.update map e.key (some e.val) else map

/-- `collect` of `differingToolchainKeys`. -/
def collect (sections : List (WasmSection ν)) : ν → Option ν :=
  (metaEntries R sections).foldl (setStamp R) fun _ => none

def differingToolchainKeys (a b : List (WasmSection ν)) : List String :=
  (TOOLCHAIN_META_KEYS.filter fun k => collect R a (R.lit k) ≠ collect R b (R.lit k)).insertionSort (· ≤ ·)

/-- The first position where the views differ, as the log names it. -/
def differingSection (va vb : List (WasmSection String)) : Option String :=
  ((va.zip vb).find? fun p => p.1.id ≠ p.2.id ∨ p.1.name ≠ p.2.name ∨ p.1.content ≠ p.2.content).map fun p =>
    if p.1.id = 0 then "custom section \"" ++ p.1.name.getD "undefined" ++ "\"" else s!"section id {p.1.id}"

end View

/-- `compareWasm`. -/
def compareWasm (rebuilt deployed : Bytes) : WasmComparison :=
  if rebuilt = deployed then .exact
  else
    match (do
      let a ← parseWasmSections textReading rebuilt
      let b ← parseWasmSections textReading deployed
      pure (a, b) : Except String _) with
    | .error message => .none s!"unparseable wasm: {message}"
    | .ok (a, b) =>
      let va := normalizedView textReading a
      let vb := normalizedView textReading b
      if va.length ≠ vb.length then .none "section layout differs"
      else
        match differingSection va vb with
        | some label => .none s!"{label} differs"
        | none =>
          let normalizedKeys := differingToolchainKeys textReading a b
          if normalizedKeys.length = 0 then .none "binary differs outside the toolchain stamp values"
          else .toolchainMetadata normalizedKeys

/-! ## When the answer is `toolchain-metadata` -/

section LastValue

variable {ν : Type} [DecidableEq ν] (R : Reading ν)

/-- The last value stored under a key. -/
def lastValue (sections : List (WasmSection ν)) (k : String) : Option ν :=
  ((metaEntries R sections).filter fun e => e.key = R.lit k).getLast?.map MetaEntry.val

/-- Some toolchain key has another last value. -/
def StampsDiffer (a d : List (WasmSection ν)) : Prop :=
  ∃ k ∈ TOOLCHAIN_META_KEYS, lastValue R a k ≠ lastValue R d k

/-- Two modules that differ, parse, have one normalized view, and not the same last stamps. -/
def MatchBy (A D : Bytes) : Prop :=
  A ≠ D ∧ ∃ a d, parseWasmSections R A = .ok a ∧ parseWasmSections R D = .ok d ∧
    normalizedView R a = normalizedView R d ∧ StampsDiffer R a d

theorem collect_eq_lastValue (sections : List (WasmSection ν)) {k : String} (hk : k ∈ TOOLCHAIN_META_KEYS) :
    collect R sections (R.lit k) = lastValue R sections k := by
  unfold collect lastValue
  induction metaEntries R sections using List.reverseRecOn with
  | nil => rfl
  | append_singleton l e ih =>
    rw [List.foldl_append, List.filter_append]
    simp only [List.foldl_cons, List.foldl_nil, setStamp]
    by_cases hkey : e.key = R.lit k
    · have htool : IsToolchain R e := by
        rw [IsToolchain, hkey]
        exact List.mem_map_of_mem hk
      rw [if_pos htool, hkey, Function.update_self]
      simp [hkey]
    · have hfilter : [e].filter (fun e => e.key = R.lit k) = [] := by simp [hkey]
      rw [hfilter, List.append_nil, ← ih]
      split_ifs
      · exact Function.update_of_ne (Ne.symm hkey) _ _
      · rfl

end LastValue

theorem differingSection_none {va vb : List (WasmSection String)} (hlen : va.length = vb.length) :
    differingSection va vb = none ↔ va = vb := by
  unfold differingSection
  rw [Option.map_eq_none_iff, List.find?_eq_none]
  induction va generalizing vb with
  | nil => simp [List.length_eq_zero_iff.mp hlen.symm]
  | cons a va ih =>
    cases vb with
    | nil => simp at hlen
    | cons b vb =>
      have hlen' : va.length = vb.length := by simpa using hlen
      rw [List.zip_cons_cons, List.forall_mem_cons, ih hlen', List.cons.injEq]
      refine and_congr_left fun _ => ?_
      obtain ⟨ida, namea, ca⟩ := a
      obtain ⟨idb, nameb, cb⟩ := b
      simp [not_or]

theorem differingToolchainKeys_length {ν : Type} [DecidableEq ν] (R : Reading ν) (a d : List (WasmSection ν)) :
    (differingToolchainKeys R a d).length = 0 ↔ ¬ StampsDiffer R a d := by
  unfold differingToolchainKeys StampsDiffer
  rw [List.length_insertionSort, List.length_eq_zero_iff, List.filter_eq_nil_iff]
  simp only [not_exists, not_and, not_not, decide_eq_true_eq]
  refine forall₂_congr fun k hk => ?_
  rw [collect_eq_lastValue R a hk, collect_eq_lastValue R d hk]

/-- **What the service decides**, in its own reading of names, keys and values. -/
theorem compareWasm_toolchain_iff {A D : Bytes} :
    (∃ keys, compareWasm A D = .toolchainMetadata keys) ↔ MatchBy textReading A D := by
  unfold compareWasm
  by_cases hAD : A = D
  · simp [hAD, MatchBy]
  have hparse : (∃ a d, parseWasmSections textReading A = .ok a ∧ parseWasmSections textReading D = .ok d) ∨
      ∃ message, (do
        let a ← parseWasmSections textReading A
        let b ← parseWasmSections textReading D
        pure (a, b) : Except String _) = .error message := by
    cases ha : parseWasmSections textReading A with
    | error e => exact .inr ⟨e, rfl⟩
    | ok a =>
      cases hd : parseWasmSections textReading D with
      | error e => exact .inr ⟨e, rfl⟩
      | ok d => exact .inl ⟨a, d, rfl, rfl⟩
  rw [if_neg hAD]
  rcases hparse with ⟨a, d, ha, hd⟩ | ⟨message, hm⟩
  · have hgoal : MatchBy textReading A D ↔ normalizedView textReading a = normalizedView textReading d ∧
        StampsDiffer textReading a d := by
      unfold MatchBy
      simp [hAD, ha, hd]
    have hpair : (do
        let a ← parseWasmSections textReading A
        let b ← parseWasmSections textReading D
        pure (a, b) : Except String _) = .ok (a, d) := by
      rw [ha, hd]
      rfl
    rw [hgoal, hpair]
    simp only
    by_cases hlen : (normalizedView textReading a).length = (normalizedView textReading d).length
    · rw [if_neg (not_not.mpr hlen)]
      cases hdiff : differingSection (normalizedView textReading a) (normalizedView textReading d) with
      | some label =>
        have hne : normalizedView textReading a ≠ normalizedView textReading d := by
          intro heq
          rw [(differingSection_none hlen).mpr heq] at hdiff
          cases hdiff
        simp [hne]
      | none =>
        have heq := (differingSection_none hlen).mp hdiff
        simp only [heq, true_and]
        by_cases hkeys : (differingToolchainKeys textReading a d).length = 0
        · rw [if_pos hkeys]
          simp [(differingToolchainKeys_length textReading a d).mp hkeys]
        · rw [if_neg hkeys]
          simp [not_not.mp (mt (differingToolchainKeys_length textReading a d).mpr hkeys)]
    · have hne : normalizedView textReading a ≠ normalizedView textReading d := fun heq => hlen (by rw [heq])
      simp [hlen, hne]
  · rw [hm]
    have hno : ¬ MatchBy textReading A D := by
      rintro ⟨-, a, d, ha, hd, -⟩
      rw [ha, hd] at hm
      cases hm
    simp [hno]

end Vellar.Wasm
