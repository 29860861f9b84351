import Vellar.Worker.WasmCompare

/-!
# Vellar.Worker.WasmMatch — the comparison against the bytes

What a metadata-only difference is, byte for byte: `MetadataOnly` reads names, keys and values as the bytes
they are.  The service reads them through a decoder that drops a leading byte-order mark, so it decides the
same question with such marks ignored (`bareReading`).

* `Via φ R S`: the reading `S` is `R` followed by `φ`; parsing, views and stamps follow (`Via.parse`,
  `Via.view`, `Via.lastValue`), and a second normalization absorbs a first one in a finer reading
  (`Via.view_view`).
* `compareWasm_sound_complete_iff`: the service is right exactly when no byte-order mark decides (`BomDecides`).
-/

set_option autoImplicit false

namespace Vellar.Wasm

open Checked Streams

/-! ## One reading through another -/

variable {ν μ : Type}

def WasmSection.map (φ : ν → μ) (s : WasmSection ν) : WasmSection μ := ⟨s.id, s.name.map φ, s.content⟩

def MetaEntry.map (φ : ν → μ) (e : MetaEntry ν) : MetaEntry μ := ⟨φ e.key, φ e.val, e.raw⟩

/-- The literals of the source that are compared with what was read. -/
def LITERALS : List String := CONTRACT_META_SECTION :: TOOLCHAIN_META_KEYS

/-- `S` reads as `R` does, and then applies `φ`. -/
structure Via (φ : ν → μ) (R : Reading ν) (S : Reading μ) : Prop where
  decode : ∀ bytes, S.decode bytes = (R.decode bytes).map φ
  lit : ∀ t ∈ LITERALS, S.lit t = φ (R.lit t)

namespace Via

section Parsing

variable {φ : ν → μ} {R : Reading ν} {S : Reading μ}

theorem sectionAt (h : Via φ R S) (bytes : Bytes) :
    Wasm.sectionAt S bytes = (Wasm.sectionAt R bytes).map fun r => (r.1.map φ, r.2) := by
  cases bytes with
  | nil => rfl
  | cons id afterId =>
    simp only [Wasm.sectionAt]
    rw [bind_map]
    refine bind_congr fun size => ?_
    rw [bind_map]
    refine bind_congr fun _ => ?_
    by_cases hid : id = 0
    · rw [if_pos hid, if_pos hid, bind_map]
      refine bind_congr fun nameLen => ?_
      rw [bind_map]
      refine bind_congr fun _ => ?_
      rw [bind_map, h.decode, orStop_map, map_bind]
      rfl
    · rw [if_neg hid, if_neg hid]
      rfl

theorem parse (h : Via φ R S) (bytes : Bytes) :
    parseWasmSections S bytes = (parseWasmSections R bytes).map (List.map (WasmSection.map φ)) := by
  unfold parseWasmSections
  rw [items_map h.sectionAt]
  unfold ensure
  split_ifs <;> rfl

theorem readString (h : Via φ R S) (bytes : Bytes) :
    Wasm.readString S bytes = (Wasm.readString R bytes).map fun r => (φ r.1, r.2) := by
  unfold Wasm.readString stringBody
  rw [bind_map]
  refine bind_congr fun len => ?_
  rw [bind_map]
  refine bind_congr fun _ => ?_
  rw [bind_map]
  refine bind_congr fun _ => ?_
  rw [bind_map, h.decode, orStop_map, map_bind]
  rfl

theorem metaFields (h : Via φ R S) (bytes : Bytes) :
    Wasm.metaFields S bytes = (Wasm.metaFields R bytes).map fun r => ((φ r.1.1, φ r.1.2), r.2) := by
  unfold Wasm.metaFields
  rw [bind_map]
  refine bind_congr fun v => ?_
  rw [bind_map]
  refine bind_congr fun _ => ?_
  rw [bind_map, h.readString, map_bind]
  refine bind_congr fun key => ?_
  rw [bind_map, h.readString, map_bind]
  rfl

theorem metaEntryAt (h : Via φ R S) (bytes : Bytes) :
    Wasm.metaEntryAt S bytes = (Wasm.metaEntryAt R bytes).map fun r => (r.1.map φ, r.2) := by
  unfold Wasm.metaEntryAt
  rw [h.metaFields]
  cases Wasm.metaFields R bytes <;> rfl

theorem metaEntries (h : Via φ R S) (content : Bytes) :
    parseMetaEntries S content = (parseMetaEntries R content).map (List.map (MetaEntry.map φ)) :=
  items_map h.metaEntryAt content

theorem isMeta (h : Via φ R S) {s : WasmSection ν} (hs : IsMeta R s) : IsMeta S (s.map φ) := by
  refine ⟨hs.1, ?_⟩
  rw [WasmSection.map, hs.2, h.lit _ (List.mem_cons_self ..)]
  rfl

theorem isToolchain (h : Via φ R S) {e : MetaEntry ν} (he : IsToolchain R e) : IsToolchain S (e.map φ) := by
  obtain ⟨t, ht, hkey⟩ := List.mem_map.mp he
  refine List.mem_map.mpr ⟨t, ht, ?_⟩
  rw [h.lit _ (List.mem_cons_of_mem _ ht), hkey]
  rfl

/-- A `contractmetav0` section whose content is a clean stream of `entries`. -/
def Clean (R : Reading ν) (s : WasmSection ν) (entries : List (MetaEntry ν)) : Prop :=
  IsMeta R s ∧ parseMetaEntries R s.content = .ok entries

theorem clean (h : Via φ R S) {s : WasmSection ν} {entries : List (MetaEntry ν)} (hs : Clean R s entries) :
    Clean S (s.map φ) (entries.map (MetaEntry.map φ)) := by
  refine ⟨h.isMeta hs.1, ?_⟩
  rw [WasmSection.map, h.metaEntries, hs.2]
  rfl

/-! ### Through an injective map -/

theorem isMeta_iff (h : Via φ R S) (hφ : Function.Injective φ) {s : WasmSection ν} :
    IsMeta S (s.map φ) ↔ IsMeta R s := by
  refine ⟨fun hs => ⟨hs.1, ?_⟩, h.isMeta⟩
  have hname : s.name.map φ = (some (R.lit CONTRACT_META_SECTION)).map φ := by
    rw [Option.map_some, ← h.lit _ (List.mem_cons_self ..)]
    exact hs.2
  exact Option.map_injective hφ hname

theorem isToolchain_iff (h : Via φ R S) (hφ : Function.Injective φ) {e : MetaEntry ν} :
    IsToolchain S (e.map φ) ↔ IsToolchain R e := by
  refine ⟨fun he => ?_, h.isToolchain⟩
  obtain ⟨t, ht, hkey⟩ := List.mem_map.mp he
  rw [h.lit _ (List.mem_cons_of_mem _ ht)] at hkey
  exact List.mem_map.mpr ⟨t, ht, hφ hkey⟩

theorem clean_inv (h : Via φ R S) (hφ : Function.Injective φ) {s : WasmSection ν} {entries : List (MetaEntry μ)}
    (hs : Clean S (s.map φ) entries) : ∃ entries', Clean R s entries' := by
  obtain ⟨hmeta, hp⟩ := hs
  rw [WasmSection.map, h.metaEntries] at hp
  cases hR : parseMetaEntries R s.content with
  | error e =>
    rw [hR] at hp
    cases hp
  | ok entries' => exact ⟨entries', (h.isMeta_iff hφ).mp hmeta, hR⟩

end Parsing

section Views

variable [DecidableEq ν] [DecidableEq μ] {φ : ν → μ} {R : Reading ν} {S : Reading μ}

theorem normalizedSection_clean {s : WasmSection ν} {entries : List (MetaEntry ν)} (hs : Clean R s entries) :
    normalizedSection R s =
      if (entries.filter fun e => ¬ IsToolchain R e).length = 0 then []
      else [⟨0, some (R.lit CONTRACT_META_SECTION),
        (entries.filter fun e => ¬ IsToolchain R e).flatMap MetaEntry.raw⟩] := by
  unfold normalizedSection
  rw [if_neg (not_not.mpr hs.1), hs.2]

theorem normalizedSection_unclean {s : WasmSection ν} (hs : ∀ entries, ¬ Clean R s entries) :
    normalizedSection R s = [s] := by
  unfold normalizedSection
  by_cases hmeta : IsMeta R s
  · rw [if_neg (not_not.mpr hmeta)]
    cases hp : parseMetaEntries R s.content with
    | error e => rfl
    | ok entries => exact absurd ⟨hmeta, hp⟩ (hs entries)
  · rw [if_pos hmeta]

/-- The entries kept by the coarser reading are among those kept by the finer one. -/
theorem kept_kept (h : Via φ R S) (entries : List (MetaEntry ν)) :
    (((entries.filter fun e => ¬ IsToolchain R e).map (MetaEntry.map φ)).filter fun e => ¬ IsToolchain S e) =
      (entries.map (MetaEntry.map φ)).filter fun e => ¬ IsToolchain S e := by
  induction entries with
  | nil => rfl
  | cons e entries ih =>
    by_cases hR : IsToolchain R e
    · have hS := h.isToolchain hR
      simp only [hR, hS, ih, List.filter_cons, List.map_cons, not_true_eq_false, decide_false, Bool.false_eq_true,
        if_false]
    · have hkeep : (e :: entries).filter (fun e => ¬ IsToolchain R e) =
          e :: entries.filter fun e => ¬ IsToolchain R e := by simp [hR]
      rw [hkeep, List.map_cons, List.map_cons, List.filter_cons, List.filter_cons, ih]

/-- **Absorption**: normalizing in a finer reading first changes nothing. -/
theorem section_view (h : Via φ R S) (s : WasmSection ν) :
    normalizedView S ((normalizedSection R s).map (WasmSection.map φ)) = normalizedSection S (s.map φ) := by
  have hsingle : ∀ t : WasmSection μ, normalizedView S [t] = normalizedSection S t := by
    intro t
    simp [normalizedView]
  by_cases hs : ∃ entries, Clean R s entries
  · obtain ⟨entries, hs⟩ := hs
    rw [normalizedSection_clean hs, normalizedSection_clean (h.clean hs)]
    by_cases hkept : (entries.filter fun e => ¬ IsToolchain R e).length = 0
    · rw [if_pos hkept, ← h.kept_kept, List.length_eq_zero_iff.mp hkept]
      rfl
    · have hs' : Clean R ⟨0, some (R.lit CONTRACT_META_SECTION),
          (entries.filter fun e => ¬ IsToolchain R e).flatMap MetaEntry.raw⟩
          (entries.filter fun e => ¬ IsToolchain R e) :=
        ⟨⟨rfl, rfl⟩, parseMetaEntries_flatMap hs.2 fun e he => (List.mem_filter.mp he).1⟩
      rw [if_neg hkept, List.map_singleton, hsingle, normalizedSection_clean (h.clean hs'), h.kept_kept]
  · rw [normalizedSection_unclean (not_exists.mp hs), List.map_singleton, hsingle]

theorem view_view (h : Via φ R S) (sections : List (WasmSection ν)) :
    normalizedView S ((normalizedView R sections).map (WasmSection.map φ)) =
      normalizedView S (sections.map (WasmSection.map φ)) := by
  unfold normalizedView
  rw [List.map_flatMap, List.flatMap_assoc, List.flatMap_map]
  exact List.flatMap_congr fun s _ => h.section_view s

theorem kept_map (h : Via φ R S) (hφ : Function.Injective φ) (entries : List (MetaEntry ν)) :
    ((entries.map (MetaEntry.map φ)).filter fun e => ¬ IsToolchain S e) =
      (entries.filter fun e => ¬ IsToolchain R e).map (MetaEntry.map φ) := by
  rw [List.filter_map]
  refine congrArg (List.map _) (List.filter_congr fun e _ => ?_)
  simp [h.isToolchain_iff hφ]

theorem section_map (h : Via φ R S) (hφ : Function.Injective φ) (s : WasmSection ν) :
    normalizedSection S (s.map φ) = (normalizedSection R s).map (WasmSection.map φ) := by
  by_cases hs : ∃ entries, Clean R s entries
  · obtain ⟨entries, hs⟩ := hs
    rw [normalizedSection_clean hs, normalizedSection_clean (h.clean hs), h.kept_map hφ, List.length_map]
    split_ifs
    · rfl
    · rw [List.flatMap_map, h.lit _ (List.mem_cons_self ..)]
      rfl
  · have hs' : ∀ entries, ¬ Clean S (s.map φ) entries := fun entries hS => hs (h.clean_inv hφ hS)
    rw [normalizedSection_unclean (not_exists.mp hs), normalizedSection_unclean hs']
    rfl

theorem view_map (h : Via φ R S) (hφ : Function.Injective φ) (sections : List (WasmSection ν)) :
    normalizedView S (sections.map (WasmSection.map φ)) =
      (normalizedView R sections).map (WasmSection.map φ) := by
  unfold normalizedView
  rw [List.map_flatMap, List.flatMap_map]
  exact List.flatMap_congr fun s _ => h.section_map hφ s

theorem metaEntries_map (h : Via φ R S) (hφ : Function.Injective φ) (sections : List (WasmSection ν)) :
    Wasm.metaEntries S (sections.map (WasmSection.map φ)) =
      (Wasm.metaEntries R sections).map (MetaEntry.map φ) := by
  unfold Wasm.metaEntries
  rw [List.map_flatMap, List.flatMap_map]
  refine List.flatMap_congr fun s _ => ?_
  by_cases hmeta : IsMeta R s
  · rw [if_neg (not_not.mpr (h.isMeta hmeta)), if_neg (not_not.mpr hmeta), WasmSection.map, h.metaEntries]
    cases parseMetaEntries R s.content <;> rfl
  · rw [if_pos hmeta, if_pos (fun hS => hmeta ((h.isMeta_iff hφ).mp hS))]
    rfl

theorem lastValue_map (h : Via φ R S) (hφ : Function.Injective φ) (sections : List (WasmSection ν)) {k : String}
    (hk : k ∈ TOOLCHAIN_META_KEYS) :
    lastValue S (sections.map (WasmSection.map φ)) k = (lastValue R sections k).map φ := by
  have hfilter : ((Wasm.metaEntries R sections).map (MetaEntry.map φ)).filter (fun e => e.key = S.lit k) =
      ((Wasm.metaEntries R sections).filter fun e => e.key = R.lit k).map (MetaEntry.map φ) := by
    rw [List.filter_map]
    refine congrArg (List.map _) (List.filter_congr fun e _ => ?_)
    have : (MetaEntry.map φ e).key = S.lit k ↔ e.key = R.lit k := by
      rw [h.lit _ (List.mem_cons_of_mem _ hk)]
      exact hφ.eq_iff
    simp [this]
  unfold lastValue
  rw [h.metaEntries_map hφ, hfilter, List.getLast?_map, Option.map_map, Option.map_map]
  rfl

/-- An injective map loses nothing: the two readings match alike. -/
theorem matchBy_iff (h : Via φ R S) (hφ : Function.Injective φ) {A D : Bytes} :
    MatchBy R A D ↔ MatchBy S A D := by
  have hmap : Function.Injective (WasmSection.map φ) := by
    rintro ⟨id, name, content⟩ ⟨id', name', content'⟩ heq
    obtain ⟨hid, hname, hcontent⟩ := WasmSection.mk.inj heq
    exact congr (congr (congrArg WasmSection.mk hid) (Option.map_injective hφ hname)) hcontent
  have hstamps : ∀ a d : List (WasmSection ν),
      StampsDiffer S (a.map (WasmSection.map φ)) (d.map (WasmSection.map φ)) ↔ StampsDiffer R a d := by
    intro a d
    refine exists_congr fun k => and_congr_right fun hk => ?_
    rw [h.lastValue_map hφ a hk, h.lastValue_map hφ d hk]
    exact (Option.map_injective hφ).ne_iff
  unfold MatchBy
  refine and_congr_right fun _ => ?_
  rw [h.parse, h.parse]
  cases parseWasmSections R A with
  | error e => simp [Except.map]
  | ok a =>
    cases parseWasmSections R D with
    | error e => simp [Except.map]
    | ok d =>
      simp only [Except.map, Except.ok.injEq, exists_and_left, exists_eq_left', h.view_map hφ, hstamps,
        (List.map_injective_iff.mpr hmap).eq_iff]

end Views

end Via

/-! ## The bytes, with and without a leading byte-order mark -/

/-- Names, keys and values as the bytes they are, rejected where they are not UTF-8. -/
def rawReading : Reading Bytes := ⟨fun bytes => if (decodeUtf8 bytes).isSome then some bytes else none, utf8Bytes⟩

/-- The same without a leading byte-order mark. -/
def bareReading : Reading Bytes :=
  ⟨fun bytes => if (decodeUtf8 bytes).isSome then some (dropBom bytes) else none, utf8Bytes⟩

def bare (sections : List (WasmSection Bytes)) : List (WasmSection Bytes) := sections.map (WasmSection.map dropBom)

theorem utf8Bytes_injective : Function.Injective utf8Bytes := by
  intro t t' h
  have hdata : t.toByteArray.data = t'.toByteArray.data := Array.toList_inj.mp h
  exact String.toByteArray_inj.mp (ByteArray.ext hdata)

/-- A byte-order mark in front changes nothing about being UTF-8. -/
theorem decodeUtf8_dropBom (bytes : Bytes) : (decodeUtf8 (dropBom bytes)).isSome = (decodeUtf8 bytes).isSome := by
  have hsome : ∀ b : Bytes, (decodeUtf8 b).isSome ↔ ByteArray.IsValidUTF8 ⟨b.toArray⟩ := by
    intro b
    unfold decodeUtf8 String.fromUTF8?
    split_ifs with hv <;> simp [hv]
  unfold dropBom
  split_ifs with hbom
  · have hsplit : (⟨bytes.toArray⟩ : ByteArray) = ['\uFEFF'].utf8Encode ++ ⟨(bytes.drop 3).toArray⟩ := by
      have hb : bytes = BOM ++ bytes.drop 3 := by
        rw [← hbom]
        exact (List.take_append_drop 3 bytes).symm
      apply ByteArray.ext
      rw [ByteArray.data_append]
      apply Array.toList_inj.mp
      rw [Array.toList_append]
      exact hb
    rw [Bool.eq_iff_iff, hsome, hsome, hsplit, ByteArray.isValidUTF8_utf8Encode_singleton_append_iff]
  · rfl

theorem via_raw_bare : Via dropBom rawReading bareReading := by
  refine ⟨fun bytes => ?_, by decide⟩
  simp only [rawReading, bareReading]
  split_ifs <;> rfl

theorem via_text_bare : Via utf8Bytes textReading bareReading := by
  refine ⟨fun bytes => ?_, fun t _ => rfl⟩
  simp only [textReading, bareReading, textDecode]
  rw [← decodeUtf8_dropBom]
  cases hd : decodeUtf8 (dropBom bytes) with
  | none => rfl
  | some t => rw [Option.map_some, utf8Bytes_decodeUtf8 hd]; rfl

/-- The service matches modulo leading byte-order marks. -/
theorem compareWasm_modulo_bom {A D : Bytes} :
    (∃ keys, compareWasm A D = .toolchainMetadata keys) ↔ MatchBy bareReading A D :=
  compareWasm_toolchain_iff.trans (via_text_bare.matchBy_iff utf8Bytes_injective)

/-- A byte-order mark decides: of two different modules that parse, the views agree only once the leading
marks are dropped and so do not the stamps; or the views agree as bytes, and dropping the marks makes or
hides the difference of the stamps. -/
def BomDecides (A D : Bytes) : Prop :=
  A ≠ D ∧ ∃ a d, parseWasmSections rawReading A = .ok a ∧ parseWasmSections rawReading D = .ok d ∧
    ((normalizedView rawReading a ≠ normalizedView rawReading d ∧
        normalizedView bareReading (bare a) = normalizedView bareReading (bare d) ∧
        StampsDiffer bareReading (bare a) (bare d)) ∨
      (normalizedView rawReading a = normalizedView rawReading d ∧
        ¬ (StampsDiffer bareReading (bare a) (bare d) ↔ StampsDiffer rawReading a d)))

/-- **Soundness and completeness of the metadata-tolerant match**, exactly where no byte-order mark
decides. -/
theorem compareWasm_sound_complete_iff (A D : Bytes) :
    ((∃ keys, compareWasm A D = .toolchainMetadata keys) ↔ MatchBy rawReading A D) ↔ ¬ BomDecides A D := by
  rw [compareWasm_modulo_bom]
  unfold MatchBy BomDecides
  by_cases hAD : A = D
  · simp [hAD]
  rw [via_raw_bare.parse, via_raw_bare.parse]
  cases parseWasmSections rawReading A with
  | error e => simp [Except.map]
  | ok a =>
    cases parseWasmSections rawReading D with
    | error e => simp [Except.map]
    | ok d =>
      have habsorb : normalizedView rawReading a = normalizedView rawReading d →
          normalizedView bareReading (bare a) = normalizedView bareReading (bare d) := by
        intro heq
        unfold bare
        rw [← via_raw_bare.view_view, heq, via_raw_bare.view_view]
      simp only [Except.map, Except.ok.injEq, exists_and_left, exists_eq_left', ne_eq, hAD, not_false_eq_true,
        true_and]
      change (normalizedView bareReading (bare a) = normalizedView bareReading (bare d) ∧
        StampsDiffer bareReading (bare a) (bare d) ↔ _) ↔ _
      generalize StampsDiffer bareReading (bare a) (bare d) = bareStamps
      by_cases hraw : normalizedView rawReading a = normalizedView rawReading d
      · simp [hraw, habsorb hraw]
      · simp [hraw]

/-! ### Without byte-order marks -/

/-- No section name, meta key or meta value begins with a byte-order mark. -/
structure BomFree (sections : List (WasmSection Bytes)) : Prop where
  names : ∀ s ∈ sections, ∀ n, s.name = some n → dropBom n = n
  entries : ∀ s ∈ sections, ∀ l, Via.Clean rawReading s l →
    ∀ e ∈ l, dropBom e.key = e.key ∧ dropBom e.val = e.val

section NoBom

variable {sections : List (WasmSection Bytes)}

theorem BomFree.bare_eq (h : BomFree sections) : bare sections = sections := by
  have hs : ∀ s ∈ sections, s.map dropBom = s := by
    rintro ⟨id, name, content⟩ hs
    cases name with
    | none => rfl
    | some n =>
      have hn := h.names _ hs n rfl
      simp only [WasmSection.map, Option.map_some, hn]
  exact (List.map_congr_left hs).trans (List.map_id' _)

/-- The entries of a clean section read alike. -/
theorem BomFree.parse_eq (h : BomFree sections) {s : WasmSection Bytes} (hs : s ∈ sections)
    (hmeta : IsMeta rawReading s) : parseMetaEntries bareReading s.content = parseMetaEntries rawReading s.content := by
  rw [via_raw_bare.metaEntries]
  cases hp : parseMetaEntries rawReading s.content with
  | error e => rfl
  | ok l =>
    have he : ∀ e ∈ l, e.map dropBom = e := by
      intro e he
      obtain ⟨hkey, hval⟩ := h.entries s hs l ⟨hmeta, hp⟩ e he
      rw [MetaEntry.map, hkey, hval]
    exact congrArg Except.ok ((List.map_congr_left he).trans (List.map_id' _))

theorem BomFree.view_eq (h : BomFree sections) :
    normalizedView bareReading sections = normalizedView rawReading sections := by
  refine List.flatMap_congr fun s hs => ?_
  unfold normalizedSection
  by_cases hmeta : IsMeta rawReading s
  · rw [h.parse_eq hs hmeta]
    rfl
  · rw [if_pos hmeta]
    exact if_pos hmeta

theorem BomFree.lastValue_eq (h : BomFree sections) (k : String) :
    lastValue bareReading sections k = lastValue rawReading sections k := by
  have hentries : metaEntries bareReading sections = metaEntries rawReading sections := by
    refine List.flatMap_congr fun s hs => ?_
    by_cases hmeta : IsMeta rawReading s
    · rw [h.parse_eq hs hmeta]
      rfl
    · rw [if_pos hmeta]
      exact if_pos hmeta
  unfold lastValue
  rw [hentries]
  rfl

end NoBom

/-- Modules without byte-order marks are compared as the bytes they are. -/
theorem not_bomDecides_of_bomFree {A D : Bytes}
    (hA : ∀ a, parseWasmSections rawReading A = .ok a → BomFree a)
    (hD : ∀ d, parseWasmSections rawReading D = .ok d → BomFree d) : ¬ BomDecides A D := by
  rintro ⟨-, a, d, ha, hd, h⟩
  have hfa := hA a ha
  have hfd := hD d hd
  unfold StampsDiffer at h
  simp only [hfa.bare_eq, hfd.bare_eq, hfa.view_eq, hfd.view_eq, hfa.lastValue_eq, hfd.lastValue_eq, not_true_eq_false,
    and_false, or_false] at h
  exact h.1 h.2.1

/-! ### A byte-order mark in the name of another section -/

/-- A custom section of up to 127 bytes. -/
def customSection (name content : Bytes) : Bytes :=
  0 :: UInt8.ofNat (1 + name.length + content.length) :: UInt8.ofNat name.length :: (name ++ content)

/-- The XDR of an `rsver` entry with a value of one letter. -/
def rsverEntry (v : UInt8) : Bytes :=
  [0, 0, 0, 0, 0, 0, 0, 5, 114, 115, 118, 101, 114, 0, 0, 0, 0, 0, 0, 1, v, 0, 0, 0]

/-- A module of a custom section with that name and one `contractmetav0` section. -/
def stampedModule (name : Bytes) (v : UInt8) : Bytes :=
  header ++ customSection name [] ++ customSection (utf8Bytes CONTRACT_META_SECTION) (rsverEntry v)

theorem compareWasm_accepts_bom :
    ¬ ∀ A D : Bytes, (∃ keys, compareWasm A D = .toolchainMetadata keys) ↔ MatchBy rawReading A D := by
  intro hall
  have hmatch : MatchBy rawReading (stampedModule (utf8Bytes "spec") 65)
      (stampedModule (BOM ++ utf8Bytes "spec") 66) := (hall _ _).mp ⟨["rsver"], by decide +kernel⟩
  obtain ⟨-, a, d, ha, hd, hview, -⟩ := hmatch
  have hne : (parseWasmSections rawReading (stampedModule (utf8Bytes "spec") 65)).map (normalizedView rawReading) ≠
      (parseWasmSections rawReading (stampedModule (BOM ++ utf8Bytes "spec") 66)).map
        (normalizedView rawReading) := by decide
  rw [ha, hd] at hne
  exact hne (congrArg Except.ok hview)

end Vellar.Wasm
