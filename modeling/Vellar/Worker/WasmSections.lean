import Vellar.Lib.Stream

/-!
# Vellar.Worker.WasmSections — wasm sections and meta entries

The two parsers of `services/worker-service/src/wasm-compare.ts`: a wasm v1 module as a sequence of sections
(LEB128 sizes, custom sections with a name), and a `contractmetav0` payload as a stream of XDR `SCMetaEntry`
values.  A cursor into the bytes is the list of the bytes from there on.

Both parsers decode the names, keys and values they meet, and take the decoder as a parameter (`Reading`).
The service's own is `textReading`: `TextDecoder('utf-8', { fatal: true })`, which drops a leading byte-order
mark before it decodes.
-/

set_option autoImplicit false

namespace Vellar.Wasm

open Checked Streams

abbrev Bytes := List UInt8

/-! ## Text -/

/-- The byte-order mark U+FEFF in UTF-8. -/
def BOM : Bytes := [0xEF, 0xBB, 0xBF]

def dropBom (bytes : Bytes) : Bytes := if bytes.take 3 = BOM then bytes.drop 3 else bytes

def utf8Bytes (t : String) : Bytes := t.toUTF8.data.toList

/-- UTF-8 decoding that rejects ill-formed input. -/
def decodeUtf8 (bytes : Bytes) : Option String := String.fromUTF8? ⟨bytes.toArray⟩

/-- `new TextDecoder("utf-8", { fatal: true }).decode(bytes)`, with `ignoreBOM` at its default. -/
def textDecode (bytes : Bytes) : Option String := decodeUtf8 (dropBom bytes)

theorem utf8Bytes_decodeUtf8 {bytes : Bytes} {t : String} (h : decodeUtf8 bytes = some t) : utf8Bytes t = bytes := by
  unfold decodeUtf8 String.fromUTF8? at h
  split_ifs at h with hv
  obtain rfl := Option.some.inj h
  rfl

theorem decodeUtf8_utf8Bytes (t : String) : decodeUtf8 (utf8Bytes t) = some t := by
  unfold decodeUtf8 utf8Bytes String.fromUTF8?
  simp only [String.toUTF8_eq_toByteArray, Option.dite_none_right_eq_some, Option.some.injEq]
  exact ⟨t.isValidUTF8, rfl⟩

/-- How the bytes of a name, a key or a value are read, and how a literal of the source reads. -/
structure Reading (ν : Type) where
  decode : Bytes → Option ν
  lit : String → ν

/-- The reading of the service. -/
def textReading : Reading String := ⟨textDecode, id⟩

/-! ## Sections -/

/-- The loop of `readU32Leb`, with `n` iterations left. -/
def readU32LebFrom : ℕ → UInt32 → UInt32 → Bytes → Except String (ℕ × Bytes)
  | 0, _, _, _ => .error "LEB128 too long"
  | _ + 1, _, _, [] => .error "truncated LEB128"
  | n + 1, result, shift, byte :: rest =>
    let result := result ||| ((byte &&& 0x7f).toUInt32 <<< shift)
    if byte &&& 0x80 = 0 then
      if n = 0 ∧ byte > 0x0f then .error "LEB128 overflows u32" else .ok (result.toNat, rest)
    else readU32LebFrom n result (shift + 7) rest

/-- `readU32Leb`. -/
def readU32Leb (bytes : Bytes) : Except String (ℕ × Bytes) := readU32LebFrom 5 0 0 bytes

structure WasmSection (ν : Type) where
  id : UInt8
  /-- For custom sections (`id` 0) only. -/
  name : Option ν
  content : Bytes
deriving DecidableEq

structure MetaEntry (ν : Type) where
  key : ν
  val : ν
  /-- The entry's exact XDR bytes. -/
  raw : Bytes
deriving DecidableEq

section Parsers

variable {ν : Type} (R : Reading ν)

/-- One turn of the loop of `parseWasmSections`. -/
def sectionAt : Bytes → Except String (WasmSection ν × Bytes)
  | [] => .error "no section"
  | id :: afterId => do
    let (size, body) ← readU32Leb afterId
    ensure (¬ size > body.length) s!"section {id} overruns the module"
    if id = 0 then
      let (nameLen, afterLen) ← readU32Leb body
      -- The name starts here, counted from the section's start: its length may itself run past the end.
      let nameStart := body.length - afterLen.length
      ensure (¬ nameStart + nameLen > size) "custom section name overruns the section"
      let name ← orStop (R.decode (afterLen.take nameLen)) "custom section name is not valid UTF-8"
      pure (⟨id, some name, (body.take size).drop (nameStart + nameLen)⟩, body.drop size)
    else
      pure (⟨id, none, body.take size⟩, body.drop size)

/-- The magic number and version 1. -/
def header : Bytes := [0x00, 0x61, 0x73, 0x6d, 0x01, 0x00, 0x00, 0x00]

/-- `parseWasmSections`. -/
def parseWasmSections (bytes : Bytes) : Except String (List (WasmSection ν)) := do
  ensure (bytes.take 8 = header) "not a wasm v1 module"
  items (sectionAt R) (bytes.drop 8)

/-! ## Meta entries -/

def CONTRACT_META_SECTION : String := "contractmetav0"

def SC_META_V0 : ℕ := 0

/-- `view.getUint32(pos)`, where four bytes are left. -/
def getUint32 : Bytes → Except Unit (ℕ × Bytes)
  | a :: b :: c :: d :: rest => .ok (((a.toNat * 256 + b.toNat) * 256 + c.toNat) * 256 + d.toNat, rest)
  | _ => .error ()

/-- The bytes of a string of length `len` and its padding. -/
def stringBody (len : ℕ) (rest : Bytes) : Except Unit (ν × Bytes) := do
  let padded := len + (4 - len % 4) % 4
  ensure (¬ padded > rest.length) ()
  ensure (((rest.take padded).drop len).all (· == 0) = true) ()
  let s ← orStop (R.decode (rest.take len)) ()
  pure (s, rest.drop padded)

/-- `readString`. -/
def readString (bytes : Bytes) : Except Unit (ν × Bytes) := getUint32 bytes >>= fun r => stringBody R r.1 r.2

/-- One turn of the loop of `parseMetaEntries`: version, key and value. -/
def metaFields (bytes : Bytes) : Except Unit ((ν × ν) × Bytes) :=
  getUint32 bytes >>= fun v => ensure (v.1 = SC_META_V0) () >>= fun _ =>
    readString R v.2 >>= fun key => readString R key.2 >>= fun val => .ok ((key.1, val.1), val.2)

/-- The entry with the bytes it took. -/
def metaEntryAt (bytes : Bytes) : Except Unit (MetaEntry ν × Bytes) :=
  (metaFields R bytes).map fun r => (⟨r.1.1, r.1.2, bytes.take (bytes.length - r.2.length)⟩, r.2)

/-- `parseMetaEntries`; the error is its `undefined`. -/
def parseMetaEntries (content : Bytes) : Except Unit (List (MetaEntry ν)) := items (metaEntryAt R) content

end Parsers

/-! ## What an item takes -/

section Items

variable {ν : Type} {R : Reading ν}

theorem getUint32_local : Local getUint32 := by
  intro bytes v rest h
  match bytes, h with
  | a :: b :: c :: d :: rest', h =>
    obtain ⟨rfl, rfl⟩ := Prod.mk.inj (Except.ok.inj h)
    exact ⟨[a, b, c, d], rfl, fun _ => rfl⟩

theorem stringBody_ok {len : ℕ} {bytes rest : Bytes} {s : ν} :
    stringBody R len bytes = .ok (s, rest) ↔
      len + (4 - len % 4) % 4 ≤ bytes.length ∧
      ((bytes.take (len + (4 - len % 4) % 4)).drop len).all (· == 0) = true ∧
      R.decode (bytes.take len) = some s ∧ bytes.drop (len + (4 - len % 4) % 4) = rest := by
  unfold stringBody
  rw [check_bind_ok, check_bind_ok, bind_ok]
  simp only [ensure_ok, orStop_ok, pure_ok, Prod.mk.injEq, not_lt]
  refine and_congr_right fun _ => and_congr_right fun _ => ⟨fun h => ?_, fun h => ?_⟩
  · obtain ⟨_, h1, rfl, h2⟩ := h
    exact ⟨h1, h2⟩
  · exact ⟨s, h.1, rfl, h.2⟩

theorem stringBody_local (len : ℕ) : Local (stringBody R len) := by
  intro bytes s rest h
  obtain ⟨hlen, hzero, hdec, rfl⟩ := stringBody_ok.mp h
  have hle : len ≤ len + (4 - len % 4) % 4 := Nat.le_add_right _ _
  have hlen' : (bytes.take (len + (4 - len % 4) % 4)).length = len + (4 - len % 4) % 4 := by
    rw [List.length_take, min_eq_left hlen]
  refine ⟨bytes.take (len + (4 - len % 4) % 4), (List.take_append_drop _ _).symm, fun rest' => ?_⟩
  refine stringBody_ok.mpr ⟨?_, ?_, ?_, List.drop_left' hlen'⟩
  · rw [List.length_append, hlen']
    omega
  · rwa [List.take_left' hlen']
  · rwa [List.take_append_of_le_length (by omega), List.take_take, min_eq_left hle]

theorem readString_local : Local (readString R) := getUint32_local.bind stringBody_local

theorem metaFields_local : Local (metaFields R) :=
  getUint32_local.bind (q := fun v bytes => ensure (v = SC_META_V0) () >>= fun _ =>
      readString R bytes >>= fun key => readString R key.2 >>= fun val => .ok ((key.1, val.1), val.2))
    fun _ => Local.check (readString_local.bind fun key => readString_local.bind fun val => Local.done (key, val))

theorem metaEntryAt_ok {bytes rest : Bytes} {e : MetaEntry ν} :
    metaEntryAt R bytes = .ok (e, rest) ↔
      metaFields R bytes = .ok ((e.key, e.val), rest) ∧ e.raw = bytes.take (bytes.length - rest.length) := by
  unfold metaEntryAt
  obtain ⟨key, val, raw⟩ := e
  cases metaFields R bytes with
  | error u => simp [Except.map]
  | ok r =>
    obtain ⟨⟨key', val'⟩, rest'⟩ := r
    simp only [Except.map, Except.ok.injEq, Prod.mk.injEq, MetaEntry.mk.injEq]
    refine ⟨fun h => ?_, fun h => ?_⟩
    · obtain ⟨⟨rfl, rfl, rfl⟩, rfl⟩ := h
      exact ⟨⟨⟨rfl, rfl⟩, rfl⟩, rfl⟩
    · obtain ⟨⟨⟨rfl, rfl⟩, rfl⟩, rfl⟩ := h
      exact ⟨⟨rfl, rfl, rfl⟩, rfl⟩

/-- An entry is framed by its own bytes. -/
theorem metaEntryAt_framed {bytes rest : Bytes} {e : MetaEntry ν} (h : metaEntryAt R bytes = .ok (e, rest)) :
    bytes = e.raw ++ rest ∧ Framed (metaEntryAt R) MetaEntry.raw e := by
  obtain ⟨hfields, hraw⟩ := metaEntryAt_ok.mp h
  obtain ⟨used, rfl, hused⟩ := metaFields_local _ _ _ hfields
  have htake : ∀ rest' : Bytes, (used ++ rest').take ((used ++ rest').length - rest'.length) = used := by
    intro rest'
    rw [List.length_append, Nat.add_sub_cancel, List.take_left']
    rfl
  obtain rfl : e.raw = used := hraw.trans (htake rest)
  have hne : e.raw ≠ [] := by
    intro hnil
    have := hused []
    rw [hnil] at this
    simp [metaFields, getUint32, bind, Except.bind] at this
  exact ⟨rfl, hne, fun rest' => metaEntryAt_ok.mpr ⟨hused rest', (htake rest').symm⟩⟩

theorem metaEntryAt_consuming : Consuming (metaEntryAt R) := by
  intro bytes e rest h
  obtain ⟨rfl, hne, -⟩ := metaEntryAt_framed h
  have := List.length_pos_iff.mpr hne
  rw [List.length_append]
  omega

/-- **Re-parsing**: entries of a clean stream, put together again, parse as themselves. -/
theorem parseMetaEntries_flatMap {content : Bytes} {entries kept : List (MetaEntry ν)}
    (h : parseMetaEntries R content = .ok entries) (hkept : ∀ e ∈ kept, e ∈ entries) :
    parseMetaEntries R (kept.flatMap MetaEntry.raw) = .ok kept := by
  have hitems := (items_ok_iff metaEntryAt_consuming).mp h
  have hframed := hitems.framed (fun _ _ _ _ hp => (metaEntryAt_framed hp).2)
  exact (items_ok_iff metaEntryAt_consuming).mpr (items_flatMap fun e he => hframed e (hkept e he))

end Items

end Vellar.Wasm
