import Vellar.Lib.Leb128
import Vellar.Worker.WasmSections

/-!
# Vellar.Worker.WasmTiling — wasm sections and meta entries cover their input

What the parsers of `WasmSections` accept, told without them: a module is the header and the spans of its sections one after
the other, a size is a LEB128 number of 32 bits, and a meta payload is the XDR of its entries.  `parsers_tile` is the main
result.
-/

set_option autoImplicit false

namespace Vellar.Wasm

open Checked Streams Leb128

/-! ## Sizes -/

section Sizes

variable {bytes rest : Bytes} {v : ℕ}

/-- The low bits of a byte come above the shift. -/
theorem toNat_collect {result shift : UInt32} {byte : UInt8} (hshift : shift.toNat < 32)
    (hresult : result.toNat < 2 ^ shift.toNat) (hbyte : byte.toNat % 128 * 2 ^ shift.toNat < 2 ^ 32) :
    (result ||| ((byte &&& 0x7f).toUInt32 <<< shift)).toNat = result.toNat + byte.toNat % 128 * 2 ^ shift.toNat := by
  have hlow : (byte &&& 0x7f).toUInt32.toNat = byte.toNat % 128 := by rw [UInt8.toNat_toUInt32, toNat_and_low]
  rw [← hlow] at hbyte ⊢
  exact or_shiftLeft hshift hresult hbyte

/-- In the last round four bits are left. -/
theorem room {n shift x : ℕ} (hn : n ≤ 4) (hshift : shift = 7 * (4 - n)) (hx : x < 128) (hlast : n = 0 → x < 16) :
    (x + 1) * 2 ^ shift ≤ 2 ^ 32 := by
  obtain rfl | hpos := n.eq_zero_or_pos
  · have := hlast rfl
    rw [hshift]
    omega
  · have hle : 2 ^ shift ≤ 2 ^ 21 := Nat.pow_le_pow_right (by decide) (by omega)
    calc (x + 1) * 2 ^ shift ≤ 128 * 2 ^ 21 := Nat.mul_le_mul (by omega) hle
      _ ≤ 2 ^ 32 := by decide

/-- With `n` rounds left the bits below `shift` are there, and the bytes to come tell the ones above. -/
theorem readU32LebFrom_ok {n : ℕ} (hn : n ≤ 5) {result shift : UInt32} (hshift : shift.toNat = 7 * (5 - n))
    (hresult : result.toNat < 2 ^ shift.toNat) : readU32LebFrom n result shift bytes = .ok (v, rest) ↔
      ∃ used m, bytes = used ++ rest ∧ Encodes used m ∧ used.length ≤ n ∧ v = result.toNat + m * 2 ^ shift.toNat ∧
        v < 2 ^ 32 := by
  induction n generalizing result shift bytes with
  | zero =>
    simp only [readU32LebFrom, reduceCtorEq, false_iff]
    rintro ⟨used, m, -, henc, hlength, -⟩
    rw [List.length_eq_zero_iff.mp (Nat.le_zero.mp hlength)] at henc
    exact not_encodes_nil henc
  | succ n ih =>
    cases bytes with
    | nil =>
      simp only [readU32LebFrom, reduceCtorEq, false_iff]
      rintro ⟨used, m, hnil, henc, -⟩
      rw [(List.append_eq_nil_iff.mp hnil.symm).1] at henc
      exact not_encodes_nil henc
    | cons byte bytes =>
      have hbyte := byte.toNat_lt
      have hshift' : shift.toNat = 7 * (4 - n) := by omega
      simp only [readU32LebFrom]
      by_cases hend : byte.toNat < 128
      · -- the last byte
        rw [if_pos (and_high_eq_zero.mpr hend)]
        by_cases hover : n = 0 ∧ byte > 0x0f
        · rw [if_pos hover]
          simp only [reduceCtorEq, false_iff]
          rintro ⟨used, m, heq, henc, hlength, rfl, hbound⟩
          obtain ⟨tail, rfl⟩ := henc.eq_cons heq
          obtain ⟨-, rfl⟩ := (encodes_last_iff hend).mp henc
          have hlast : 15 < byte.toNat := UInt8.lt_iff_toNat_lt.mp hover.2
          rw [hshift', hover.1] at hbound
          omega
        · have hlast : n = 0 → byte.toNat < 16 := fun hn0 => by
            by_contra hlt
            exact hover ⟨hn0, UInt8.lt_iff_toNat_lt.mpr (Nat.lt_of_succ_le (not_lt.mp hlt))⟩
          have hroom := room (by omega) hshift' hend hlast
          rw [Nat.add_mul, Nat.one_mul] at hroom
          have hcollect := @toNat_collect result shift byte (by omega) hresult
            (by rw [Nat.mod_eq_of_lt hend]; have := Nat.two_pow_pos shift.toNat; omega)
          rw [Nat.mod_eq_of_lt hend] at hcollect
          rw [if_neg hover, hcollect]
          constructor
          · intro h
            obtain ⟨rfl, rfl⟩ := Prod.mk.inj (Except.ok.inj h)
            exact ⟨[byte], byte.toNat, rfl, .last hend, by simp, rfl, by omega⟩
          · rintro ⟨used, m, heq, henc, hlength, rfl, hbound⟩
            obtain ⟨tail, rfl⟩ := henc.eq_cons heq
            obtain ⟨rfl, rfl⟩ := (encodes_last_iff hend).mp henc
            obtain rfl := (List.cons_eq_cons.mp heq).2
            rfl
      · -- seven bits, and more bytes to come
        rw [if_neg fun hzero => hend (and_high_eq_zero.mp hzero)]
        cases n with
        | zero =>
          simp only [readU32LebFrom, reduceCtorEq, false_iff]
          rintro ⟨used, m, heq, henc, hlength, -⟩
          obtain ⟨tail, rfl⟩ := henc.eq_cons heq
          obtain ⟨m', htail, -⟩ := (encodes_more_iff (not_lt.mp hend)).mp henc
          rw [List.length_eq_zero_iff.mp (Nat.le_zero.mp (Nat.le_of_succ_le_succ hlength))] at htail
          exact not_encodes_nil htail
        | succ n =>
          have hlow : byte.toNat % 128 < 128 := Nat.mod_lt _ (by decide)
          have hroom := room (by omega) hshift' hlow fun h => absurd h (Nat.succ_ne_zero n)
          rw [Nat.add_mul, Nat.one_mul] at hroom
          have hcollect := @toNat_collect result shift byte (by omega) hresult
            (by have := Nat.two_pow_pos shift.toNat; omega)
          have hnext : (shift + 7).toNat = shift.toNat + 7 := by
            rw [UInt32.toNat_add]
            exact Nat.mod_eq_of_lt (by change shift.toNat + 7 < _; omega)
          have hvalue : ∀ m, result.toNat + byte.toNat % 128 * 2 ^ shift.toNat + m * 2 ^ (shift + 7).toNat =
              result.toNat + (byte.toNat % 128 + 128 * m) * 2 ^ shift.toNat := by
            intro m
            rw [hnext, pow_add]
            ring
          have hresult' : result.toNat + byte.toNat % 128 * 2 ^ shift.toNat < 2 ^ (shift + 7).toNat := by
            have hle : (byte.toNat % 128 + 1) * 2 ^ shift.toNat ≤ 128 * 2 ^ shift.toNat := Nat.mul_le_mul_right _ hlow
            rw [hnext, pow_add]
            linarith
          rw [ih (by omega) (by omega) (hcollect ▸ hresult'), hcollect]
          constructor
          · rintro ⟨used, m, rfl, henc, hlength, rfl, hbound⟩
            exact ⟨byte :: used, _, rfl, .more (not_lt.mp hend) henc, Nat.succ_le_succ hlength, hvalue m, hbound⟩
          · rintro ⟨used, m, heq, henc, hlength, rfl, hbound⟩
            obtain ⟨tail, rfl⟩ := henc.eq_cons heq
            obtain ⟨m', htail, rfl⟩ := (encodes_more_iff (not_lt.mp hend)).mp henc
            exact ⟨tail, m', (List.cons_eq_cons.mp heq).2, htail, Nat.le_of_succ_le_succ hlength, (hvalue m').symm, hbound⟩

theorem readU32Leb_ok : readU32Leb bytes = .ok (v, rest) ↔ ∃ used, bytes = used ++ rest ∧ EncodesU32 used v := by
  unfold readU32Leb
  rw [readU32LebFrom_ok le_rfl rfl (by decide)]
  constructor
  · rintro ⟨used, m, rfl, henc, hlength, rfl, hbound⟩
    simp only [UInt32.toNat_zero, Nat.zero_add, Nat.pow_zero, Nat.mul_one] at hbound ⊢
    exact ⟨used, rfl, henc, hlength, hbound⟩
  · rintro ⟨used, rfl, henc, hlength, hbound⟩
    exact ⟨used, v, rfl, henc, hlength, by simp, hbound⟩

end Sizes

/-! ## Sections -/

/-- What a section takes: the id, the LEB128 size, and as many bytes. -/
structure Span where
  id : UInt8
  size : Bytes
  payload : Bytes

def Span.bytes (s : Span) : Bytes := s.id :: (s.size ++ s.payload)

section Sections

variable {ν : Type} (R : Reading ν)

/-- The payload of a custom section: the name with its length before, and the content. -/
def Custom (payload : Bytes) (name : Option ν) (content : Bytes) : Prop :=
  ∃ length text, payload = length ++ text ++ content ∧ EncodesU32 length text.length ∧ name = R.decode text ∧ name.isSome

/-- The span is the section. -/
structure Span.Holds (span : Span) (s : WasmSection ν) : Prop where
  id : s.id = span.id
  size : EncodesU32 span.size span.payload.length
  custom : span.id = 0 → Custom R span.payload s.name s.content
  plain : span.id ≠ 0 → s.name = none ∧ s.content = span.payload

variable {R}

theorem sectionAt_reads : Reads (sectionAt R) Span.bytes (Span.Holds R) := by
  intro bytes s rest
  constructor
  · intro h
    cases bytes with
    | nil => cases h
    | cons id afterId =>
      simp only [sectionAt] at h
      obtain ⟨⟨size, body⟩, hsize, hafter⟩ := bind_ok.mp h
      obtain ⟨hroom, hbranch⟩ := check_bind_ok.mp hafter
      obtain ⟨sizeBytes, rfl, henc⟩ := readU32Leb_ok.mp hsize
      have hroom : size ≤ body.length := not_lt.mp (ensure_ok.mp hroom)
      have hlength : (body.take size).length = size := List.length_take_of_le hroom
      have hbytes : id :: (sizeBytes ++ body) = (⟨id, sizeBytes, body.take size⟩ : Span).bytes ++ body.drop size := by
        simp [Span.bytes]
      by_cases hid : id = 0
      · rw [if_pos hid] at hbranch
        obtain ⟨⟨nameLen, afterLen⟩, hname, hnamed⟩ := bind_ok.mp hbranch
        obtain ⟨hin, htext⟩ := check_bind_ok.mp hnamed
        obtain ⟨name, hdecode, hreturn⟩ := bind_ok.mp htext
        obtain ⟨rfl, rfl⟩ := Prod.mk.inj (pure_ok.mp hreturn)
        obtain ⟨lenBytes, rfl, hlen⟩ := readU32Leb_ok.mp hname
        have hin := not_lt.mp (ensure_ok.mp hin)
        simp only [List.length_append, Nat.add_sub_cancel] at hin hroom
        have htext : (afterLen.take nameLen).length = nameLen := List.length_take_of_le (by omega)
        have hfront : lenBytes ++ afterLen.take nameLen = ((lenBytes ++ afterLen).take size).take (lenBytes.length + nameLen) := by
          rw [List.take_take, min_eq_left hin, List.take_append, List.take_of_length_le (Nat.le_add_right _ _),
            Nat.add_sub_cancel_left]
        refine ⟨_, hbytes, rfl, hlength.symm ▸ henc, fun _ => ?_, fun hne => absurd hid hne⟩
        refine ⟨lenBytes, afterLen.take nameLen, ?_, htext.symm ▸ hlen, (orStop_ok.mp hdecode).symm, rfl⟩
        rw [hfront]
        simp only [List.length_append, Nat.add_sub_cancel]
        exact (List.take_append_drop _ _).symm
      · rw [if_neg hid] at hbranch
        obtain ⟨rfl, rfl⟩ := Prod.mk.inj (pure_ok.mp hbranch)
        exact ⟨_, hbytes, rfl, hlength.symm ▸ henc, fun h0 => absurd h0 hid, fun _ => ⟨rfl, rfl⟩⟩
  · rintro ⟨⟨id, sizeBytes, payload⟩, rfl, hs, hsize, hcustom, hplain⟩
    obtain ⟨id', name, content⟩ := s
    obtain rfl : id' = id := hs
    refine bind_ok.mpr ⟨_, readU32Leb_ok.mpr ⟨sizeBytes, List.append_assoc _ _ _, hsize⟩, ?_⟩
    refine check_bind_ok.mpr ⟨ensure_ok.mpr (not_lt.mpr ?_), ?_⟩
    · simp
    · simp only [List.take_left, List.drop_left]
      by_cases hid : id' = 0
      · rw [if_pos hid]
        obtain ⟨lenBytes, text, rfl, hlen, rfl, hsome⟩ := hcustom hid
        obtain ⟨name, hdecode⟩ := Option.isSome_iff_exists.mp hsome
        have hbody : lenBytes ++ text ++ content ++ rest = lenBytes ++ (text ++ content ++ rest) := by simp
        have hstart : (lenBytes ++ text ++ content ++ rest).length - (text ++ content ++ rest).length = lenBytes.length := by
          rw [hbody, List.length_append, Nat.add_sub_cancel]
        refine bind_ok.mpr ⟨(text.length, text ++ content ++ rest), readU32Leb_ok.mpr ⟨lenBytes, hbody, hlen⟩, ?_⟩
        simp only [hstart]
        refine check_bind_ok.mpr ⟨ensure_ok.mpr (not_lt.mpr (by simp)), bind_ok.mpr ⟨name, ?_, ?_⟩⟩
        · rw [List.append_assoc, List.take_left]
          exact orStop_ok.mpr hdecode
        · rw [← List.length_append, List.drop_left, ← hdecode]
          rfl
      · rw [if_neg hid]
        obtain ⟨rfl, rfl⟩ := hplain hid
        rfl

theorem parseWasmSections_tiles {bytes : Bytes} {sections : List (WasmSection ν)} :
    parseWasmSections R bytes = .ok sections ↔
      ∃ spans : List Span, bytes = header ++ spans.flatMap Span.bytes ∧ List.Forall₂ (Span.Holds R) spans sections := by
  unfold parseWasmSections
  rw [check_bind_ok, ensure_ok, items_ok_flatMap sectionAt_reads fun _ _ _ => List.cons_ne_nil _ _]
  constructor
  · rintro ⟨hheader, spans, hrest, hall⟩
    refine ⟨spans, ?_, hall⟩
    rw [← hheader, ← hrest, List.take_append_drop]
  · rintro ⟨spans, rfl, hall⟩
    exact ⟨rfl, spans, rfl, hall⟩

end Sections

/-! ## Meta entries -/

/-- `n` as four bytes, the highest first. -/
def be32 (n : ℕ) : Bytes :=
  [UInt8.ofNat (n / 2 ^ 24), UInt8.ofNat (n / 2 ^ 16), UInt8.ofNat (n / 2 ^ 8), UInt8.ofNat n]

/-- The XDR of a string: its length, its bytes, and zeros up to a multiple of four. -/
def xdrString (text : Bytes) : Bytes := be32 text.length ++ text ++ List.replicate ((4 - text.length % 4) % 4) 0

section Meta

variable {ν : Type} (R : Reading ν)

/-- The slice of an entry is the XDR of a key and a value that read as the key and the value. -/
def MetaEntry.Encoded (e : MetaEntry ν) : Prop :=
  ∃ key val, e.raw = be32 SC_META_V0 ++ xdrString key ++ xdrString val ∧ key.length < 2 ^ 32 ∧ val.length < 2 ^ 32 ∧
    R.decode key = some e.key ∧ R.decode val = some e.val

variable {R} {bytes rest : Bytes}

theorem ofNat_toNat_add {a : UInt8} {n k : ℕ} (h : n = k * 256 + a.toNat) : UInt8.ofNat n = a := by
  refine UInt8.toNat_inj.mp ?_
  rw [UInt8.toNat_ofNat', h, Nat.mul_add_mod_self_right]
  exact Nat.mod_eq_of_lt a.toNat_lt

theorem getUint32_ok {n : ℕ} : getUint32 bytes = .ok (n, rest) ↔ n < 2 ^ 32 ∧ bytes = be32 n ++ rest := by
  constructor
  · intro h
    match bytes, h with
    | a :: b :: c :: d :: tail, h =>
      obtain ⟨hn, rfl⟩ := Prod.mk.inj (Except.ok.inj h)
      have ha := a.toNat_lt
      have hb := b.toNat_lt
      have hc := c.toNat_lt
      have hd := d.toNat_lt
      refine ⟨by omega, ?_⟩
      rw [be32, ofNat_toNat_add (a := a) (k := 0) (by omega), ofNat_toNat_add (a := b) (k := a.toNat) (by omega),
        ofNat_toNat_add (a := c) (k := a.toNat * 256 + b.toNat) (by omega),
        ofNat_toNat_add (a := d) (k := (a.toNat * 256 + b.toNat) * 256 + c.toNat) (by omega)]
      rfl
  · rintro ⟨hn, rfl⟩
    simp only [be32, List.cons_append, List.nil_append, getUint32, Except.ok.injEq, Prod.mk.injEq, UInt8.toNat_ofNat',
      and_true]
    omega

theorem readString_ok {s : ν} : readString R bytes = .ok (s, rest) ↔
    ∃ text, bytes = xdrString text ++ rest ∧ text.length < 2 ^ 32 ∧ R.decode text = some s := by
  unfold readString
  rw [bind_ok]
  constructor
  · rintro ⟨⟨len, body⟩, hlen, hbody⟩
    obtain ⟨hbound, rfl⟩ := getUint32_ok.mp hlen
    simp only at hbody
    obtain ⟨hroom, hzeros, hdecode, rfl⟩ := stringBody_ok.mp hbody
    have htext : (body.take len).length = len := List.length_take_of_le (by omega)
    have hpad : (body.take (len + (4 - len % 4) % 4)).drop len = List.replicate ((4 - len % 4) % 4) 0 := by
      refine List.eq_replicate_iff.mpr ⟨?_, fun b hb => beq_iff_eq.mp (List.all_eq_true.mp hzeros b hb)⟩
      rw [List.length_drop, List.length_take_of_le hroom, Nat.add_sub_cancel_left]
    have hbody : body = body.take len ++ List.replicate ((4 - len % 4) % 4) 0 ++ body.drop (len + (4 - len % 4) % 4) := by
      have htake : body.take len = (body.take (len + (4 - len % 4) % 4)).take len := by
        rw [List.take_take, min_eq_left (Nat.le_add_right _ _)]
      rw [← hpad, htake, List.take_append_drop, List.take_append_drop]
    refine ⟨body.take len, ?_, by omega, hdecode⟩
    rw [xdrString, htext]
    conv_lhs => rw [hbody]
    simp only [List.append_assoc]
  · rintro ⟨text, rfl, hbound, hdecode⟩
    refine ⟨(text.length, text ++ List.replicate ((4 - text.length % 4) % 4) 0 ++ rest),
      getUint32_ok.mpr ⟨hbound, by simp [xdrString]⟩, stringBody_ok.mpr ⟨?_, ?_, ?_, ?_⟩⟩
    · simp
    · rw [List.take_left' (by simp), List.drop_left]
      simp
    · rwa [List.append_assoc, List.take_left]
    · exact List.drop_left' (by simp)

theorem metaFields_ok {key val : ν} : metaFields R bytes = .ok ((key, val), rest) ↔
    ∃ keyText valText, bytes = be32 SC_META_V0 ++ xdrString keyText ++ xdrString valText ++ rest ∧
      keyText.length < 2 ^ 32 ∧ valText.length < 2 ^ 32 ∧ R.decode keyText = some key ∧ R.decode valText = some val := by
  unfold metaFields
  constructor
  · intro h
    obtain ⟨⟨v, afterVersion⟩, hversion, h⟩ := bind_ok.mp h
    obtain ⟨hv, h⟩ := check_bind_ok.mp h
    obtain ⟨⟨key', afterKey⟩, hkey, h⟩ := bind_ok.mp h
    obtain ⟨⟨val', afterVal⟩, hval, h⟩ := bind_ok.mp h
    obtain ⟨⟨rfl, rfl⟩, rfl⟩ : (key' = key ∧ val' = val) ∧ afterVal = rest := by simpa using h
    obtain ⟨-, rfl⟩ := getUint32_ok.mp hversion
    obtain ⟨keyText, rfl, hkeyLength, hkeyText⟩ := readString_ok.mp hkey
    obtain ⟨valText, rfl, hvalLength, hvalText⟩ := readString_ok.mp hval
    obtain rfl : v = SC_META_V0 := ensure_ok.mp hv
    exact ⟨keyText, valText, by simp only [List.append_assoc], hkeyLength, hvalLength, hkeyText, hvalText⟩
  · rintro ⟨keyText, valText, rfl, hkeyLength, hvalLength, hkeyText, hvalText⟩
    simp only [List.append_assoc]
    refine bind_ok.mpr ⟨_, getUint32_ok.mpr ⟨by decide, rfl⟩, check_bind_ok.mpr ⟨ensure_ok.mpr rfl, ?_⟩⟩
    refine bind_ok.mpr ⟨_, readString_ok.mpr ⟨keyText, rfl, hkeyLength, hkeyText⟩, ?_⟩
    exact bind_ok.mpr ⟨_, readString_ok.mpr ⟨valText, rfl, hvalLength, hvalText⟩, rfl⟩

theorem metaEntryAt_reads :
    Reads (metaEntryAt R) MetaEntry.raw (fun d e => d = e ∧ e.Encoded R) := by
  intro bytes e rest
  constructor
  · intro h
    obtain ⟨hbytes, -⟩ := metaEntryAt_framed h
    obtain ⟨key, val, heq, hkeyLength, hvalLength, hkey, hval⟩ := metaFields_ok.mp (metaEntryAt_ok.mp h).1
    refine ⟨e, hbytes, rfl, key, val, ?_, hkeyLength, hvalLength, hkey, hval⟩
    exact List.append_cancel_right (hbytes.symm.trans heq)
  · rintro ⟨d, rfl, rfl, key, val, hraw, hkeyLength, hvalLength, hkey, hval⟩
    refine metaEntryAt_ok.mpr ⟨metaFields_ok.mpr ⟨key, val, by rw [hraw], hkeyLength, hvalLength, hkey, hval⟩, ?_⟩
    rw [List.length_append, Nat.add_sub_cancel, List.take_left]

theorem parseMetaEntries_tiles {content : Bytes} {entries : List (MetaEntry ν)} :
    parseMetaEntries R content = .ok entries ↔
      content = entries.flatMap MetaEntry.raw ∧ ∀ e ∈ entries, e.Encoded R := by
  unfold parseMetaEntries
  rw [items_ok_flatMap metaEntryAt_reads]
  · constructor
    · rintro ⟨slices, hcontent, hall⟩
      obtain rfl : slices = entries := List.forall₂_eq_eq_eq ▸ hall.imp fun _ _ h => h.1
      exact ⟨hcontent, List.forall₂_same.mp (hall.imp fun _ _ h => h.2)⟩
    · rintro ⟨hcontent, hall⟩
      exact ⟨entries, hcontent, List.forall₂_same.mpr fun e he => ⟨rfl, hall e he⟩⟩
  · rintro d e ⟨rfl, key, val, hraw, -⟩
    rw [hraw, be32]
    exact List.cons_ne_nil _ _

end Meta

/-! ## The parsers of the service -/

theorem textDecode_iff {text : Bytes} {t : String} : textDecode text = some t ↔ dropBom text = utf8Bytes t := by
  unfold textDecode
  constructor
  · intro h
    exact (utf8Bytes_decodeUtf8 h).symm
  · intro h
    rw [h, decodeUtf8_utf8Bytes]

/-- A key and a value give the slice back when they are encoded again, with a byte-order mark before them where the slice
has one. -/
def MetaEntry.ReEncodes (e : MetaEntry String) : Prop :=
  ∃ key val, e.raw = be32 SC_META_V0 ++ xdrString key ++ xdrString val ∧ key.length < 2 ^ 32 ∧ val.length < 2 ^ 32 ∧
    dropBom key = utf8Bytes e.key ∧ dropBom val = utf8Bytes e.val

/-- **The parsers** take a number of 32 bits where its bytes are in front and nothing else, split a module into the spans of
its sections without a gap, and a payload into the slices of its entries. -/
theorem parsers_tile :
    (∀ (bytes rest : Bytes) (value : ℕ),
      readU32Leb bytes = .ok (value, rest) ↔ ∃ used, bytes = used ++ rest ∧ EncodesU32 used value) ∧
    (∀ (bytes : Bytes) (sections : List (WasmSection String)),
      parseWasmSections textReading bytes = .ok sections ↔ ∃ spans : List Span,
        bytes = header ++ spans.flatMap Span.bytes ∧ List.Forall₂ (Span.Holds textReading) spans sections) ∧
    ∀ (content : Bytes) (entries : List (MetaEntry String)),
      parseMetaEntries textReading content = .ok entries ↔
        content = entries.flatMap MetaEntry.raw ∧ ∀ e ∈ entries, e.ReEncodes := by
  refine ⟨fun _ _ _ => readU32Leb_ok, fun _ _ => parseWasmSections_tiles, fun content entries => ?_⟩
  rw [parseMetaEntries_tiles]
  simp only [MetaEntry.Encoded, MetaEntry.ReEncodes, textReading, textDecode_iff]

end Vellar.Wasm
