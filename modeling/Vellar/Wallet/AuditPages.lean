import Vellar.Wallet.AuditLogAgreement
import Vellar.Wallet.Create
import Vellar.Worker.WasmSections

/-!
# Vellar.Wallet.AuditPages — following the cursors of the audit log

A caller of `listPage` of the memory log passes back the cursor of each page, while events are recorded.  `pages_once`:
what was there at the first fetch is served exactly once.  `newestFirst_iff` is about the order, which goes by the text of an id.
-/

set_option autoImplicit false

namespace Vellar.Wallet.Audit

open Keyset
open Worker (truthy)
open Wasm (Bytes utf8Bytes decodeUtf8 decodeUtf8_utf8Bytes)
open Create (base64Digit base64Bytes lowBytes bufferFromBase64url)

/-! ## Cursors -/

def base64Char (n : ℕ) : Char :=
  if n < 26 then Char.ofNat (65 + n)
  else if n < 52 then Char.ofNat (71 + n)
  else if n < 62 then Char.ofNat (n - 4)
  else if n = 62 then '-'
  else '_'

/-- The six-bit digits of bytes, a rest of one or two bytes filled up with zeros. -/
def base64Digits : Bytes → List ℕ
  | a :: b :: c :: rest =>
    a.toNat / 4 :: (a.toNat % 4 * 16 + b.toNat / 16) :: (b.toNat % 16 * 4 + c.toNat / 64) :: c.toNat % 64 :: base64Digits rest
  | [a, b] => [a.toNat / 4, a.toNat % 4 * 16 + b.toNat / 16, b.toNat % 16 * 4]
  | [a] => [a.toNat / 4, a.toNat % 4 * 16]
  | [] => []

/-- `toString("base64url")`. -/
def toBase64url (bytes : Bytes) : String := String.ofList ((base64Digits bytes).map base64Char)

section Cursors

variable (replaced : Bytes → String)

/-- `toString("utf8")`; `replaced` is the text of bytes that are not UTF-8. -/
def bufferToString (bytes : Bytes) : String := (decodeUtf8 bytes).getD (replaced bytes)

/-- The cursor a caller is given, for the text of `encodeAuditCursor`. -/
def encodeCursor (text : AuditCursor) : String := toBase64url (utf8Bytes text)

def decodeCursor (cursor : String) : AuditCursor := bufferToString replaced (bufferFromBase64url cursor)

/-- `listPage` of the memory log. -/
def listPage (s : MemoryLog) (filter : Filter) (limit : ℕ) (after : Option String) : Except String AuditPage := do
  let page ← paginateAuditEvents s.events filter limit ((truthy after).map (decodeCursor replaced))
  pure { page with nextCursor := page.nextCursor.map encodeCursor }

end Cursors

theorem base64Digits_lt (bytes : Bytes) : ∀ n ∈ base64Digits bytes, n < 64 := by
  induction bytes using base64Digits.induct with
  | case1 a b c rest ih =>
    have ha := a.toNat_lt
    have hb := b.toNat_lt
    have hc := c.toNat_lt
    intro n hn
    simp only [base64Digits, List.mem_cons] at hn
    rcases hn with rfl | rfl | rfl | rfl | hn
    · omega
    · omega
    · omega
    · omega
    · exact ih n hn
  | case2 a b =>
    have ha := a.toNat_lt
    have hb := b.toNat_lt
    intro n hn
    simp only [base64Digits, List.mem_cons, List.not_mem_nil, or_false] at hn
    omega
  | case3 a =>
    have ha := a.toNat_lt
    intro n hn
    simp only [base64Digits, List.mem_cons, List.not_mem_nil, or_false] at hn
    omega
  | case4 => exact fun n hn => absurd hn List.not_mem_nil

theorem base64Digit_base64Char {n : ℕ} (h : n < 64) :
    base64Digit (base64Char n) = some n ∧ base64Char n ≠ '=' ∧ lowBytes (base64Char n) = [base64Char n] := by
  revert n
  decide

theorem ofNat_eq {b : UInt8} {n : ℕ} (h : n % 256 = b.toNat) : UInt8.ofNat n = b := by
  refine UInt8.toNat_inj.mp ?_
  rw [UInt8.toNat_ofNat']
  exact h

theorem base64Bytes_base64Digits (bytes : Bytes) : base64Bytes (base64Digits bytes) = bytes := by
  induction bytes using base64Digits.induct with
  | case1 a b c rest ih =>
    have ha := a.toNat_lt
    have hb := b.toNat_lt
    have hc := c.toNat_lt
    rw [base64Digits, base64Bytes, ih]
    rw [ofNat_eq (b := a) (by omega), ofNat_eq (b := b) (by omega), ofNat_eq (b := c) (by omega)]
  | case2 a b =>
    have ha := a.toNat_lt
    have hb := b.toNat_lt
    rw [base64Digits, base64Bytes, ofNat_eq (b := a) (by omega), ofNat_eq (b := b) (by omega)]
  | case3 a =>
    have ha := a.toNat_lt
    rw [base64Digits, base64Bytes, ofNat_eq (b := a) (by omega)]
  | case4 => rfl

theorem bufferFromBase64url_toBase64url (bytes : Bytes) : bufferFromBase64url (toBase64url bytes) = bytes := by
  have hdigits := base64Digits_lt bytes
  have htake : ((base64Digits bytes).map base64Char).takeWhile (· ≠ '=') = (base64Digits bytes).map base64Char := by
    refine List.takeWhile_eq_self_iff.mpr fun c hc => ?_
    obtain ⟨n, hn, rfl⟩ := List.mem_map.mp hc
    exact decide_eq_true (base64Digit_base64Char (hdigits n hn)).2.1
  have hread : ((base64Digits bytes).map base64Char).filterMap base64Digit = base64Digits bytes := by
    rw [List.filterMap_map]
    refine (List.filterMap_congr fun n hn => ?_).trans List.filterMap_some
    exact (base64Digit_base64Char (hdigits n hn)).1
  have hlow : ((base64Digits bytes).map base64Char).flatMap lowBytes = (base64Digits bytes).map base64Char := by
    rw [List.flatMap_map, List.map_eq_flatMap]
    exact List.flatMap_congr fun n hn => (base64Digit_base64Char (hdigits n hn)).2.2
  unfold bufferFromBase64url toBase64url
  rw [String.toList_ofList, hlow, htake, hread, base64Bytes_base64Digits]

theorem decodeCursor_encodeCursor (replaced : Bytes → String) (text : AuditCursor) :
    decodeCursor replaced (encodeCursor text) = text := by
  unfold decodeCursor encodeCursor bufferToString
  rw [bufferFromBase64url_toBase64url, decodeUtf8_utf8Bytes, Option.getD_some]

/-- **A cursor is read back**, for the texts `listPage` makes cursors of. -/
theorem cursor_round_trip (replaced : Bytes → String) {atText id : String} (hat : atText ≠ "") (hid : id ≠ "" ∧ ':' ∉ id.toList) :
    decodeAuditCursor (decodeCursor replaced (encodeCursor (encodeAuditCursor atText id))) = .ok (atText, id) := by
  rw [decodeCursor_encodeCursor, decode_encode hat hid]

/-! ## A reader of a log that grows -/

/-- The cursor to pass next, what was read, and whether there is more. -/
structure Reader where
  after : Option String
  returned : List AuditEvent
  more : Bool

inductive Turn where
  | fetch
  | record (c : RecordCall)

structure Session where
  log : MemoryLog
  /-- The error of a `listPage` that threw. -/
  reader : Except String Reader

section Reading

variable (D : Dates) (replaced : Bytes → String) (filter : Filter) (limit : ℕ)

def Reader.fetch (log : MemoryLog) (r : Reader) : Except String Reader :=
  if r.more then do
    let page ← listPage replaced log filter limit r.after
    pure ⟨page.nextCursor, r.returned ++ page.events, page.hasMore⟩
  else .ok r

def Session.turn (s : Session) : Turn → Session
  | .fetch => { s with reader := s.reader.bind fun r => r.fetch replaced filter limit s.log }
  | .record c => { s with log := memoryRecord D s.log c }

/-- Read from the first page on, over a log with records already. -/
def reading (calls : List RecordCall) (turns : List Turn) : Session :=
  turns.foldl (Session.turn D replaced filter limit) ⟨memoryRun D calls, .ok ⟨none, [], true⟩⟩

def fetches (turns : List Turn) : ℕ := turns.countP fun t => match t with | .fetch => true | .record _ => false

/-! ## The log -/

variable {D replaced filter limit}

/-- Ids are the numbers up to the next one. -/
structure Numbered (s : MemoryLog) : Prop where
  ids : s.events.map AuditEvent.id = (List.range s.nextId).map fun n => toString n
  texts : ∀ e ∈ s.events, e.atText ≠ ""

theorem numbered_record {s : MemoryLog} (h : Numbered s) (c : RecordCall) : Numbered (memoryRecord D s c) := by
  refine ⟨?_, fun e he => ?_⟩
  · show (s.events ++ [_]).map AuditEvent.id = (List.range (s.nextId + 1)).map _
    rw [List.map_append, h.ids, List.range_succ, List.map_append]
    rfl
  · rcases List.mem_append.mp he with he | he
    · exact h.texts e he
    · rw [List.mem_singleton.mp he]
      exact D.toISOString_ne c.time

theorem numbered_run (calls : List RecordCall) : Numbered (memoryRun D calls) := by
  have hfold : ∀ s : MemoryLog, Numbered s → Numbered (calls.foldl (memoryRecord D) s) := by
    induction calls with
    | nil => exact fun s hs => hs
    | cons c calls ih => exact fun s hs => ih _ (numbered_record hs c)
  exact hfold ⟨[], 0⟩ ⟨rfl, fun e he => absurd he List.not_mem_nil⟩

theorem Numbered.nodup {s : MemoryLog} (h : Numbered s) : (s.events.map AuditEvent.id).Nodup := by
  rw [h.ids]
  exact List.nodup_range.map fun m n heq => Nat.repr_injective heq

theorem Numbered.id_ok {s : MemoryLog} (h : Numbered s) {e : AuditEvent} (he : e ∈ s.events) :
    e.id ≠ "" ∧ ':' ∉ e.id.toList := by
  have hmem : e.id ∈ (List.range s.nextId).map fun n => toString n := h.ids ▸ List.mem_map_of_mem he
  obtain ⟨n, -, hn⟩ := List.mem_map.mp hmem
  rw [← hn]
  exact id_toString n

theorem mem_applyFilter {events : List AuditEvent} {e : AuditEvent} :
    e ∈ applyFilter filter events ↔ e ∈ events ∧ passes filter e.toShown = true := by
  rw [applyFilter_eq, List.mem_filter]

/-- What a filter keeps has no key twice. -/
theorem Numbered.keys {s : MemoryLog} (h : Numbered s) : ((applyFilter filter s.events).map eventKey).Nodup := by
  have hids : ((applyFilter filter s.events).map AuditEvent.id).Nodup := by
    rw [applyFilter_eq]
    exact h.nodup.sublist (List.filter_sublist.map _)
  rw [List.Nodup, List.pairwise_map] at hids ⊢
  refine hids.imp fun {a b} hne heq => hne ?_
  exact congrArg (fun k : String ×ₗ String => (ofLex k).2) (show eventKey a = eventKey b from heq)

/-! ## The reader walks down the keys -/

/-- The reader has what a walk has, its cursor in the form it is passed. -/
def Follows (r : Reader) (w : Walk AuditEvent (String ×ₗ String)) : Prop :=
  r.after = w.after.map (fun k => encodeCursor (eventCursor k)) ∧ r.returned = w.rows ∧ r.more = w.more

/-- Cursors stand for keys of events. -/
def Sane (w : Walk AuditEvent (String ×ₗ String)) : Prop :=
  ∀ k ∈ w.after, (ofLex k).1 ≠ "" ∧ (ofLex k).2 ≠ "" ∧ ':' ∉ (ofLex k).2.toList

theorem encodeCursor_ne {text : AuditCursor} (h : text ≠ "") : encodeCursor text ≠ "" := by
  intro hempty
  have hback := decodeCursor_encodeCursor (fun _ => "") text
  rw [hempty] at hback
  exact h (hback.symm.trans (by decide))

theorem memoryCursorKey_of_sane {w : Walk AuditEvent (String ×ₗ String)} (h : Sane w) :
    memoryCursorKey ((truthy (w.after.map fun k => encodeCursor (eventCursor k))).map (decodeCursor replaced)) = .ok w.after := by
  cases hafter : w.after with
  | none => rfl
  | some k =>
    obtain ⟨hat, hid⟩ := h k (by rw [hafter]; rfl)
    have htext : eventCursor k ≠ "" := by
      intro hempty
      have hdecoded := decode_encode hat hid
      rw [show encodeAuditCursor (ofLex k).1 (ofLex k).2 = "" from hempty] at hdecoded
      exact absurd hdecoded (by rw [show decodeAuditCursor "" = .error "malformed audit cursor" by decide]; simp)
    have htruthy : truthy (some (encodeCursor (eventCursor k))) = some (encodeCursor (eventCursor k)) := by
      simp [truthy, encodeCursor_ne htext]
    have hdecode : decodeAuditCursor (eventCursor k) = .ok ((ofLex k).1, (ofLex k).2) := decode_encode hat hid
    rw [Option.map_some, htruthy, Option.map_some, decodeCursor_encodeCursor]
    show (decodeAuditCursor (eventCursor k)).map _ = _
    rw [hdecode]
    rfl

/-- The pages of the log are those of its keys. -/
theorem listPage_eq {s : MemoryLog} {w : Walk AuditEvent (String ×ₗ String)} (hpos : 0 < limit) (hw : Sane w) :
    listPage replaced s filter limit (w.after.map fun k => encodeCursor (eventCursor k)) =
      .ok ⟨(page eventKey limit (descending eventKey (applyFilter filter s.events)) w.after).1,
        (page eventKey limit (descending eventKey (applyFilter filter s.events)) w.after).2.isSome,
        (page eventKey limit (descending eventKey (applyFilter filter s.events)) w.after).2.map fun k =>
          encodeCursor (eventCursor k)⟩ := by
  unfold listPage paginateAuditEvents
  rw [memoryCursorKey_of_sane hw]
  show Except.ok _ = Except.ok _
  unfold page
  generalize past eventKey w.after (descending eventKey (applyFilter filter s.events)) = rest
  by_cases hlt : limit < rest.length
  · obtain ⟨e, he, hsome⟩ := piece_cursor_isSome eventKey hpos hlt
    simp only [decide_eq_true hlt, if_true, he, hsome]
    rfl
  · have htake : rest.take limit = rest := List.take_of_length_le (by omega)
    unfold piece
    simp only [decide_eq_false hlt, if_neg hlt, htake]
    rfl

/-- **A fetch** is a step of the walk. -/
theorem fetch_follows {s : MemoryLog} {r : Reader} {w : Walk AuditEvent (String ×ₗ String)} (hpos : 0 < limit)
    (hs : Numbered s) (hr : Follows r w) (hw : Sane w) :
    ∃ r', r.fetch replaced filter limit s = .ok r' ∧ Follows r' (w.fetch eventKey limit (applyFilter filter s.events)) ∧
      Sane (w.fetch eventKey limit (applyFilter filter s.events)) := by
  obtain ⟨hafter, hreturned, hmore⟩ := hr
  unfold Reader.fetch Walk.fetch
  rw [hmore]
  cases w.more with
  | false => exact ⟨r, rfl, ⟨hafter, hreturned, hmore⟩, hw⟩
  | true =>
    simp only [if_true]
    have hsane : ∀ k ∈ (page eventKey limit (descending eventKey (applyFilter filter s.events)) w.after).2,
        (ofLex k).1 ≠ "" ∧ (ofLex k).2 ≠ "" ∧ ':' ∉ (ofLex k).2.toList := by
      intro k hk
      obtain ⟨e, he, rfl⟩ := page_cursor hk
      have hmem := (mem_applyFilter.mp ((descending_perm _).subset he)).1
      exact ⟨hs.texts e hmem, hs.id_ok hmem⟩
    rw [hafter, listPage_eq hpos hw, hreturned]
    exact ⟨_, rfl, ⟨rfl, rfl, rfl⟩, hsane⟩

/-! ## What a whole reading keeps -/

/-- Over a log that had the events of `base`. -/
structure Reads (filter : Filter) (limit : ℕ) (base : List AuditEvent) (count : ℕ) (s : Session) : Prop where
  numbered : Numbered s.log
  still : ∀ e ∈ base, e ∈ applyFilter filter s.log.events
  reader : ∃ r w, s.reader = .ok r ∧ Follows r w ∧ Sane w ∧ Walked eventKey base w ∧
    (∀ e ∈ w.rows, e ∈ applyFilter filter s.log.events) ∧ (w.more = true → count ≤ w.rows.length)

theorem applyFilter_append (events more : List AuditEvent) :
    applyFilter filter (events ++ more) = applyFilter filter events ++ applyFilter filter more := by
  rw [applyFilter_eq, applyFilter_eq, applyFilter_eq, List.filter_append]

theorem reads_fetch {base : List AuditEvent} {count : ℕ} {s : Session} (hpos : 0 < limit)
    (h : Reads filter limit base count s) :
    Reads filter limit base (count + 1) (s.turn D replaced filter limit .fetch) := by
  obtain ⟨r, w, hr, hfollows, hsane, hwalked, hrows, hcount⟩ := h.reader
  obtain ⟨r', hr', hfollows', hsane'⟩ := fetch_follows hpos h.numbered hfollows hsane
  refine ⟨h.numbered, h.still, r', _, ?_, hfollows', hsane', hwalked.fetch hpos h.numbered.keys h.still, ?_, ?_⟩
  · show s.reader.bind _ = _
    rw [hr]
    exact hr'
  · intro e he
    exact (Walk.mem_fetch he).elim (hrows e) id
  · intro hmore
    have hlength := Walk.length_fetch hpos hmore
    have hbefore : w.more = true := by
      unfold Walk.fetch at hmore
      split at hmore
      · next h => exact h
      · next h => exact absurd hmore h
    have := hcount hbefore
    omega

theorem reads_record {base : List AuditEvent} {count : ℕ} {s : Session} (c : RecordCall)
    (h : Reads filter limit base count s) : Reads filter limit base count (s.turn D replaced filter limit (.record c)) := by
  have hgrow : ∀ e ∈ applyFilter filter s.log.events, e ∈ applyFilter filter (memoryRecord D s.log c).events := by
    intro e he
    show e ∈ applyFilter filter (s.log.events ++ [_])
    rw [applyFilter_append]
    exact List.mem_append_left _ he
  obtain ⟨r, w, hr, hfollows, hsane, hwalked, hrows, hcount⟩ := h.reader
  exact ⟨numbered_record h.numbered c, fun e he => hgrow e (h.still e he), r, w, hr, hfollows, hsane, hwalked,
    fun e he => hgrow e (hrows e he), hcount⟩

theorem reads_run {base : List AuditEvent} {count : ℕ} {s : Session} (hpos : 0 < limit) (turns : List Turn)
    (h : Reads filter limit base count s) :
    Reads filter limit base (count + fetches turns) (turns.foldl (Session.turn D replaced filter limit) s) := by
  induction turns generalizing s count with
  | nil => exact h
  | cons t turns ih =>
    cases t with
    | fetch =>
      have hnext : Reads filter limit base (count + 1 + fetches turns)
          (turns.foldl (Session.turn D replaced filter limit) (s.turn D replaced filter limit .fetch)) := ih (reads_fetch hpos h)
      have hcount : count + 1 + fetches turns = count + fetches (.fetch :: turns) := by
        unfold fetches
        rw [List.countP_cons_of_pos rfl]
        omega
      rw [← hcount]
      exact hnext
    | record c =>
      have hcount : fetches (.record c :: turns) = fetches turns := by
        unfold fetches
        rw [List.countP_cons_of_neg (by simp)]
      rw [hcount]
      exact ih (reads_record c h)

variable (D replaced filter) in
theorem reading_reads (hpos : 0 < limit) (calls : List RecordCall) (turns : List Turn) :
    Reads filter limit (applyFilter filter (memoryRun D calls).events) (fetches turns)
      (reading D replaced filter limit calls turns) := by
  have hstart : Reads filter limit (applyFilter filter (memoryRun D calls).events) 0 ⟨memoryRun D calls, .ok ⟨none, [], true⟩⟩ :=
    ⟨numbered_run calls, fun e he => he, _, Walk.start, rfl, ⟨rfl, rfl, rfl⟩, fun _ hk => (nomatch hk), walked_start,
      fun e he => absurd he List.not_mem_nil, fun _ => Nat.zero_le _⟩
  rw [← Nat.zero_add (fetches turns)]
  exact reads_run hpos turns hstart

/-- **Nothing is lost and nothing repeated**: whatever is recorded between the fetches, a reader never fails, gets no event
twice, and has every event that was there at the start when there are no more pages; which is so after more fetches than
matching events.  And a cursor is read back. -/
theorem pages_once (D : Dates) (replaced : Bytes → String) (filter : Filter) (limit : ℕ) (hpos : 1 ≤ limit) :
    (∀ calls turns, ∃ r, (reading D replaced filter limit calls turns).reader = .ok r ∧
      (r.returned.map AuditEvent.id).Nodup ∧
      (∀ e ∈ r.returned, e ∈ (reading D replaced filter limit calls turns).log.events ∧ passes filter e.toShown = true) ∧
      (r.more = false → ∀ e ∈ (memoryRun D calls).events, passes filter e.toShown = true → e ∈ r.returned) ∧
      ((reading D replaced filter limit calls turns).log.events.countP (fun e => passes filter e.toShown) < fetches turns →
        r.more = false)) ∧
    ∀ atText id : String, atText ≠ "" → id ≠ "" → ':' ∉ id.toList →
      decodeAuditCursor (decodeCursor replaced (encodeCursor (encodeAuditCursor atText id))) = .ok (atText, id) := by
  refine ⟨fun calls turns => ?_, fun atText id hat hid hcolon => cursor_round_trip replaced hat ⟨hid, hcolon⟩⟩
  have hend := reading_reads D replaced filter hpos calls turns
  obtain ⟨hnumbered, -, r, w, hr, ⟨-, hreturned, hmore⟩, -, hwalked, hrows, hcount⟩ := hend
  have hnodup : w.rows.Nodup := hwalked.falling.imp fun hlt heq => hlt.ne' (congrArg eventKey heq)
  have hids : (w.rows.map AuditEvent.id).Nodup := by
    refine hnodup.map_on fun e he e' he' heq => ?_
    exact List.inj_on_of_nodup_map hnumbered.nodup (mem_applyFilter.mp (hrows e he)).1 (mem_applyFilter.mp (hrows e' he')).1 heq
  refine ⟨r, hr, hreturned ▸ hids, fun e he => mem_applyFilter.mp (hrows e (hreturned ▸ he)), fun hend e he hpasses => ?_,
    fun hfetches => ?_⟩
  · rw [hreturned]
    refine (hwalked.served e (mem_applyFilter.mpr ⟨he, hpasses⟩)).resolve_right fun hleft => ?_
    rw [← hmore, hend] at hleft
    cases hleft.1
  · rw [hmore]
    cases hw : w.more with
    | false => rfl
    | true =>
      have hread := hcount hw
      have hle := (hnodup.subperm fun e he => hrows e he).length_le
      rw [List.countP_eq_length_filter, ← applyFilter_eq] at hfetches
      omega

/-- A wallet's history of one record, a page of one event. -/
theorem pages_once_created : ∃ r, (reading epochDates (fun _ => "") ⟨none, none, none⟩ 1 [walletCreated]
    [.fetch, .record signerAdded, .fetch, .fetch]).reader = .ok r ∧ (r.returned.map AuditEvent.id).Nodup :=
  have hpages := (pages_once epochDates (fun _ => "") ⟨none, none, none⟩ 1 (by decide)).1 [walletCreated]
    [.fetch, .record signerAdded, .fetch, .fetch]
  hpages.imp fun _ h => ⟨h.1, h.2.1⟩

/-! ## The order of the pages -/

/-- Following the cursors ends, with the matching events from the last to the first recorded. -/
def NewestFirst (D : Dates) (replaced : Bytes → String) (filter : Filter) (limit : ℕ) (calls : List RecordCall) : Prop :=
  ∃ n r, (reading D replaced filter limit calls (List.replicate n .fetch)).reader = .ok r ∧ r.more = false ∧
    r.returned = (applyFilter filter (memoryRun D calls).events).reverse

/-- Of two records that the filter keeps the later has the greater text: of the time, or with the same time of its number. -/
def TextsIncrease (D : Dates) (filter : Filter) (calls : List RecordCall) : Prop :=
  ∀ i j, (hij : i < j) → (hj : j < calls.length) →
    passes filter (memoryShown D calls[i]) = true → passes filter (memoryShown D calls[j]) = true →
    D.toISOString calls[i].time < D.toISOString calls[j].time ∨
      (D.toISOString calls[i].time = D.toISOString calls[j].time ∧ toString i < toString j)

/-- The events of the log at their places. -/
theorem memoryRun_getElem (calls : List RecordCall) {i : ℕ} (hi : i < calls.length) (hi' : i < (memoryRun D calls).events.length) :
    (memoryRun D calls).events[i].toShown = memoryShown D calls[i] ∧
      eventKey (memoryRun D calls).events[i] = toLex (D.toISOString calls[i].time, toString i) := by
  have hshown : (memoryRun D calls).events[i].toShown = memoryShown D calls[i] := by
    have := List.getElem_of_eq (memoryRun_spec D calls).1 (i := i) (by rwa [List.length_map])
    rwa [List.getElem_map, List.getElem_map] at this
  have hid : (memoryRun D calls).events[i].id = toString i := by
    have := List.getElem_of_eq (numbered_run (D := D) calls).ids (i := i) (by rwa [List.length_map])
    rwa [List.getElem_map, List.getElem_map, List.getElem_range] at this
  refine ⟨hshown, ?_⟩
  have htext : (memoryRun D calls).events[i].atText = D.toISOString calls[i].time := congrArg Shown.atText hshown
  unfold eventKey
  rw [htext, hid]

theorem textsIncrease_iff (calls : List RecordCall) :
    TextsIncrease D filter calls ↔
      (applyFilter filter (memoryRun D calls).events).Pairwise fun a b => eventKey a < eventKey b := by
  have hlength : (memoryRun D calls).events.length = calls.length := by
    have := congrArg List.length (memoryRun_spec D calls).1
    rwa [List.length_map, List.length_map] at this
  rw [applyFilter_eq, List.pairwise_filter, List.pairwise_iff_getElem]
  constructor
  · intro h i j hi' hj' hij hpi hpj
    have hj : j < calls.length := hlength ▸ hj'
    have hi : i < calls.length := hij.trans hj
    obtain ⟨hshownI, hkeyI⟩ := memoryRun_getElem calls hi hi'
    obtain ⟨hshownJ, hkeyJ⟩ := memoryRun_getElem calls hj hj'
    rw [hshownI] at hpi
    rw [hshownJ] at hpj
    rw [hkeyI, hkeyJ]
    exact Prod.Lex.toLex_lt_toLex.mpr (h i j hij hj hpi hpj)
  · intro h i j hij hj hpi hpj
    have hj' : j < (memoryRun D calls).events.length := hlength ▸ hj
    have hi : i < calls.length := hij.trans hj
    have hi' : i < (memoryRun D calls).events.length := hij.trans hj'
    obtain ⟨hshownI, hkeyI⟩ := memoryRun_getElem calls hi hi'
    obtain ⟨hshownJ, hkeyJ⟩ := memoryRun_getElem calls hj hj'
    have hlt := h i j hi' hj' hij (by rwa [hshownI]) (by rwa [hshownJ])
    rw [hkeyI, hkeyJ] at hlt
    exact Prod.Lex.toLex_lt_toLex.mp hlt

/-- Reading only, the log stays. -/
theorem reading_log (calls : List RecordCall) (n : ℕ) :
    (reading D replaced filter limit calls (List.replicate n .fetch)).log = memoryRun D calls := by
  have hfold : ∀ s : Session, ((List.replicate n Turn.fetch).foldl (Session.turn D replaced filter limit) s).log = s.log := by
    induction n with
    | zero => exact fun s => rfl
    | succ n ih => exact fun s => ih _
  exact hfold _

/-- Under the limit zero a page is empty, and there are always more when there is an event. -/
theorem reading_zero {calls : List RecordCall} (hne : applyFilter filter (memoryRun D calls).events ≠ []) (n : ℕ) :
    (reading D replaced filter 0 calls (List.replicate n .fetch)).reader = .ok ⟨none, [], true⟩ := by
  have hlength : 0 < (descending eventKey (applyFilter filter (memoryRun D calls).events)).length := by
    rw [(descending_perm _).length_eq]
    exact List.length_pos_iff.mpr hne
  have hpage : (⟨none, [], true⟩ : Reader).fetch replaced filter 0 (memoryRun D calls) = .ok ⟨none, [], true⟩ := by
    unfold Reader.fetch listPage paginateAuditEvents
    simp only [if_true]
    show Except.ok (Reader.mk _ _ (decide (0 < (descending eventKey (applyFilter filter (memoryRun D calls).events)).length))) = _
    simp [hlength]
  have hfold : ∀ n, List.foldl (Session.turn D replaced filter 0) (⟨memoryRun D calls, .ok ⟨none, [], true⟩⟩ : Session)
      (List.replicate n Turn.fetch) = ⟨memoryRun D calls, .ok ⟨none, [], true⟩⟩ := by
    intro n
    induction n with
    | zero => rfl
    | succ n ih =>
      rw [List.replicate_succ, List.foldl_cons]
      have hturn : Session.turn D replaced filter 0 (⟨memoryRun D calls, .ok ⟨none, [], true⟩⟩ : Session) .fetch =
          ⟨memoryRun D calls, .ok ⟨none, [], true⟩⟩ := congrArg (Session.mk _) hpage
      rw [hturn, ih]
  exact congrArg Session.reader (hfold n)

variable (D replaced filter) in
/-- Under any other limit following the cursors ends, with the matching events sorted. -/
theorem reading_sorted (hpos : 0 < limit) (calls : List RecordCall) (n : ℕ) :
    ∃ r, (reading D replaced filter limit calls (List.replicate n .fetch)).reader = .ok r ∧
      (r.more = false → r.returned = descending eventKey (applyFilter filter (memoryRun D calls).events)) ∧
      ((applyFilter filter (memoryRun D calls).events).length < n → r.more = false) := by
  have hend := reading_reads D replaced filter hpos calls (List.replicate n .fetch)
  obtain ⟨hnumbered, -, r, w, hr, ⟨-, hreturned, hmore⟩, -, hwalked, hrows, hcount⟩ := hend
  rw [reading_log] at hnumbered hrows
  have hnodup : w.rows.Nodup := hwalked.falling.imp fun hlt heq => hlt.ne' (congrArg eventKey heq)
  refine ⟨r, hr, fun hlast => ?_, fun hn => ?_⟩
  · have hall : ∀ e ∈ applyFilter filter (memoryRun D calls).events, e ∈ w.rows := by
      intro e he
      refine (hwalked.served e he).resolve_right fun hleft => ?_
      rw [← hmore, hlast] at hleft
      cases hleft.1
    have hkeys : (applyFilter filter (memoryRun D calls).events).Nodup := List.Nodup.of_map eventKey hnumbered.keys
    have hperm : w.rows.Perm (applyFilter filter (memoryRun D calls).events) :=
      (List.perm_ext_iff_of_nodup hnodup hkeys).mpr fun e => ⟨hrows e, hall e⟩
    rw [hreturned]
    refine List.Perm.eq_of_pairwise (fun a b _ _ hab hba => absurd (hab.trans hba) (lt_irrefl _)) hwalked.falling
      (descending_lt hnumbered.keys) ?_
    exact hperm.trans (descending_perm _).symm
  · rw [hmore]
    cases hw : w.more with
    | false => rfl
    | true =>
      have hfetches : fetches (List.replicate n .fetch) = n := by
        unfold fetches
        rw [List.countP_replicate, if_pos rfl]
      have hread := hcount hw
      have hle := (hnodup.subperm fun e he => hrows e he).length_le
      omega

theorem newestFirst_of_pos (hpos : 0 < limit) (calls : List RecordCall) :
    NewestFirst D replaced filter limit calls ↔
      (applyFilter filter (memoryRun D calls).events).Pairwise fun a b => eventKey a < eventKey b := by
  constructor
  · rintro ⟨n, r, hr, hlast, hreturned⟩
    obtain ⟨r', hr', hsorted, -⟩ := reading_sorted D replaced filter hpos calls n
    obtain rfl := Except.ok.inj (hr.symm.trans hr')
    have hfalling : (descending eventKey (applyFilter filter (memoryRun D calls).events)).Pairwise fun a b =>
        eventKey b < eventKey a := descending_lt (numbered_run calls).keys
    rw [← hsorted hlast, hreturned] at hfalling
    exact List.pairwise_reverse.mp hfalling
  · intro hincrease
    obtain ⟨r, hr, hsorted, hend⟩ := reading_sorted D replaced filter hpos calls ((applyFilter filter (memoryRun D calls).events).length + 1)
    have hlast := hend (Nat.lt_succ_self _)
    exact ⟨_, r, hr, hlast, (hsorted hlast).trans (descending_of_lt hincrease)⟩

theorem newestFirst_zero (calls : List RecordCall) :
    NewestFirst D replaced filter 0 calls ↔ applyFilter filter (memoryRun D calls).events = [] := by
  by_cases hnone : applyFilter filter (memoryRun D calls).events = []
  · refine iff_of_true ⟨1, ⟨none, [], false⟩, ?_, rfl, by rw [hnone]; rfl⟩ hnone
    show (⟨none, [], true⟩ : Reader).fetch replaced filter 0 (memoryRun D calls) = _
    have hsorted : descending eventKey ([] : List AuditEvent) = [] := List.mergeSort_nil
    unfold Reader.fetch listPage paginateAuditEvents
    rw [hnone, hsorted]
    rfl
  · refine iff_of_false ?_ hnone
    rintro ⟨n, r, hr, hlast, -⟩
    obtain rfl := Except.ok.inj ((reading_zero hnone n).symm.trans hr)
    cases hlast

variable (D replaced filter limit) in
/-- **The pages are newest first** exactly when the texts of what they show increase. -/
theorem newestFirst_iff (calls : List RecordCall) :
    NewestFirst D replaced filter limit calls ↔
      (1 ≤ limit ∨ applyFilter filter (memoryRun D calls).events = []) ∧ TextsIncrease D filter calls := by
  rw [textsIncrease_iff]
  by_cases hpos : 1 ≤ limit
  · rw [and_iff_right (Or.inl hpos)]
    exact newestFirst_of_pos hpos calls
  · obtain rfl : limit = 0 := by omega
    rw [newestFirst_zero]
    constructor
    · intro hnone
      rw [hnone]
      exact ⟨.inr rfl, List.Pairwise.nil⟩
    · exact fun h => h.1.resolve_left hpos

/-- **The tenth and the eleventh record of a millisecond** change places. -/
theorem eleven_out_of_order :
    ¬ ∀ (D : Dates) (replaced : Bytes → String) (filter : Filter) (limit : ℕ) (calls : List RecordCall), 1 ≤ limit →
      calls.Pairwise (fun c c' => c.time ≤ c'.time) → NewestFirst D replaced filter limit calls := by
  intro h
  have hpages := h epochDates (fun _ => "") ⟨none, none, none⟩ 1 (List.replicate 11 walletCreated) (by decide)
    (List.pairwise_replicate.mpr (.inr le_rfl))
  have hincrease := (newestFirst_of_pos (by decide) _).mp hpages
  exact absurd hincrease (by decide)

end Reading

end Vellar.Wallet.Audit
