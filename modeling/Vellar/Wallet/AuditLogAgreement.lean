import Vellar.Wallet.AuditLog

/-!
# Vellar.Wallet.AuditLogAgreement — when the two audit logs answer alike

Each log shows every record in its own way (`pgShown`, `memoryShown`); the two are the same exactly for what was recorded
`Consistent`ly.  A query is a selection of what is shown, in order (`list`, the route) or newest first and page by page
(`pages`), and from the selections `answers_agree_iff` follows.
-/

set_option autoImplicit false

namespace Vellar.Wallet.Audit

open Keyset
open Worker (truthy)

/-! ## What a log shows of a record -/

section Shown

variable (D : Dates)

def rowOf (c : RecordCall) : Row := ⟨c.uuid, c.type, c.time, withActor c.data c.actor, c.actor⟩

def pgShown (c : RecordCall) : Shown := (toAuditEvent D (rowOf c)).toShown

def memoryShown (c : RecordCall) : Shown := ⟨c.type, D.toISOString c.time, c.data, c.actor.map .str⟩

/-- The data of a record with an actor name that actor, those of one without none name none. -/
def Consistent (c : RecordCall) : Prop :=
  match c.actor with
  | none => c.data "actor" = none
  | some actor => actor ≠ "" → c.data "actor" = some (.str actor)

variable {D}

theorem withActor_of_ne {data : Data} {actor : String} (h : actor ≠ "") :
    withActor data (some actor) = Function.update data "actor" (some (.str actor)) := by
  have htruthy : truthy (some actor) = some actor := by simp [truthy, h]
  unfold withActor
  rw [htruthy]

theorem pgShown_eq_iff {c : RecordCall} : pgShown D c = memoryShown D c ↔ Consistent c := by
  obtain ⟨type, data, actor, time, uuid⟩ := c
  unfold Consistent
  cases actor with
  | none =>
    constructor
    · intro h
      exact congrArg Shown.actor h
    · intro h
      show (⟨type, D.toISOString time, data, data "actor"⟩ : Shown) = _
      rw [show data "actor" = none from h]
      rfl
  | some actor =>
    constructor
    · intro h hne
      have hdata : withActor data (some actor) = data := congrArg Shown.data h
      rw [withActor_of_ne hne] at hdata
      have hfield := congrFun hdata "actor"
      rw [Function.update_self] at hfield
      exact hfield.symm
    · intro h
      have hdata : withActor data (some actor) = data := by
        by_cases hne : actor = ""
        · rw [hne]
          rfl
        · rw [withActor_of_ne hne, ← h hne, Function.update_eq_self]
      show (⟨type, D.toISOString time, withActor data (some actor), some (.str actor)⟩ : Shown) = _
      rw [hdata]
      rfl

end Shown

/-! ## Runs of records -/

section Runs

variable (D : Dates)

def pgRun (calls : List RecordCall) : List Row := calls.foldl pgRecord []

def memoryRun (calls : List RecordCall) : MemoryLog := calls.foldl (memoryRecord D) ⟨[], 0⟩

theorem pgRun_eq (calls : List RecordCall) : pgRun calls = calls.map rowOf := by
  have hfold : ∀ rows : List Row, calls.foldl pgRecord rows = rows ++ calls.map rowOf := by
    induction calls with
    | nil => exact fun rows => (List.append_nil rows).symm
    | cons c calls ih =>
      intro rows
      rw [List.foldl_cons, ih, List.map_cons]
      exact List.append_assoc rows [rowOf c] _
  exact hfold []

/-- A number, as memory writes ids, has no colon. -/
theorem id_toString (n : ℕ) : toString n ≠ "" ∧ ':' ∉ (toString n).toList := by
  constructor
  · exact Nat.repr_ne_empty
  · intro h
    have hdigit := Nat.isDigit_of_mem_toDigits (by decide) (by decide) (show ':' ∈ Nat.toDigits 10 n by simpa using h)
    exact absurd hdigit (by decide)

/-- The events of the memory log show its records, under ids without a colon. -/
theorem memoryRun_spec (calls : List RecordCall) :
    (memoryRun D calls).events.map AuditEvent.toShown = calls.map (memoryShown D) ∧
      ∀ e ∈ (memoryRun D calls).events, e.id ≠ "" ∧ ':' ∉ e.id.toList := by
  have hfold : ∀ s : MemoryLog, (∀ e ∈ s.events, e.id ≠ "" ∧ ':' ∉ e.id.toList) →
      (calls.foldl (memoryRecord D) s).events.map AuditEvent.toShown =
          s.events.map AuditEvent.toShown ++ calls.map (memoryShown D) ∧
        ∀ e ∈ (calls.foldl (memoryRecord D) s).events, e.id ≠ "" ∧ ':' ∉ e.id.toList := by
    induction calls with
    | nil => exact fun s hids => ⟨(List.append_nil _).symm, hids⟩
    | cons c calls ih =>
      intro s hids
      obtain ⟨hshown, hids'⟩ := ih (memoryRecord D s c) fun e he => by
        rcases List.mem_append.mp he with he | he
        · exact hids e he
        · rw [List.mem_singleton.mp he]
          exact id_toString s.nextId
      refine ⟨?_, hids'⟩
      rw [List.foldl_cons, hshown]
      show (s.events ++ [_]).map AuditEvent.toShown ++ _ = _
      rw [List.map_append, List.append_assoc]
      rfl
  exact hfold ⟨[], 0⟩ fun e he => absurd he List.not_mem_nil

end Runs

/-! ## Filters as selections of what is shown -/

section Filters

def passesTypes (filter : Filter) (type : String) : Bool :=
  (truthy filter.type).all (fun t => type = t) && filter.types.all fun types => types.contains type

def passes (filter : Filter) (s : Shown) : Bool :=
  passesTypes filter s.type && (truthy filter.actor).all fun actor => s.actor.bind Json.str? = some actor

theorem keepWhen_eq {α : Type} (set : Option α) (p : α → AuditEvent → Bool) (events : List AuditEvent) :
    keepWhen set p events = events.filter fun e => set.all fun a => p a e := by
  cases set with
  | none => exact (List.filter_eq_self.mpr fun _ _ => rfl).symm
  | some a => rfl

theorem applyFilter_eq (filter : Filter) (events : List AuditEvent) :
    applyFilter filter events = events.filter fun e => passes filter e.toShown := by
  unfold applyFilter
  rw [keepWhen_eq, keepWhen_eq, keepWhen_eq, List.filter_filter, List.filter_filter]
  refine List.filter_congr fun e _ => ?_
  unfold passes passesTypes
  simp only [Bool.and_comm, Bool.and_left_comm]

theorem map_filter_shown (p : Shown → Bool) (events : List AuditEvent) :
    (events.filter fun e => p e.toShown).map AuditEvent.toShown = (events.map AuditEvent.toShown).filter p := by
  rw [List.filter_map]
  rfl

end Filters

/-! ## Queries -/

inductive Query where
  | list (filter : Filter)
  /-- `listPage` under every limit, along the cursors it hands out. -/
  | pages (filter : Filter)
  | auditLogs (contractId : String) (actor : Option String)

/-- The page that is reached by `n` cursors. -/
def pagesOf (listPage : Option AuditCursor → Except String AuditPage) : ℕ → Option AuditPage
  | 0 => (listPage none).toOption
  | n + 1 => (pagesOf listPage n).bind fun page => page.nextCursor.bind fun cursor => (listPage (some cursor)).toOption

def shownOf (events : List AuditEvent) : List Shown := events.map AuditEvent.toShown

section Agreement

variable (D : Dates) (calls : List RecordCall)

/-- The two logs answer a query with the same events in the same order, up to ids. -/
def Agree : Query → Prop
  | .list filter => shownOf (pgList D (pgRun calls) filter) = shownOf (memoryList (memoryRun D calls) filter)
  | .pages filter => ∀ limit n,
      (pagesOf (pgListPage D (pgRun calls) filter limit) n).map (fun page => shownOf page.events) =
        (pagesOf (paginateAuditEvents (memoryRun D calls).events filter limit) n).map fun page => shownOf page.events
  | .auditLogs contractId actor =>
      (auditLogs (pgList D (pgRun calls)) contractId actor).map shownOf =
        (auditLogs (memoryList (memoryRun D calls)) contractId actor).map shownOf

/-- What the route keeps of what it is shown. -/
def routeKeeps (contractId : String) (actor : Option String) (s : Shown) : Bool :=
  passes ⟨none, none, some contractId⟩ s && actor.all fun actor => byActor actor s

/-- What a query selects was recorded consistently.  A page selects more than its filter keeps, and its order is that of the texts. -/
def Clean : Query → Prop
  | .list filter => ∀ c ∈ calls, passes filter (pgShown D c) ∨ passes filter (memoryShown D c) → Consistent c
  | .pages filter =>
      (∀ c ∈ calls, pgConditions filter (rowOf c) → passesTypes filter c.type ∧ Consistent c) ∧
        (calls.filter fun c => pgConditions filter (rowOf c)).Pairwise fun c c' => D.toISOString c.time < D.toISOString c'.time
  | .auditLogs contractId actor => (∀ a, actor = some a → a ∈ ["passkey", "device", "policy"]) →
      ∀ c ∈ calls, routeKeeps contractId actor (pgShown D c) ∨ routeKeeps contractId actor (memoryShown D c) → Consistent c

variable {D calls}

/-- Records at increasing times. -/
def Increasing (calls : List RecordCall) : Prop := calls.Pairwise fun c c' => c.time < c'.time

theorem Increasing.nodup (h : Increasing calls) : (calls.map fun c => D.toISOString c.time).Nodup := by
  refine List.pairwise_map.mpr (h.imp fun {c c'} hlt heq => ?_)
  have htime := congrArg D.parse heq
  rw [D.parse_toISOString, D.parse_toISOString] at htime
  omega

/-! ### Selections in order -/

theorem shownOf_memory (p : Shown → Bool) :
    shownOf ((memoryRun D calls).events.filter fun e => p e.toShown) = (calls.filter fun c => p (memoryShown D c)).map (memoryShown D) := by
  unfold shownOf
  rw [map_filter_shown, (memoryRun_spec D calls).1, List.filter_map]
  rfl

theorem shownOf_pg (p : Shown → Bool) :
    shownOf (((pgRun calls).map (toAuditEvent D)).filter fun e => p e.toShown) =
      (calls.filter fun c => p (pgShown D c)).map (pgShown D) := by
  unfold shownOf
  rw [map_filter_shown, pgRun_eq, List.map_map, List.map_map, List.filter_map]
  rfl

theorem pgList_eq (h : Increasing calls) (filter : Filter) :
    pgList D (pgRun calls) filter = ((pgRun calls).map (toAuditEvent D)).filter fun e => passes filter e.toShown := by
  have hsorted : (pgRun calls).mergeSort (fun a b => decide (a.atTime ≤ b.atTime)) = pgRun calls := by
    refine List.mergeSort_of_pairwise ?_
    rw [pgRun_eq]
    exact List.pairwise_map.mpr (h.imp fun hlt => decide_eq_true hlt.le)
  unfold pgList
  rw [hsorted, applyFilter_eq]

/-- **A selection of what is shown** is the same in both logs exactly when what it keeps was recorded consistently. -/
theorem selection_iff (h : Increasing calls) (p : Shown → Bool) :
    (calls.filter fun c => p (pgShown D c)).map (pgShown D) = (calls.filter fun c => p (memoryShown D c)).map (memoryShown D) ↔
      ∀ c ∈ calls, p (pgShown D c) = true ∨ p (memoryShown D c) = true → Consistent c := by
  constructor
  · intro heq c hc hsel
    have hsame := @same_of_perm _ _ _ _ _ _ _ _ (fun c => D.toISOString c.time) Shown.atText h.nodup (fun _ => rfl) (fun _ => rfl)
      (List.Perm.of_eq heq) c hc hsel
    exact pgShown_eq_iff.mp hsame.2.2
  · intro hclean
    refine filter_map_eq fun c hc hsel => ?_
    have hshown : pgShown D c = memoryShown D c := pgShown_eq_iff.mpr (hclean c hc hsel)
    rw [hshown, or_self] at hsel
    exact ⟨hshown ▸ hsel, hsel, hshown⟩

theorem list_agree_iff (h : Increasing calls) (filter : Filter) : Agree D calls (.list filter) ↔ Clean D calls (.list filter) := by
  show shownOf _ = shownOf (applyFilter filter _) ↔ _
  rw [pgList_eq h, applyFilter_eq, shownOf_pg, shownOf_memory]
  exact selection_iff h (passes filter)

/-- What the route answers is what it keeps. -/
theorem auditLogs_eq {list : Filter → List AuditEvent} {events : List AuditEvent} {contractId : String} {actor : Option String}
    (hlist : list ⟨none, none, some contractId⟩ = events.filter fun e => passes ⟨none, none, some contractId⟩ e.toShown) :
    auditLogs list contractId actor =
      if ∀ a, actor = some a → a ∈ ["passkey", "device", "policy"] then
        .ok (events.filter fun e => routeKeeps contractId actor e.toShown)
      else .error 400 := by
  unfold auditLogs routeKeeps
  cases actor with
  | none =>
    rw [if_pos fun a ha => nomatch ha]
    simp only [Option.all_none, Bool.and_true, hlist]
  | some actor =>
    have hknown : (∀ a, some actor = some a → a ∈ ["passkey", "device", "policy"]) ↔ actor ∈ ["passkey", "device", "policy"] :=
      ⟨fun h => h actor rfl, fun h a ha => Option.some.inj ha ▸ h⟩
    dsimp only
    by_cases hmem : actor ∈ ["passkey", "device", "policy"]
    · rw [if_pos (hknown.mpr hmem), if_neg (not_not.mpr hmem), hlist, List.filter_filter]
      simp only [Option.all_some, Bool.and_comm]
    · rw [if_neg (mt hknown.mp hmem), if_pos hmem]

theorem auditLogs_agree_iff (h : Increasing calls) (contractId : String) (actor : Option String) :
    Agree D calls (.auditLogs contractId actor) ↔ Clean D calls (.auditLogs contractId actor) := by
  show (auditLogs _ contractId actor).map shownOf = (auditLogs _ contractId actor).map shownOf ↔ (_ → _)
  rw [auditLogs_eq (pgList_eq h _), auditLogs_eq (applyFilter_eq _ _)]
  by_cases hknown : ∀ a, actor = some a → a ∈ ["passkey", "device", "policy"]
  · rw [if_pos hknown, if_pos hknown, forall_prop_of_true hknown]
    show Except.ok (shownOf _) = Except.ok (shownOf _) ↔ _
    rw [Except.ok.injEq, shownOf_pg, shownOf_memory]
    exact selection_iff h (routeKeeps contractId actor)
  · rw [if_neg hknown, if_neg hknown]
    exact iff_of_true rfl fun h => absurd h hknown

/-! ### Pages -/

theorem decode_encode {atText id : String} (hat : atText ≠ "") (hid : id ≠ "" ∧ ':' ∉ id.toList) :
    decodeAuditCursor (encodeAuditCursor atText id) = .ok (atText, id) := by
  have hchars : (encodeAuditCursor atText id).toList = atText.toList ++ ':' :: id.toList := by
    unfold encodeAuditCursor
    rw [String.toList_append, String.toList_append, List.append_assoc]
    rfl
  have hlast : ((encodeAuditCursor atText id).toList.reverse.takeWhile (· ≠ ':')).reverse = id.toList := by
    rw [hchars, List.reverse_append, List.reverse_cons, List.append_assoc]
    rw [List.takeWhile_append_of_pos fun c hc => ?_]
    · simp
    · rw [List.mem_reverse] at hc
      exact decide_eq_true fun heq => hid.2 (heq ▸ hc)
  have hfirst : (encodeAuditCursor atText id).toList.take ((encodeAuditCursor atText id).toList.length - id.toList.length - 1) =
      atText.toList := by
    have hlength : (encodeAuditCursor atText id).toList.length - id.toList.length - 1 = atText.toList.length := by
      rw [hchars, List.length_append, List.length_cons]
      omega
    rw [hlength, hchars, List.take_left]
  have hempty : ∀ {s : String}, s ≠ "" → s.toList ≠ [] := fun hne hnil => hne (String.toList_eq_nil_iff.mp hnil)
  unfold decodeAuditCursor
  dsimp only
  rw [hlast, hfirst, if_neg, String.ofList_toList, String.ofList_toList]
  rintro (h | h | h)
  · exact h (hchars ▸ List.mem_append_right _ List.mem_cons_self)
  · exact hempty hat h
  · exact hempty hid.1 h

section Simulation

variable {ρ κ : Type} [LinearOrder κ] {key : ρ → κ} {l : List ρ} {limit : ℕ} {show' : ρ → Shown} {enc : κ → AuditCursor}
  {listPage : Option AuditCursor → Except String AuditPage}

/-- A page of a log that shows a page of a list. -/
def Shows (show' : ρ → Shown) (enc : κ → AuditCursor) (page : AuditPage) (p : List ρ × Option κ) : Prop :=
  shownOf page.events = p.1.map show' ∧ page.nextCursor = p.2.map enc

/-- The pages along a log's own cursors are those along the keys that the cursors stand for. -/
theorem pagesOf_eq (hfirst : ∃ p, listPage none = .ok p ∧ Shows show' enc p (page key limit l none))
    (hnext : ∀ a ∈ l, ∃ p, listPage (some (enc (key a))) = .ok p ∧ Shows show' enc p (page key limit l (some (key a)))) (n : ℕ) :
    (pagesOf listPage n).map (fun page => shownOf page.events) = (pages key limit l n).map fun p => p.1.map show' := by
  have hshows : (pages key limit l n = none ∧ pagesOf listPage n = none) ∨
      ∃ p p', pages key limit l n = some p ∧ pagesOf listPage n = some p' ∧ Shows show' enc p' p := by
    induction n with
    | zero =>
      obtain ⟨p, hp, hshows⟩ := hfirst
      refine .inr ⟨_, p, rfl, ?_, hshows⟩
      show (listPage none).toOption = _
      rw [hp]
      rfl
    | succ n ih =>
      unfold pages pagesOf
      rcases ih with ⟨hnone, hnone'⟩ | ⟨p, p', hp, hp', -, hcursor⟩
      · rw [hnone, hnone']
        exact .inl ⟨rfl, rfl⟩
      · rw [hp, hp', Option.bind_some, Option.bind_some, hcursor]
        cases hk : p.2 with
        | none => exact .inl ⟨rfl, rfl⟩
        | some k =>
          obtain ⟨after, rfl⟩ := pages_some hp
          obtain ⟨a, ha, rfl⟩ := page_cursor hk
          obtain ⟨q, hq, hshows⟩ := hnext a ha
          refine .inr ⟨_, q, rfl, ?_, hshows⟩
          show (listPage (some (enc (key a)))).toOption = _
          rw [hq]
          rfl
  rcases hshows with ⟨hnone, hnone'⟩ | ⟨p, p', hp, hp', hshown, -⟩
  · rw [hnone, hnone']
    rfl
  · rw [hp, hp', Option.map_some, Option.map_some, hshown]

end Simulation

/-- The cursor of a row, and of an event. -/
def rowCursor (D : Dates) (k : ℤ ×ₗ String) : AuditCursor := encodeAuditCursor (D.toISOString (ofLex k).1) (ofLex k).2

def eventCursor (k : String ×ₗ String) : AuditCursor := encodeAuditCursor (ofLex k).1 (ofLex k).2

theorem rowKey_lt {a b : Row} (h : a.atTime < b.atTime) : rowKey a < rowKey b := Prod.Lex.toLex_lt_toLex.mpr (.inl h)

theorem eventKey_lt {a b : AuditEvent} (h : a.atText < b.atText) : eventKey a < eventKey b := Prod.Lex.toLex_lt_toLex.mpr (.inl h)

theorem atText_le {a b : AuditEvent} (h : eventKey a ≤ eventKey b) : a.atText ≤ b.atText :=
  (Prod.Lex.toLex_le_toLex.mp h).elim le_of_lt fun heq => heq.1.le

/-- The rows of a page query, newest first. -/
def pgRows (calls : List RecordCall) (filter : Filter) : List Row := descending rowKey ((pgRun calls).filter (pgConditions filter))

theorem pgRows_nodup (h : Increasing calls) (filter : Filter) : (((pgRun calls).filter (pgConditions filter)).map rowKey).Nodup := by
  have hall : ((pgRun calls).map rowKey).Nodup := by
    rw [pgRun_eq, List.map_map]
    refine List.pairwise_map.mpr (h.imp fun {c c'} hlt heq => ?_)
    have htime : c.time = c'.time := congrArg (fun k : ℤ ×ₗ String => (ofLex k).1) heq
    omega
  exact hall.sublist (List.filter_sublist.map _)

theorem pgListPage_shows (h : Increasing calls) (filter : Filter) (limit : ℕ) {after : Option AuditCursor} {key : Option (ℤ ×ₗ String)}
    (hkey : pgCursorKey D after = .ok key) :
    ∃ p, pgListPage D (pgRun calls) filter limit after = .ok p ∧
      Shows (fun row => (toAuditEvent D row).toShown) (rowCursor D) p (page rowKey limit (pgRows calls filter) key) := by
  have hrest : descending rowKey (past rowKey key ((pgRun calls).filter (pgConditions filter))) = past rowKey key (pgRows calls filter) := by
    cases key with
    | none => rfl
    | some k => exact descending_filter (pgRows_nodup h filter) _
  obtain ⟨hmore, hrows⟩ := piece_fetched rowKey limit (past rowKey key (pgRows calls filter))
  unfold pgListPage
  rw [hkey]
  refine ⟨_, rfl, ?_, ?_⟩
  · dsimp only
    rw [hrest]
    simp only [decide_eq_true_eq]
    rw [hrows]
    unfold shownOf
    rw [List.map_map]
    rfl
  · dsimp only
    rw [hrest]
    simp only [decide_eq_true_eq]
    rw [hrows]
    show _ = (piece rowKey limit (past rowKey key (pgRows calls filter))).2.map _
    unfold piece
    by_cases hlt : limit < (past rowKey key (pgRows calls filter)).length
    · rw [if_pos (hmore.mpr hlt), if_pos hlt, List.getLast?_map, Option.map_map, Option.map_map]
      rfl
    · rw [if_neg (mt hmore.mp hlt), if_neg hlt]
      rfl

/-- The events of a page query, newest first. -/
def memoryEvents (D : Dates) (calls : List RecordCall) (filter : Filter) : List AuditEvent :=
  descending eventKey (applyFilter filter (memoryRun D calls).events)

theorem paginate_shows (filter : Filter) (limit : ℕ) {after : Option AuditCursor} {key : Option (String ×ₗ String)}
    (hkey : memoryCursorKey after = .ok key) :
    ∃ p, paginateAuditEvents (memoryRun D calls).events filter limit after = .ok p ∧
      Shows AuditEvent.toShown eventCursor p (page eventKey limit (memoryEvents D calls filter) key) := by
  unfold paginateAuditEvents
  rw [hkey]
  have hrows : (if limit < (past eventKey key (memoryEvents D calls filter)).length then
      (past eventKey key (memoryEvents D calls filter)).take limit else past eventKey key (memoryEvents D calls filter)) =
        (past eventKey key (memoryEvents D calls filter)).take limit := by
    by_cases hlt : limit < (past eventKey key (memoryEvents D calls filter)).length
    · rw [if_pos hlt]
    · rw [if_neg hlt, List.take_of_length_le (by omega)]
  refine ⟨_, rfl, ?_, ?_⟩
  · simp only [decide_eq_true_eq]
    exact congrArg shownOf hrows
  · simp only [decide_eq_true_eq]
    rw [show descending eventKey (applyFilter filter (memoryRun D calls).events) = memoryEvents D calls filter from rfl, hrows]
    show _ = (piece eventKey limit (past eventKey key (memoryEvents D calls filter))).2.map _
    unfold piece
    by_cases hlt : limit < (past eventKey key (memoryEvents D calls filter)).length
    · rw [if_pos hlt, if_pos hlt, Option.map_map]
      rfl
    · rw [if_neg hlt, if_neg hlt]
      rfl

/-- What the pages of the table show, newest first. -/
theorem pgRows_shown (h : Increasing calls) (filter : Filter) :
    (pgRows calls filter).Pairwise (fun a b => rowKey b < rowKey a) ∧
      (pgRows calls filter).map (fun row => (toAuditEvent D row).toShown) =
        ((calls.filter fun c => pgConditions filter (rowOf c)).map (pgShown D)).reverse := by
  refine ⟨descending_lt (pgRows_nodup h filter), ?_⟩
  have hascending : ((pgRun calls).filter (pgConditions filter)).Pairwise fun a b => rowKey a < rowKey b := by
    refine List.Pairwise.filter _ ?_
    rw [pgRun_eq]
    exact List.pairwise_map.mpr (List.Pairwise.imp (fun {c c'} hlt => @rowKey_lt (rowOf c) (rowOf c') hlt) h)
  unfold pgRows
  rw [descending_of_lt hascending, pgRun_eq, List.filter_map, List.map_reverse, List.map_map]
  rfl

theorem pgConditions_of_passes {filter : Filter} {c : RecordCall} (h : passes filter (memoryShown D c) = true) :
    pgConditions filter (rowOf c) = true := by
  unfold passes passesTypes at h
  rw [Bool.and_eq_true, Bool.and_eq_true] at h
  obtain ⟨⟨htype, htypes⟩, hactor⟩ := h
  unfold pgConditions
  rw [Bool.and_eq_true]
  constructor
  · cases hset : truthy filter.type with
    | some type =>
      rw [hset] at htype
      exact htype
    | none =>
      cases hsome : filter.types with
      | none => rfl
      | some types =>
        rw [hsome] at htypes
        cases types with
        | nil => rfl
        | cons type types => exact htypes
  · cases hset : truthy filter.actor with
    | none => rfl
    | some actor =>
      rw [hset, Option.all_some, decide_eq_true_eq] at hactor
      refine decide_eq_true ?_
      show c.actor = some actor
      cases hgiven : c.actor with
      | none =>
        rw [show (memoryShown D c).actor = none from congrArg (Option.map Json.str) hgiven] at hactor
        cases hactor
      | some a =>
        rw [show (memoryShown D c).actor = some (.str a) from congrArg (Option.map Json.str) hgiven] at hactor
        exact hactor

/-- What the conditions select passes the actor filter of memory too. -/
theorem passes_of_pgConditions {filter : Filter} {c : RecordCall} (h : pgConditions filter (rowOf c) = true) :
    passes filter (memoryShown D c) = passesTypes filter c.type := by
  unfold pgConditions at h
  rw [Bool.and_eq_true] at h
  have hactor : ((truthy filter.actor).all fun actor => (memoryShown D c).actor.bind Json.str? = some actor) = true := by
    cases hset : truthy filter.actor with
    | none => rfl
    | some actor =>
      have hgiven : c.actor = some actor := by
        have hcondition := h.2
        rw [hset] at hcondition
        exact of_decide_eq_true hcondition
      rw [Option.all_some, decide_eq_true_eq]
      show (c.actor.map Json.str).bind Json.str? = some actor
      rw [hgiven]
      rfl
  unfold passes
  rw [hactor, Bool.and_true]
  rfl

/-- What the pages of memory show, in some order, and the keys of its events. -/
theorem memoryEvents_shown (h : Increasing calls) (filter : Filter) :
    (applyFilter filter (memoryRun D calls).events).map AuditEvent.toShown =
        (calls.filter fun c => passes filter (memoryShown D c)).map (memoryShown D) ∧
      ((applyFilter filter (memoryRun D calls).events).map eventKey).Nodup ∧
      ∀ e ∈ memoryEvents D calls filter, memoryCursorKey (some (eventCursor (eventKey e))) = .ok (some (eventKey e)) := by
  obtain ⟨hshown, hids⟩ := memoryRun_spec D calls
  refine ⟨?_, ?_, fun e he => ?_⟩
  · rw [applyFilter_eq]
    exact shownOf_memory (passes filter)
  · have htexts : ((memoryRun D calls).events.map fun e => e.atText).Nodup := by
      have hmap := congrArg (List.map Shown.atText) hshown
      rw [List.map_map, List.map_map] at hmap
      rw [show (memoryRun D calls).events.map (fun e => e.atText) = _ from hmap]
      exact h.nodup
    have hkeys : ((memoryRun D calls).events.map eventKey).Nodup := by
      refine List.pairwise_map.mpr ((List.pairwise_map.mp htexts).imp fun {a b} hne heq => hne ?_)
      exact congrArg (fun k : String ×ₗ String => (ofLex k).1) heq
    rw [applyFilter_eq]
    exact hkeys.sublist (List.filter_sublist.map _)
  · have hmem : e ∈ (memoryRun D calls).events := by
      have hfiltered := (descending_perm _).subset he
      rw [applyFilter_eq] at hfiltered
      exact List.mem_of_mem_filter hfiltered
    have htext : e.atText ≠ "" := by
      have hin : e.toShown ∈ calls.map (memoryShown D) := hshown ▸ List.mem_map_of_mem hmem
      obtain ⟨c, -, hc⟩ := List.mem_map.mp hin
      rw [← hc]
      exact D.toISOString_ne c.time
    show (decodeAuditCursor (encodeAuditCursor e.atText e.id)).map _ = _
    rw [decode_encode htext (hids e hmem)]
    rfl

theorem pages_agree_iff_shown (h : Increasing calls) (filter : Filter) :
    Agree D calls (.pages filter) ↔
      ((calls.filter fun c => pgConditions filter (rowOf c)).map (pgShown D)).reverse =
        (memoryEvents D calls filter).map AuditEvent.toShown := by
  obtain ⟨hpgSorted, hpgShown⟩ := pgRows_shown (D := D) h filter
  obtain ⟨-, hkeys, hcursors⟩ := memoryEvents_shown (D := D) h filter
  have hpg : ∀ limit n, (pagesOf (pgListPage D (pgRun calls) filter limit) n).map (fun page => shownOf page.events) =
      (pages rowKey limit (pgRows calls filter) n).map fun p => p.1.map fun row => (toAuditEvent D row).toShown := by
    intro limit n
    refine pagesOf_eq (pgListPage_shows h filter limit rfl) (fun row _ => pgListPage_shows h filter limit ?_) n
    show (decodeAuditCursor (encodeAuditCursor (D.toISOString row.atTime) row.id.val)).map _ = _
    rw [decode_encode (D.toISOString_ne _) row.id.property]
    show Except.ok (some (toLex (D.parse (D.toISOString row.atTime), row.id.val))) = _
    rw [D.parse_toISOString]
    rfl
  have hmemory : ∀ limit n, (pagesOf (paginateAuditEvents (memoryRun D calls).events filter limit) n).map (fun page => shownOf page.events) =
      (pages eventKey limit (memoryEvents D calls filter) n).map fun p => p.1.map AuditEvent.toShown := fun limit n =>
    pagesOf_eq (paginate_shows filter limit rfl) (fun e he => paginate_shows filter limit (hcursors e he)) n
  have hsorted : (memoryEvents D calls filter).Pairwise fun a b => eventKey b < eventKey a := descending_lt hkeys
  show (∀ limit n, _ = _) ↔ _
  simp only [hpg, hmemory]
  rw [Keyset.pages_agree_iff hpgSorted hsorted, hpgShown]

/-- **Pages agree** exactly when what the table selects passes the type filters, was recorded consistently, and has texts that
increase with the times. -/
theorem pages_agree_iff (h : Increasing calls) (filter : Filter) : Agree D calls (.pages filter) ↔ Clean D calls (.pages filter) := by
  obtain ⟨hshown, hkeys, -⟩ := memoryEvents_shown (D := D) h filter
  rw [pages_agree_iff_shown h]
  have htexts : ∀ l : List RecordCall, (l.map (pgShown D)).map Shown.atText = l.map fun c => D.toISOString c.time := fun l => by
    rw [List.map_map]
    rfl
  constructor
  · intro heq
    have hperm : ((calls.filter fun c => pgConditions filter (rowOf c)).map (pgShown D)).Perm
        ((calls.filter fun c => passes filter (memoryShown D c)).map (memoryShown D)) := by
      refine (List.reverse_perm _).symm.trans ?_
      rw [heq, ← hshown]
      exact (descending_perm _).map _
    have hsame := @same_of_perm _ _ _ _ _ _ _ _ (fun c => D.toISOString c.time) Shown.atText h.nodup (fun _ => rfl) (fun _ => rfl) hperm
    refine ⟨fun c hc hp => ?_, ?_⟩
    · obtain ⟨-, hq, hcshown⟩ := hsame c hc (.inl hp)
      rw [passes_of_pgConditions hp] at hq
      exact ⟨hq, pgShown_eq_iff.mp hcshown⟩
    · -- Memory sorts by the texts, and shows what the table shows in the order of the times.
      have hsorted : ((memoryEvents D calls filter).map fun e => e.atText).Pairwise fun a b => b ≤ a :=
        List.pairwise_map.mpr (List.Pairwise.imp (fun {a b} hle => @atText_le b a hle) (descending_le _))
      have hmap := congrArg (List.map Shown.atText) heq
      rw [List.map_reverse, htexts, List.map_map] at hmap
      rw [show (memoryEvents D calls filter).map (fun e => e.atText) = _ from hmap.symm, List.pairwise_reverse] at hsorted
      have hnodup : ((calls.filter fun c => pgConditions filter (rowOf c)).map fun c => D.toISOString c.time).Nodup :=
        h.nodup.sublist (List.filter_sublist.map _)
      exact List.pairwise_map.mp (hsorted.imp₂ (fun a b hle hne => lt_of_le_of_ne hle hne) hnodup)
  · rintro ⟨hall, hincreasing⟩
    have hselected : (calls.filter fun c => pgConditions filter (rowOf c)).map (pgShown D) =
        (calls.filter fun c => passes filter (memoryShown D c)).map (memoryShown D) := by
      refine filter_map_eq fun c hc hsel => ?_
      have hp : pgConditions filter (rowOf c) = true := hsel.elim id pgConditions_of_passes
      obtain ⟨htypes, hconsistent⟩ := hall c hc hp
      exact ⟨hp, (passes_of_pgConditions hp).trans htypes, pgShown_eq_iff.mpr hconsistent⟩
    have hascending : (applyFilter filter (memoryRun D calls).events).Pairwise fun a b => eventKey a < eventKey b := by
      have hmap := congrArg (List.map Shown.atText) (hshown.trans hselected.symm)
      rw [List.map_map, htexts] at hmap
      have hlt : ((applyFilter filter (memoryRun D calls).events).map (Shown.atText ∘ AuditEvent.toShown)).Pairwise (· < ·) := by
        rw [hmap]
        exact List.pairwise_map.mpr hincreasing
      exact List.Pairwise.imp (fun {a b} h => @eventKey_lt a b h) (List.pairwise_map.mp hlt)
    unfold memoryEvents
    rw [descending_of_lt hascending, List.map_reverse, hshown, hselected]

/-- **The two audit logs answer a query alike** exactly when what it selects was recorded consistently. -/
theorem answers_agree_iff (h : Increasing calls) (query : Query) : Agree D calls query ↔ Clean D calls query := by
  cases query with
  | list filter => exact list_agree_iff h filter
  | pages filter => exact pages_agree_iff h filter
  | auditLogs contractId actor => exact auditLogs_agree_iff h contractId actor

end Agreement

/-! ## A record under an actor that its data do not name -/

section Example

/-- Dates that spell the epoch. -/
def epochDates : Dates where
  toISOString t := if t = 0 then "1970-01-01T00:00:00.000Z" else String.ofList (List.replicate (Encodable.encode t + 30) '0')
  parse s := if s = "1970-01-01T00:00:00.000Z" then 0 else (Encodable.decode (s.length - 30)).getD 0
  parse_toISOString t := by
    by_cases ht : t = 0
    · rw [if_pos ht, if_pos rfl, ht]
    · have hlength : (String.ofList (List.replicate (Encodable.encode t + 30) '0')).length = Encodable.encode t + 30 := by
        rw [String.length_ofList, List.length_replicate]
      have hne : String.ofList (List.replicate (Encodable.encode t + 30) '0') ≠ "1970-01-01T00:00:00.000Z" := fun heq => by
        have h24 := congrArg String.length heq
        rw [hlength] at h24
        have hiso : "1970-01-01T00:00:00.000Z".length = 24 := by decide
        omega
      rw [if_neg ht, if_neg hne, hlength, Nat.add_sub_cancel, Encodable.encodek]
      rfl
  toISOString_ne t := by
    by_cases ht : t = 0
    · rw [if_pos ht]
      decide
    · rw [if_neg ht]
      intro h
      have := congrArg String.length h
      simp at this

/-- `signer.added` by a passkey, as `POST /wallet/signer/manage` records it. -/
def signerAdded : RecordCall where
  type := "signer.added"
  data := fun field => if field = "actor" then some (.str "passkey") else none
  actor := some "CWALLET"
  time := 0
  uuid := ⟨"9b1deb4d-3b7d-4bad-9bdd-2b0d7b3dcb6d", by decide⟩

/-- A wallet that was created at the epoch. -/
def walletCreated : RecordCall where
  type := "wallet.created"
  data := fun field => if field = "contractId" then some (.str "CWALLET") else none
  actor := none
  time := 0
  uuid := ⟨"9b1deb4d-3b7d-4bad-9bdd-2b0d7b3dcb6d", by decide⟩

theorem wallet_created_agrees : Agree epochDates [walletCreated] (.list ⟨none, none, none⟩) :=
  (answers_agree_iff (List.pairwise_singleton _ _) _).mpr fun c hc _ => by
    rw [List.mem_singleton.mp hc]
    rfl

/-- **The logs disagree** on what the passkey did. -/
theorem signer_added_disagrees :
    ¬ ∀ D calls query, Increasing calls → Agree D calls query := by
  intro h
  have hagree := h epochDates [signerAdded] (.auditLogs "CWALLET" (some "passkey")) (List.pairwise_singleton _ _)
  have hlength := congrArg (fun answer : Except ℕ (List Shown) => match answer with
    | .ok shown => shown.length
    | .error _ => 0) hagree
  exact absurd hlength (by decide +kernel)

end Example

end Vellar.Wallet.Audit
