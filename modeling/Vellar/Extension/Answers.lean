import Vellar.Extension.Approvals

/-!
# Vellar.Extension.Answers — every page request is answered once

`answered_iff`: with `pending` and `tabId` undefined, as the file has them, the requests of a run are answered as promised
exactly when none of them is routed to approval; with the two read as they are meant, they are in every run with fresh ids, no
connect approved while a wallet is paired, and no window recorded after the last request is answered.
-/

set_option autoImplicit false

namespace Vellar.Extension

open Machine Processes

/-! ## What is promised -/

def Caller.heldEntry : Caller → Option Entry
  | .pair entry | .connect entry _ => some entry
  | .disconnect _ _ | .revocation => none

/-- The entry that a task is resolving. -/
def Task.heldEntry : Task → Option Entry
  | .calling _ caller _ | .writing _ caller _ _ _ => caller.heldEntry
  | .resolving _ entry _ => some entry
  | .begun _ _ | .opening _ _ | .done _ => none

def Task.IsOpening : Task → Prop
  | .opening _ _ => True
  | _ => False

/-- The event as a settlement of a promise. -/
def Event.settles (i : ℕ) : Event → Option Settlement
  | .settled s => if s.promise = i then some s else none
  | _ => none

/-- How a promise was settled. -/
def settlements (i : ℕ) (log : List Event) : List Settlement := log.filterMap (Event.settles i)

/-- The cause is the entry's own. -/
def Cause.For (e : Entry) : Cause → Prop
  | .answered => False
  | .resolved id => id = e.id
  | .superseded origin method => origin = e.origin ∧ method = e.request.method
  | .tabClosed tabId => e.tabId = some tabId

/-- The entries in flight. -/
def TabManager.flying (m : TabManager) : List Entry := m.inFlight.rows.map InFlight.entry

def Live (m : TabManager) (e : Entry) : Prop := e ∈ m.pending.rows ∨ e ∈ m.flying

/-- The promise of an entry is settled once, as the entry leaves the manager. -/
def SettledOnce (b : Background) (e : Entry) : Prop :=
  (Live b.manager e ∧ settlements e.promise b.log = []) ∨
    (¬ Live b.manager e ∧ ∃ s, settlements e.promise b.log = [s] ∧ s.cause.For e)

section Promise

variable (urls : Urls) (pairOrigins : PairOriginPolicy) (names : Names) (storage : Stored) (jobs : ℕ → Job)

/-- Every page request is answered exactly once. -/
structure AnsweredOnce (schedule : List (ℕ × Reply)) : Prop where
  queued : ∀ pre, pre <+: schedule → ∀ i, .routed i ∈ (workerAt urls pairOrigins names storage jobs pre).shared.log →
    ∃ e, .queued e ∈ (workerAt urls pairOrigins names storage jobs pre).shared.log ∧ e.promise = i
  once : ∀ pre, pre <+: schedule → ∀ e, .queued e ∈ (workerAt urls pairOrigins names storage jobs pre).shared.log →
    SettledOnce (workerAt urls pairOrigins names storage jobs pre).shared e
  /-- What is in flight is being resolved. -/
  resolved : ∀ pre, pre <+: schedule →
    ∀ e ∈ (workerAt urls pairOrigins names storage jobs pre).shared.manager.flying,
      ∃ j, ((workerAt urls pairOrigins names storage jobs pre).procs j).heldEntry = some e
  window : ∀ pre, pre <+: schedule →
    (workerAt urls pairOrigins names storage jobs pre).shared.manager.pending.rows = [] →
    (workerAt urls pairOrigins names storage jobs pre).shared.manager.flying = [] →
    (∀ i, ¬ ((workerAt urls pairOrigins names storage jobs pre).procs i).IsOpening) →
    (workerAt urls pairOrigins names storage jobs pre).shared.manager.approvalWindowId = none

/-- The step routes no request to approval. -/
def NotRouted (x : Reply) (t : Task) (b : Background) : Prop :=
  match t with
  | .begun _ (.providerRequest _ request sender) => ∀ origin, ¬ RoutedTo urls pairOrigins request sender origin x b
  | _ => True

/-- Ids are fresh, an approved connect finds no wallet, and a window is recorded while something waits or is in flight. -/
def Answerable (x : Reply) (t : Task) (b : Background) : Prop :=
  match t with
  | .begun _ (.providerRequest id request sender) =>
    ∀ origin, RoutedTo urls pairOrigins request sender origin x b → ∀ e ∈ queuedEntries b.log, e.id ≠ id
  | .resolving _ entry .loading =>
    entry.request.method = .connect → (loadState (b.readStorage x)).pairedWallet = none
  | .opening _ true =>
    ∀ id, x = .window (some id) → b.manager.pending.rows ≠ [] ∨ b.manager.flying ≠ []
  | _ => True

end Promise

/-! ## Settlements -/

section Settlements

variable {i : ℕ} {log log' : List Event} {e : Entry}

theorem settlements_append : settlements i (log ++ log') = settlements i log ++ settlements i log' := List.filterMap_append

theorem settlements_eq_nil (h : ∀ s, .settled s ∈ log → s.promise ≠ i) : settlements i log = [] := by
  unfold settlements
  rw [List.filterMap_eq_nil_iff]
  intro ev hev
  cases ev with
  | settled s => exact if_neg (h s hev)
  | routed | queued | threw | listed | approved | finished | signed | disconnected => rfl

theorem settlements_cons_self {s : Settlement} {rest : List Event} (hs : s.promise = i) (h : settlements i rest = []) :
    settlements i (.settled s :: rest) = [s] := by
  have hself : Event.settles i (.settled s) = some s := if_pos hs
  unfold settlements at h ⊢
  rw [List.filterMap_cons_some hself, h]

/-- Entries settled together: each once. -/
theorem settlements_entries {es : List Entry} {payload : ResponsePayload} {cause : Cause} (he : e ∈ es) (hnodup : es.Nodup)
    (hpromise : ∀ e' ∈ es, e'.promise = e.promise → e' = e) :
    settlements e.promise ((es.map fun e => (⟨e.promise, payload, cause⟩ : Settlement)).map .settled) =
      [⟨e.promise, payload, cause⟩] := by
  induction es with
  | nil => exact absurd he List.not_mem_nil
  | cons e' es ih =>
    obtain ⟨hnew, hnodup⟩ := List.nodup_cons.mp hnodup
    rcases List.mem_cons.mp he with rfl | hmem
    · refine settlements_cons_self rfl (settlements_eq_nil fun s hs heq => ?_)
      obtain ⟨s', hs', hsame⟩ := List.mem_map.mp hs
      obtain rfl := Event.settled.inj hsame
      obtain ⟨e', he', rfl⟩ := List.mem_map.mp hs'
      exact hnew (hpromise e' (List.mem_cons_of_mem _ he') heq ▸ he')
    · have hother : e'.promise ≠ e.promise := fun heq => hnew (hpromise e' List.mem_cons_self heq ▸ hmem)
      have hnone : Event.settles e.promise (.settled ⟨e'.promise, payload, cause⟩) = none := if_neg hother
      rw [← ih hmem hnodup fun e' he' => hpromise e' (List.mem_cons_of_mem _ he')]
      exact List.filterMap_cons_none hnone

end Settlements

/-! ## The file as it stands -/

section Unbound

variable {urls : Urls} {pairOrigins : PairOriginPolicy} {storage : Stored} {jobs : ℕ → Job} {schedule : List (ℕ × Reply)}
  {b b' : Background} {x : Reply} {t t' : Task}

/-- Nothing is ever queued. -/
structure Idle (b : Background) : Prop where
  manager : b.manager = TabManager.new
  queued : queuedEntries b.log = []

/-- No task resolves an entry or opens a window. -/
def Task.Simple (t : Task) : Prop := t.heldEntry = none ∧ ¬ t.IsOpening

theorem Task.Approves.entry_eq {i : ℕ} {e : Entry} (h : t.Approves i e) : t.heldEntry = some e := by
  cases h <;> rfl

theorem startResolving_idle (hb : Idle b) {id : String} : b.manager.startResolving id = none := by
  rw [hb.manager]
  rfl

theorem afterCall_idle {i : ℕ} {caller : Caller} (hb : Idle b) (hcaller : caller.heldEntry = none) :
    Idle (afterCall i caller b).2 ∧ (afterCall i caller b).1.Simple := by
  cases caller with
  | disconnect origin network =>
    refine ⟨⟨hb.manager, ?_⟩, rfl, id⟩
    show queuedEntries (b.log ++ _) = []
    rw [queuedEntries_append, hb.queued]
    rfl
  | revocation => exact ⟨hb, rfl, id⟩
  | pair | connect => cases hcaller

theorem idle_add (hb : Idle b) {events : List Event} (h : queuedEntries events = []) : Idle (b.add events) := by
  refine ⟨hb.manager, ?_⟩
  show queuedEntries (b.log ++ events) = []
  rw [queuedEntries_append, hb.queued, h]
  rfl

/-- **Step**: an idle worker stays idle. -/
theorem Move.idle (h : Move urls pairOrigins .unbound b x t t' b') (hb : Idle b) (ht : t.Simple) : Idle b' ∧ t'.Simple := by
  cases h with
  | stay => exact ⟨hb, ht⟩
  | answer _ i _ events _ hevents =>
    refine ⟨idle_add hb ?_, rfl, id⟩
    rcases hevents with rfl | rfl | ⟨payload, rfl⟩ <;> rfl
  | unqueued | list => exact ⟨idle_add hb rfl, rfl, id⟩
  | queue _ i id request sender origin tabId creating hnames => cases hnames
  | disconnect | revoke => exact ⟨hb, rfl, id⟩
  | tab _ i tabId =>
    refine ⟨⟨?_, ?_⟩, rfl, id⟩
    · show (b.manager.handleTabRemoved tabId).1 = _
      rw [hb.manager]
      rfl
    · show queuedEntries (b.log ++ (b.manager.handleTabRemoved tabId).2.map .settled) = []
      rw [queuedEntries_append, queuedEntries_settled, hb.queued]
      rfl
  | closed _ i windowId =>
    refine ⟨⟨?_, hb.queued⟩, rfl, id⟩
    rw [hb.manager]
    rfl
  | reject _ i id entry manager payload hstart | approve _ i id entry manager hstart =>
    rw [startResolving_idle hb] at hstart
    cases hstart
  | approvePair _ i id entry manager params hstart =>
    rw [startResolving_idle hb] at hstart
    cases hstart
  | refocus | opened | window => exact absurd trivial ht.2
  | next | exported | sign | signed | connect => cases ht.1
  | finish _ i entry _ payload happroves =>
    rw [Task.Simple, happroves.entry_eq] at ht
    cases ht.1
  | connectEnd _ i entry _ wallet events hconnect =>
    rcases hconnect with ⟨call, rfl⟩ | ⟨call, raw, seen, rfl⟩ <;> cases ht.1
  | read _ i caller call raw heffect => exact ⟨hb, ht.1, id⟩
  | keep _ i caller call heffect => exact afterCall_idle hb ht.1
  | write text i caller call raw seen =>
    exact afterCall_idle (b := { b with storage := raw, writes := b.writes + 1 }) ⟨hb.manager, hb.queued⟩ ht.1

theorem idle_upto (schedule : List (ℕ × Reply)) : Idle (workerAt urls pairOrigins .unbound storage jobs schedule).shared ∧
    ∀ i, ((workerAt urls pairOrigins .unbound storage jobs schedule).procs i).Simple := by
  unfold workerAt
  refine inv_run (P := fun c : Config Background Task => Idle c.shared ∧ ∀ i, (c.procs i).Simple) (G := fun _ _ => True)
    (fun c a hc _ => ?_) ⟨⟨rfl, rfl⟩, fun i => ⟨rfl, id⟩⟩ along_true
  obtain ⟨hb, ht⟩ := runTask_move.idle hc.1 (hc.2 a.1)
  refine ⟨hb, fun i => ?_⟩
  by_cases hi : i = a.1
  · rw [hi, procs_step_self]
    exact ht
  · rw [procs_step_other hi]
    exact hc.2 i

/-- A request that needs approval throws. -/
theorem routed_unbound {i : ℕ} {id : String} {request : ProviderRequest} {sender : Sender} {origin : String}
    (h : RoutedTo urls pairOrigins request sender origin x b) :
    (handleProviderRequest urls pairOrigins .unbound i id request sender x b).2 = b.add [.routed i, .threw i] := by
  obtain ⟨raw, hpage, hroute⟩ := h
  have hsender : senderOrigin urls sender ≠ none := fun hnone => by
    rw [pageOrigin, hnone] at hpage
    cases hpage
  obtain ⟨origin', hsender⟩ := Option.ne_none_iff_exists'.mp hsender
  unfold handleProviderRequest
  rw [hsender, hpage]
  dsimp only
  rw [hroute]
  rfl

/-- No request of the run is routed to approval. -/
def UnroutedRun (urls : Urls) (pairOrigins : PairOriginPolicy) (storage : Stored) (jobs : ℕ → Job)
    (schedule : List (ℕ × Reply)) : Prop :=
  Along (step (runTask urls pairOrigins .unbound)) (fun c a => NotRouted urls pairOrigins a.2 (c.procs a.1) c.shared)
    (startWorker storage jobs) schedule

theorem not_routed_upto (h : UnroutedRun urls pairOrigins storage jobs schedule) : ∀ pre, pre <+: schedule →
    ∀ i, .routed i ∉ (workerAt urls pairOrigins .unbound storage jobs pre).shared.log :=
  inv_prefix (P := fun c : Config Background Task => ∀ i, .routed i ∉ c.shared.log) (fun c a hc hG i hmem => by
    have hmove : Move urls pairOrigins .unbound c.shared a.2 (c.procs a.1) _ _ := runTask_move
    obtain ⟨added, hlog, hemits, -⟩ := hmove.log
    have hmem : .routed i ∈ c.shared.log ++ added := hlog ▸ hmem
    rcases List.mem_append.mp hmem with hmem | hmem
    · exact hc i hmem
    · obtain ⟨id, request, sender, origin, htask, hroute⟩ := hemits _ hmem
      rw [htask] at hG
      exact hG origin hroute) (fun i => List.not_mem_nil) h

/-- **With the names undefined, exactly the runs that route nothing to approval are answered.** -/
theorem answered_unbound_iff : AnsweredOnce urls pairOrigins .unbound storage jobs schedule ↔
    UnroutedRun urls pairOrigins storage jobs schedule := by
  constructor
  · intro h
    refine along_iff.mpr fun pre a post hsplit => ?_
    unfold NotRouted
    split
    · rename_i i id request sender htask
      intro origin hroute
      change RoutedTo urls pairOrigins request sender origin a.2
        (workerAt urls pairOrigins .unbound storage jobs pre).shared at hroute
      have hpre : pre ++ [a] <+: schedule := ⟨post, by rw [hsplit, List.append_assoc]; rfl⟩
      have hlog : .routed i ∈ (workerAt urls pairOrigins .unbound storage jobs (pre ++ [a])).shared.log := by
        have hsnoc : workerAt urls pairOrigins .unbound storage jobs (pre ++ [a]) =
            step (runTask urls pairOrigins .unbound) (workerAt urls pairOrigins .unbound storage jobs pre) a := run_snoc ..
        rw [hsnoc]
        show _ ∈ (runTask urls pairOrigins .unbound a.2 ((workerAt urls pairOrigins .unbound storage jobs pre).procs a.1)
          (workerAt urls pairOrigins .unbound storage jobs pre).shared).2.log
        rw [show (workerAt urls pairOrigins .unbound storage jobs pre).procs a.1 = _ from htask]
        show _ ∈ (handleProviderRequest urls pairOrigins .unbound i id request sender a.2 _).2.log
        rw [routed_unbound hroute]
        exact List.mem_append_right _ List.mem_cons_self
      obtain ⟨e, hqueued, -⟩ := h.queued _ hpre i hlog
      have hnone := mem_queuedEntries.mpr hqueued
      rw [(idle_upto (pre ++ [a])).1.queued] at hnone
      exact absurd hnone List.not_mem_nil
    · trivial
  · intro h
    refine ⟨fun pre hpre i hmem => absurd hmem (not_routed_upto h pre hpre i), fun pre hpre e he => ?_,
      fun pre hpre item hitem => ?_, fun pre hpre _ _ _ => ?_⟩
    · have hnone := mem_queuedEntries.mpr he
      rw [(idle_upto pre).1.queued] at hnone
      exact absurd hnone List.not_mem_nil
    · rw [(idle_upto pre).1.manager] at hitem
      exact absurd hitem List.not_mem_nil
    · rw [(idle_upto pre).1.manager]
      rfl

end Unbound

/-! ## What a step does to the requests -/

section Manager

variable {m m' m'' : TabManager} {e e' : Entry} {gone : List Entry} {fresh started : Option Entry}

/-- No entry is both waiting and in flight, and ids tell entries apart. -/
structure Parted (m : TabManager) : Prop where
  apart : ∀ e ∈ m.pending.rows, e ∉ m.flying
  unique : ∀ e e', Live m e → Live m e' → e.id = e'.id → e = e'

/-- A window is recorded only while something waits or is in flight. -/
def Windowed (m : TabManager) : Prop := m.pending.rows = [] → m.flying = [] → m.approvalWindowId = none

/-- The entries `gone` leave, `fresh` is queued, and `started` goes from the queue into flight. -/
structure Shift (m m' : TabManager) (gone : List Entry) (fresh started : Option Entry) : Prop where
  pending : ∀ e, e ∈ m'.pending.rows ↔ (e ∈ m.pending.rows ∧ e ∉ gone ∧ started ≠ some e) ∨ fresh = some e
  flying : ∀ e, e ∈ m'.flying ↔ (e ∈ m.flying ∧ e ∉ gone) ∨ started = some e
  gone : ∀ e ∈ gone, Live m e
  started : ∀ e, started = some e → e ∈ m.pending.rows
  window : Windowed m → Windowed m'

theorem mem_flying : e ∈ m.flying ↔ ∃ item ∈ m.inFlight.rows, item.entry = e := List.mem_map

theorem Shift.refl : Shift m m [] none none where
  pending e := by simp
  flying e := by simp
  gone e he := absurd he List.not_mem_nil
  started e he := by cases he
  window h := h

theorem Shift.live (h : Shift m m' gone fresh started) (hstarted : ∀ e ∈ gone, started ≠ some e) :
    Live m' e ↔ (Live m e ∧ e ∉ gone) ∨ fresh = some e := by
  unfold Live
  rw [h.pending, h.flying]
  constructor
  · rintro ((⟨hmem, hnew, -⟩ | hfresh) | (⟨hmem, hnew⟩ | hstart))
    · exact .inl ⟨.inl hmem, hnew⟩
    · exact .inr hfresh
    · exact .inl ⟨.inr hmem, hnew⟩
    · exact .inl ⟨.inl (h.started e hstart), fun hgone => hstarted e hgone hstart⟩
  · rintro (⟨hmem | hmem, hnew⟩ | hfresh)
    · by_cases hstart : started = some e
      · exact .inr (.inr hstart)
      · exact .inl (.inl ⟨hmem, hnew, hstart⟩)
    · exact .inr (.inl ⟨hmem, hnew⟩)
    · exact .inl (.inr hfresh)

theorem closeApprovalWindowIfEmpty_spec : m.closeApprovalWindowIfEmpty.pending = m.pending ∧
    m.closeApprovalWindowIfEmpty.inFlight = m.inFlight ∧ Windowed m.closeApprovalWindowIfEmpty := by
  unfold TabManager.closeApprovalWindowIfEmpty
  split
  · exact ⟨rfl, rfl, fun _ _ => rfl⟩
  · rename_i hpending
    exact ⟨rfl, rfl, fun hempty => absurd hempty hpending⟩

theorem mem_removeWhere_filter {p : Entry → Bool} :
    e ∈ (m.pending.removeWhere p).rows ↔ e ∈ m.pending.rows ∧ e ∉ m.pending.rows.filter p := by
  rw [Table.mem_removeWhere, List.mem_filter]
  constructor
  · exact fun ⟨he, hp⟩ => ⟨he, fun hgone => absurd (hp.symm.trans hgone.2) Bool.false_ne_true⟩
  · exact fun ⟨he, hnot⟩ => ⟨he, Bool.eq_false_iff.mpr fun hp => hnot ⟨he, hp⟩⟩

/-- An approval starts. -/
theorem startResolving_shift (hm : Parted m) (h : m.startResolving e.id = some (e, m')) : Shift m m' [] none (some e) := by
  obtain ⟨hmem, -, rfl⟩ := startResolving_some h
  have hnew : m.inFlight.find (InFlight.id ⟨e, false⟩) = none := by
    rw [Table.find_eq_none]
    intro item hitem hid
    have hflying : item.entry ∈ m.flying := List.mem_map_of_mem hitem
    exact hm.apart e hmem (hm.unique item.entry e (.inr hflying) (.inl hmem) hid ▸ hflying)
  have hput := Table.rows_put_new hnew
  have hflying : ∀ e', e' ∈ ((m.inFlight.put ⟨e, false⟩).rows.map InFlight.entry) ↔ e' ∈ m.flying ∨ e' = e := by
    intro e'
    rw [hput, List.map_append, List.mem_append, List.map_singleton, List.mem_singleton]
    rfl
  refine ⟨fun e' => ?_, fun e' => ?_, fun e' he' => absurd he' List.not_mem_nil, fun e' he' => ?_, fun _ _ hempty => ?_⟩
  · show e' ∈ (m.pending.removeWhere _).rows ↔ _
    rw [Table.mem_removeWhere, decide_eq_false_iff_not]
    constructor
    · rintro ⟨he', hid⟩
      exact .inl ⟨he', List.not_mem_nil, fun hsame => hid (congrArg Entry.id (Option.some.inj hsame)).symm⟩
    · rintro (⟨he', -, hne⟩ | hfresh)
      · exact ⟨he', fun hid => hne (congrArg some (hm.unique e e' (.inl hmem) (.inl he') hid.symm))⟩
      · cases hfresh
  · rw [TabManager.flying, hflying]
    simp [eq_comm]
  · exact Option.some.inj he' ▸ hmem
  · have hself := (hflying e).mpr (.inr rfl)
    rw [show List.map InFlight.entry (m.inFlight.put ⟨e, false⟩).rows = [] from hempty] at hself
    exact absurd hself List.not_mem_nil

/-- What is in flight is resolved. -/
theorem finishResolving_shift (hm : Parted m) (he : e ∈ m.flying) (payload : Option ResponsePayload) :
    Shift m (m.finishResolving e.id payload).1 [e] none none ∧
      (m.finishResolving e.id payload).2 = payload.toList.map fun payload => ⟨e.promise, payload, .resolved e.id⟩ := by
  obtain ⟨item, hitem, rfl⟩ := mem_flying.mp he
  have hfind : m.inFlight.find item.entry.id = some item := Table.find_of_mem hitem
  unfold TabManager.finishResolving
  rw [hfind]
  dsimp only
  obtain ⟨hpending, hinFlight, hwindow⟩ := closeApprovalWindowIfEmpty_spec
    (m := { m with inFlight := m.inFlight.removeWhere fun i => i.id = item.entry.id })
  refine ⟨⟨fun e' => ?_, fun e' => ?_, fun e' he' => ?_, fun e' he' => (by cases he'), fun _ => hwindow⟩, rfl⟩
  · rw [hpending]
    constructor
    · refine fun he' => .inl ⟨he', fun hsame => ?_, fun hstart => by cases hstart⟩
      rw [List.mem_singleton.mp hsame] at he'
      exact hm.apart _ he' he
    · rintro (⟨he', -⟩ | hfresh)
      · exact he'
      · cases hfresh
  · rw [mem_flying, hinFlight]
    constructor
    · rintro ⟨item', hitem', rfl⟩
      obtain ⟨hmem, hid⟩ := Table.mem_removeWhere.mp hitem'
      refine .inl ⟨mem_flying.mpr ⟨item', hmem, rfl⟩, fun hsame => ?_⟩
      rw [decide_eq_false_iff_not] at hid
      exact hid (congrArg Entry.id (List.mem_singleton.mp hsame))
    · rintro (⟨he', hne⟩ | hstart)
      · obtain ⟨item', hitem', rfl⟩ := mem_flying.mp he'
        refine ⟨item', Table.mem_removeWhere.mpr ⟨hitem', decide_eq_false fun hid => hne (List.mem_singleton.mpr ?_)⟩, rfl⟩
        exact hm.unique _ _ (.inr he') (.inr he) hid
      · cases hstart
  · exact .inr (List.mem_singleton.mp he' ▸ he)

/-- A tab is closed. -/
theorem handleTabRemoved_shift (hm : Parted m) (tabId : ℕ) : Shift m (m.handleTabRemoved tabId).1
    (m.pending.rows.filter fun e => e.tabId = some tabId) none none := by
  unfold TabManager.handleTabRemoved
  obtain ⟨hpending, hinFlight, hwindow⟩ := closeApprovalWindowIfEmpty_spec
    (m := { m with
      pending := m.pending.removeWhere fun e => decide (e.tabId = some tabId)
      inFlight := m.inFlight.updateWhere (fun i => decide (i.entry.tabId = some tabId))
        (fun i => { i with tabClosed := true }) fun _ => rfl })
  have hentries : (m.inFlight.updateWhere (fun i => decide (i.entry.tabId = some tabId))
      (fun i => { i with tabClosed := true }) fun _ => rfl).rows.map InFlight.entry = m.flying := by
    show (m.inFlight.rows.map _).map InFlight.entry = _
    rw [List.map_map]
    refine List.map_congr_left fun item _ => ?_
    simp only [Function.comp]
    split <;> rfl
  refine ⟨fun e' => ?_, fun e' => ?_, fun e' he' => .inl (List.mem_filter.mp he').1, fun e' he' => (by cases he'),
    fun _ => hwindow⟩
  · rw [hpending, mem_removeWhere_filter]
    constructor
    · exact fun ⟨he', hstays⟩ => .inl ⟨he', hstays, fun hstart => by cases hstart⟩
    · rintro (⟨he', hstays, -⟩ | hfresh)
      · exact ⟨he', hstays⟩
      · cases hfresh
  · show e' ∈ List.map InFlight.entry _ ↔ _
    rw [hinFlight, hentries]
    constructor
    · exact fun he' => .inl ⟨he', fun hgone => hm.apart e' (List.mem_filter.mp hgone).1 he'⟩
    · rintro (⟨he', -⟩ | hstart)
      · exact he'
      · cases hstart

/-- A request is queued in place of those it supersedes. -/
theorem supersede_shift {origin : String} {request : ProviderRequest} (hm : Parted m)
    (hnew : ∀ e' ∈ m.pending.rows, e'.id ≠ e.id) :
    Shift m ((m.supersede origin request).1.addPending e)
      (m.pending.rows.filter fun e => e.origin = origin ∧ e.request.method = request.method) (some e) none := by
  unfold TabManager.supersede TabManager.addPending
  have hfree : (m.pending.removeWhere fun e => decide (e.origin = origin ∧ e.request.method = request.method)).find e.id = none := by
    rw [Table.find_eq_none]
    exact fun e' he' => hnew e' (Table.mem_removeWhere.mp he').1
  refine ⟨fun e' => ?_, fun e' => ?_, fun e' he' => .inl (List.mem_filter.mp he').1, fun e' he' => (by cases he'),
    fun _ hempty => ?_⟩
  · show e' ∈ ((m.pending.removeWhere _).put e).rows ↔ _
    rw [Table.rows_put_new hfree, List.mem_append, List.mem_singleton, mem_removeWhere_filter]
    constructor
    · rintro (⟨he', hstays⟩ | rfl)
      · exact .inl ⟨he', hstays, fun hstart => by cases hstart⟩
      · exact .inr rfl
    · rintro (⟨he', hstays, -⟩ | hfresh)
      · exact .inl ⟨he', hstays⟩
      · exact .inr (Option.some.inj hfresh).symm
  · constructor
    · exact fun he' => .inl ⟨he', fun hgone => hm.apart e' (List.mem_filter.mp hgone).1 he'⟩
    · rintro (⟨he', -⟩ | hstart)
      · exact he'
      · cases hstart
  · change ((m.pending.removeWhere _).put e).rows = [] at hempty
    rw [Table.rows_put_new hfree] at hempty
    exact absurd hempty (List.append_ne_nil_of_right_ne_nil _ (List.cons_ne_nil _ _))

/-- What starts and ends at once. -/
theorem Shift.both (h : Shift m m' [] none (some e)) (h' : Shift m' m'' [e] none none) : Shift m m'' [e] none none := by
  have hmem := h.started e rfl
  refine ⟨fun e' => ?_, fun e' => ?_, fun e' he' => .inl (List.mem_singleton.mp he' ▸ hmem), fun e' he' => (by cases he'),
    fun hw => h'.window (h.window hw)⟩
  · rw [h'.pending, h.pending, List.mem_singleton]
    grind
  · rw [h'.flying, h.flying, List.mem_singleton]
    grind

/-- The managers stay parted. -/
theorem Shift.parted (h : Shift m m' gone fresh started) (hm : Parted m) (hstarted : ∀ e ∈ gone, started ≠ some e)
    (hfresh : ∀ e, fresh = some e → ∀ e', Live m e' → e'.id ≠ e.id) : Parted m' := by
  refine ⟨fun e he hflying => ?_, fun e e' he he' hid => ?_⟩
  · rcases (h.pending e).mp he with ⟨hpending, -, hnot⟩ | hnew
    · rcases (h.flying e).mp hflying with ⟨hflying, -⟩ | hstart
      · exact hm.apart e hpending hflying
      · exact hnot hstart
    · rcases (h.flying e).mp hflying with ⟨hflying, -⟩ | hstart
      · exact hfresh e hnew e (.inr hflying) rfl
      · exact hfresh e hnew e (.inl (h.started e hstart)) rfl
  · rcases (h.live hstarted).mp he with ⟨hlive, -⟩ | hnew
    · rcases (h.live hstarted).mp he' with ⟨hlive', -⟩ | hnew'
      · exact hm.unique e e' hlive hlive' hid
      · exact absurd hid (hfresh e' hnew' e hlive)
    · rcases (h.live hstarted).mp he' with ⟨hlive', -⟩ | hnew'
      · exact absurd hid.symm (hfresh e hnew e' hlive')
      · exact Option.some.inj (hnew.symm.trans hnew')

end Manager

/-! ## The names as they are meant -/

section Invariant

/-- The task has yet to answer its own request. -/
def Task.Asks : Task → Prop
  | .begun _ _ | .calling _ (.disconnect _ _) _ | .calling _ .revocation _ | .writing _ (.disconnect _ _) _ _ _
  | .writing _ .revocation _ _ _ => True
  | _ => False

def Task.IsBegun : Task → Prop
  | .begun _ _ => True
  | _ => False

/-- The task grants a connect. -/
def Task.Connects : Task → Prop
  | .calling _ (.connect _ _) _ | .writing _ (.connect _ _) _ _ _ => True
  | _ => False

/-- What holds of the manager and the log. -/
structure Settling (b : Background) : Prop where
  ids : ((queuedEntries b.log).map Entry.id).Nodup
  promises : ((queuedEntries b.log).map Entry.promise).Nodup
  live : ∀ e, Live b.manager e → e ∈ queuedEntries b.log
  apart : ∀ e ∈ b.manager.pending.rows, e ∉ b.manager.flying
  once : ∀ e ∈ queuedEntries b.log, SettledOnce b e
  routed : ∀ i, .routed i ∈ b.log → ∃ e ∈ queuedEntries b.log, e.promise = i
  window : Windowed b.manager

/-- What holds of a task. -/
structure Handles (b : Background) (t : Task) : Prop where
  flying : ∀ e, t.heldEntry = some e → e ∈ b.manager.flying
  unqueued : t.Asks → ∀ e ∈ queuedEntries b.log, e.promise ≠ t.id
  unsettled : t.IsBegun → settlements t.id b.log = []
  grants : ¬ t.Connects

/-- Two tasks resolve two entries. -/
def Task.Distinct (t u : Task) : Prop := t.id ≠ u.id ∧ ∀ e, t.heldEntry = some e → u.heldEntry ≠ some e

/-- What a step of `t` to `t'` does to the requests and records of them. -/
structure Change (b : Background) (t t' : Task) (b' : Background) (gone : List Entry) (fresh started : Option Entry)
    (added : List Event) : Prop where
  shift : Shift b.manager b'.manager gone fresh started
  starts : ∀ e ∈ gone, started ≠ some e
  log : b'.log = b.log ++ added
  queued : queuedEntries added = fresh.toList
  routed : ∀ i, .routed i ∈ added → ∃ e, fresh = some e ∧ e.promise = i
  /-- What leaves is settled as it leaves. -/
  settles : ∀ e ∈ gone, ∃ s, settlements e.promise added = [s] ∧ s.cause.For e
  /-- Only what leaves is settled, or the request of the task itself. -/
  others : ∀ s, .settled s ∈ added → (t.Asks ∧ fresh = none ∧ s.promise = t.id) ∨ ∃ e ∈ gone, e.promise = s.promise
  fresh : ∀ e, fresh = some e → t.IsBegun ∧ ¬ t'.Asks ∧ e.promise = t.id ∧ ∀ e' ∈ queuedEntries b.log, e'.id ≠ e.id
  task : ∀ e, t'.heldEntry = some e ↔ (t.heldEntry = some e ∧ e ∉ gone) ∨ started = some e
  own : ∀ e ∈ gone, e ∈ b.manager.flying → t.heldEntry = some e
  asks : t'.Asks → t.Asks
  begun : ¬ t'.IsBegun
  grants : ¬ t'.Connects

variable {b b' : Background} {t t' u : Task} {gone : List Entry} {fresh started : Option Entry} {added : List Event}
  {e e' : Entry}

theorem Task.IsBegun.asks (h : t.IsBegun) : t.Asks := by
  cases t with
  | begun => trivial
  | opening | calling | writing | resolving | done => exact h.elim

theorem Settling.unique (hb : Settling b) (he : e ∈ queuedEntries b.log) (he' : e' ∈ queuedEntries b.log)
    (h : e.promise = e'.promise) : e = e' :=
  List.inj_on_of_nodup_map hb.promises he he' h

theorem Settling.parted (hb : Settling b) : Parted b.manager where
  apart := hb.apart
  unique e e' he he' hid := List.inj_on_of_nodup_map hb.ids (hb.live e he) (hb.live e' he') hid

theorem Change.mem_queued (h : Change b t t' b' gone fresh started added) :
    e ∈ queuedEntries b'.log ↔ e ∈ queuedEntries b.log ∨ fresh = some e := by
  rw [h.log, queuedEntries_append, h.queued, List.mem_append, Option.mem_toList]

theorem Change.live (h : Change b t t' b' gone fresh started added) :
    Live b'.manager e ↔ (Live b.manager e ∧ e ∉ gone) ∨ fresh = some e := h.shift.live h.starts

/-- The promise of an entry that does not leave is not settled. -/
theorem Change.unsettled (h : Change b t t' b' gone fresh started added) (hb : Settling b) (ht : Handles b t)
    (he : e ∈ queuedEntries b.log) (hstays : e ∉ gone) : settlements e.promise added = [] := by
  refine settlements_eq_nil fun s hs hsame => ?_
  rcases h.others s hs with ⟨hasks, -, hown⟩ | ⟨e', hgone, hpromise⟩
  · exact ht.unqueued hasks e he (hsame.symm.trans hown)
  · have hqueued := hb.live e' (h.shift.gone e' hgone)
    exact hstays (hb.unique hqueued he (hpromise.trans hsame) ▸ hgone)

/-- **Step**: a request that was queued before. -/
theorem Change.once (h : Change b t t' b' gone fresh started added) (hb : Settling b) (ht : Handles b t)
    (he : e ∈ queuedEntries b.log) : SettledOnce b' e := by
  have hold : fresh ≠ some e := fun hfresh => (h.fresh e hfresh).2.2.2 e he rfl
  unfold SettledOnce
  rw [h.live, h.log, settlements_append]
  by_cases hgone : e ∈ gone
  · obtain ⟨s, hs, hfor⟩ := h.settles e hgone
    rcases hb.once e he with ⟨-, hnone⟩ | ⟨hdead, -⟩
    · refine .inr ⟨?_, s, by rw [hnone, hs, List.nil_append], hfor⟩
      rintro (⟨-, hstays⟩ | hfresh)
      · exact hstays hgone
      · exact hold hfresh
    · exact absurd (h.shift.gone e hgone) hdead
  · rw [h.unsettled hb ht he hgone, List.append_nil]
    rcases hb.once e he with ⟨hlive, hnone⟩ | ⟨hdead, hsettled⟩
    · exact .inl ⟨.inl ⟨hlive, hgone⟩, hnone⟩
    · refine .inr ⟨?_, hsettled⟩
      rintro (⟨hlive, -⟩ | hfresh)
      · exact hdead hlive
      · exact hold hfresh

/-- **Step**: a request that is queued. -/
theorem Change.once_fresh (h : Change b t t' b' gone fresh started added) (hb : Settling b) (ht : Handles b t)
    (he : fresh = some e) : SettledOnce b' e := by
  obtain ⟨hbegun, -, hpromise, -⟩ := h.fresh e he
  refine .inl ⟨h.live.mpr (.inr he), ?_⟩
  rw [h.log, settlements_append, hpromise, ht.unsettled hbegun, List.nil_append]
  refine settlements_eq_nil fun s hs hsame => ?_
  rcases h.others s hs with ⟨-, hnone, -⟩ | ⟨e', hgone, hpromise'⟩
  · rw [he] at hnone
    cases hnone
  · exact ht.unqueued hbegun.asks e' (hb.live e' (h.shift.gone e' hgone)) (hpromise'.trans hsame)

/-- **Step**: the manager and the log. -/
theorem Change.settling (h : Change b t t' b' gone fresh started added) (hb : Settling b) (ht : Handles b t) :
    Settling b' := by
  have hnew : ∀ e, fresh = some e → ∀ e' ∈ queuedEntries b.log, e'.id ≠ e.id ∧ e'.promise ≠ e.promise :=
    fun e he e' he' => by
      obtain ⟨hbegun, -, hpromise, hid⟩ := h.fresh e he
      exact ⟨hid e' he', hpromise ▸ ht.unqueued hbegun.asks e' he'⟩
  have hnodup : ∀ {α : Type} (f : Entry → α), ((queuedEntries b.log).map f).Nodup →
      (∀ e, fresh = some e → ∀ e' ∈ queuedEntries b.log, f e' ≠ f e) → ((queuedEntries b'.log).map f).Nodup := by
    intro α f hold hf
    rw [h.log, queuedEntries_append, h.queued]
    cases hfresh : fresh with
    | none =>
      rw [Option.toList_none, List.append_nil]
      exact hold
    | some e =>
      rw [Option.toList_some, List.map_append, List.map_singleton, ← List.concat_eq_append]
      refine List.Nodup.concat (fun hmem => ?_) hold
      obtain ⟨e', he', hsame⟩ := List.mem_map.mp hmem
      exact hf e hfresh e' he' hsame
  refine ⟨hnodup _ hb.ids fun e he e' he' => (hnew e he e' he').1, hnodup _ hb.promises fun e he e' he' => (hnew e he e' he').2,
    fun e he => ?_, ?_, fun e he => ?_, fun i hi => ?_, h.shift.window hb.window⟩
  · rcases h.live.mp he with ⟨hlive, -⟩ | hfresh
    · exact h.mem_queued.mpr (.inl (hb.live e hlive))
    · exact h.mem_queued.mpr (.inr hfresh)
  · exact (h.shift.parted hb.parted h.starts fun e he e' he' => (hnew e he e' (hb.live e' he')).1).apart
  · rcases h.mem_queued.mp he with hold | hfresh
    · exact h.once hb ht hold
    · exact h.once_fresh hb ht hfresh
  · rw [h.log] at hi
    rcases List.mem_append.mp hi with hold | hadded
    · obtain ⟨e, he, hpromise⟩ := hb.routed i hold
      exact ⟨e, h.mem_queued.mpr (.inl he), hpromise⟩
    · obtain ⟨e, hfresh, hpromise⟩ := h.routed i hadded
      exact ⟨e, h.mem_queued.mpr (.inr hfresh), hpromise⟩

/-- **Step**: the task itself. -/
theorem Change.own_handles (h : Change b t t' b' gone fresh started added) (ht : Handles b t) (hid : t'.id = t.id) :
    Handles b' t' := by
  refine ⟨fun e he => ?_, fun hasks e he => ?_, fun hbegun => absurd hbegun h.begun, h.grants⟩
  · rw [h.shift.flying]
    rcases (h.task e).mp he with ⟨hentry, hstays⟩ | hstart
    · exact .inl ⟨ht.flying e hentry, hstays⟩
    · exact .inr hstart
  · rw [hid]
    rcases h.mem_queued.mp he with hold | hfresh
    · exact ht.unqueued (h.asks hasks) e hold
    · exact absurd hasks (h.fresh e hfresh).2.1

/-- **Step**: the other tasks. -/
theorem Change.other_handles (h : Change b t t' b' gone fresh started added) (hb : Settling b) (hu : Handles b u)
    (hdistinct : t.Distinct u) : Handles b' u := by
  have hqueued : u.Asks → ∀ e ∈ queuedEntries b'.log, e.promise ≠ u.id := fun hasks e he => by
    rcases h.mem_queued.mp he with hold | hfresh
    · exact hu.unqueued hasks e hold
    · rw [(h.fresh e hfresh).2.2.1]
      exact hdistinct.1
  refine ⟨fun e he => ?_, hqueued, fun hbegun => ?_, hu.grants⟩
  · rw [h.shift.flying]
    have hflying := hu.flying e he
    exact .inl ⟨hflying, fun hgone => hdistinct.2 e (h.own e hgone hflying) he⟩
  · rw [h.log, settlements_append, hu.unsettled hbegun, List.nil_append]
    refine settlements_eq_nil fun s hs hsame => ?_
    rcases h.others s hs with ⟨-, -, hown⟩ | ⟨e, hgone, hpromise⟩
    · exact hdistinct.1 (hown.symm.trans hsame)
    · exact hu.unqueued hbegun.asks e (hb.live e (h.shift.gone e hgone)) (hpromise.trans hsame)

/-- **Step**: two tasks. -/
theorem Change.distinct (h : Change b t t' b' gone fresh started added) (hb : Settling b) (hu : Handles b u)
    (hdistinct : t.Distinct u) (hid : t'.id = t.id) : t'.Distinct u := by
  refine ⟨hid ▸ hdistinct.1, fun e he hentry => ?_⟩
  rcases (h.task e).mp he with ⟨hold, -⟩ | hstart
  · exact hdistinct.2 e hold hentry
  · exact hb.apart e (h.shift.started e hstart) (hu.flying e hentry)

end Invariant

/-! ## Every move is such a step -/

section Moves

variable {urls : Urls} {pairOrigins : PairOriginPolicy} {b b' : Background} {x : Reply} {t t' u : Task} {added : List Event}
  {e : Entry} {i : ℕ}

theorem Shift.same {m m' : TabManager} (hpending : m'.pending = m.pending) (hinFlight : m'.inFlight = m.inFlight)
    (hwindow : Windowed m → Windowed m') : Shift m m' [] none none where
  pending e := by simp [hpending]
  flying e := by simp [TabManager.flying, hinFlight]
  gone e he := absurd he List.not_mem_nil
  started e he := by cases he
  window := hwindow

/-- The event is of no entry; a promise that it settles is one of `own`. -/
def Event.Apart (own : ℕ → Prop) : Event → Prop
  | .queued _ | .routed _ => False
  | .settled s => own s.promise
  | _ => True

theorem apart_settled {own : ℕ → Prop} {ss : List Settlement} (h : ∀ s ∈ ss, own s.promise) :
    ∀ ev ∈ ss.map Event.settled, ev.Apart own := by
  intro ev hev
  obtain ⟨s, hs, rfl⟩ := List.mem_map.mp hev
  exact h s hs

theorem queuedEntries_apart {own : ℕ → Prop} (h : ∀ ev ∈ added, ev.Apart own) : queuedEntries added = [] := by
  rw [List.eq_nil_iff_forall_not_mem]
  exact fun e he => h _ (mem_queuedEntries.mp he)

/-- A step that leaves the requests alone. -/
theorem Change.quiet (hshift : Shift b.manager b'.manager [] none none) (hlog : b'.log = b.log ++ added)
    (hadded : ∀ ev ∈ added, ev.Apart fun i => t.Asks ∧ i = t.id) (htask : t'.heldEntry = t.heldEntry) (hasks : t'.Asks → t.Asks)
    (hbegun : ¬ t'.IsBegun) (hgrants : ¬ t'.Connects) : Change b t t' b' [] none none added where
  shift := hshift
  starts e he := absurd he List.not_mem_nil
  log := hlog
  queued := queuedEntries_apart hadded
  routed i hi := (hadded _ hi).elim
  settles e he := absurd he List.not_mem_nil
  others s hs := .inl ⟨(hadded _ hs).1, rfl, (hadded _ hs).2⟩
  fresh e he := by cases he
  task e := by simp [htask]
  own e he := absurd he List.not_mem_nil
  asks := hasks
  begun := hbegun
  grants := hgrants

/-- A step in which entries leave, each settled once. -/
theorem Change.leaves {gone : List Entry} (hshift : Shift b.manager b'.manager gone none none) (hlog : b'.log = b.log ++ added)
    (hadded : ∀ ev ∈ added, ev.Apart fun i => ∃ e ∈ gone, e.promise = i)
    (hsettles : ∀ e ∈ gone, ∃ s, settlements e.promise added = [s] ∧ s.cause.For e)
    (htask : ∀ e, t.heldEntry = some e → e ∈ gone) (hown : ∀ e ∈ gone, e ∈ b.manager.flying → t.heldEntry = some e) :
    Change b t (.done i) b' gone none none added where
  shift := hshift
  starts e _ he := by cases he
  log := hlog
  queued := queuedEntries_apart hadded
  routed i hi := (hadded _ hi).elim
  settles := hsettles
  others s hs := .inr (hadded _ hs)
  fresh e he := by cases he
  task e := by
    constructor
    · exact fun he => by cases he
    · rintro (⟨hentry, hstays⟩ | hstart)
      · exact absurd (htask e hentry) hstays
      · cases hstart
  own := hown
  asks h := h.elim
  begun := id
  grants := id

/-- A step in which the approval of an entry ends. -/
theorem Change.ended (l₁ l₂ : List Event) (payload : ResponsePayload) (hshift : Shift b.manager b'.manager [e] none none)
    (hlog : b'.log = b.log ++ (l₁ ++ .settled ⟨e.promise, payload, .resolved e.id⟩ :: l₂))
    (h₁ : ∀ ev ∈ l₁, ev.Apart fun _ => False) (h₂ : ∀ ev ∈ l₂, ev.Apart fun _ => False)
    (htask : ∀ e', t.heldEntry = some e' → e' = e) (hown : e ∈ b.manager.flying → t.heldEntry = some e) :
    Change b t (.done i) b' [e] none none (l₁ ++ .settled ⟨e.promise, payload, .resolved e.id⟩ :: l₂) := by
  have hmono : ∀ ev : Event, ev.Apart (fun _ => False) → ev.Apart fun i => ∃ e' ∈ [e], e'.promise = i := fun ev hev => by
    cases ev with
    | queued | routed | settled => exact hev.elim
    | threw | listed | approved | finished | signed | disconnected => trivial
  have hnone : ∀ l : List Event, (∀ ev ∈ l, ev.Apart fun _ => False) → settlements e.promise l = [] := fun l hl =>
    settlements_eq_nil fun s hs => (hl _ hs).elim
  refine Change.leaves hshift hlog (fun ev hev => ?_) (fun e' he' => ?_) (fun e' he' => List.mem_singleton.mpr (htask e' he'))
    (fun e' he' hflying => ?_)
  · rcases List.mem_append.mp hev with hev | hev
    · exact hmono ev (h₁ ev hev)
    · rcases List.mem_cons.mp hev with rfl | hev
      · exact ⟨e, List.mem_singleton_self e, rfl⟩
      · exact hmono ev (h₂ ev hev)
  · obtain rfl := List.mem_singleton.mp he'
    refine ⟨⟨e'.promise, payload, .resolved e'.id⟩, ?_, rfl⟩
    rw [settlements_append, hnone _ h₁, List.nil_append]
    exact settlements_cons_self rfl (hnone _ h₂)
  · obtain rfl := List.mem_singleton.mp he'
    exact hown hflying

/-- A step in which the approval of an entry starts. -/
theorem Change.begins (hshift : Shift b.manager b'.manager [] none (some e)) (hlog : b'.log = b.log ++ added)
    (hadded : ∀ ev ∈ added, ev.Apart fun _ => False) (ht : t.heldEntry = none) (ht' : t'.heldEntry = some e) (hasks : ¬ t'.Asks)
    (hgrants : ¬ t'.Connects) : Change b t t' b' [] none (some e) added where
  shift := hshift
  starts e he := absurd he List.not_mem_nil
  log := hlog
  queued := queuedEntries_apart hadded
  routed i hi := (hadded _ hi).elim
  settles e he := absurd he List.not_mem_nil
  others s hs := (hadded _ hs).elim
  fresh e he := by cases he
  task e' := by simp [ht, ht']
  own e he := absurd he List.not_mem_nil
  asks h := absurd h hasks
  begun h := by
    cases t' with
    | begun => cases ht'
    | opening | calling | writing | resolving | done => exact h
  grants := hgrants

theorem Task.Unpaired.asks (h : t.Unpaired i) : t.Asks := by
  cases h <;> trivial

theorem Task.Unpaired.entry_eq (h : t.Unpaired i) : t.heldEntry = none := by
  cases h <;> rfl

theorem apart_nil {own : ℕ → Prop} : ∀ ev ∈ ([] : List Event), ev.Apart own := fun _ hev => absurd hev List.not_mem_nil

theorem apart_cons {own : ℕ → Prop} {ev : Event} {l : List Event} (hev : ev.Apart own) (hl : ∀ ev ∈ l, ev.Apart own) :
    ∀ ev' ∈ ev :: l, ev'.Apart own := List.forall_mem_cons.mpr ⟨hev, hl⟩

/-- The approval of an entry in flight ends. -/
theorem finish_change (b₀ : Background) (l : List Event) (hb : Settling b) (hflying : e ∈ b.manager.flying)
    (htask : t.heldEntry = some e) (hmanager : b₀.manager = b.manager) (hlog : b₀.log = b.log ++ l)
    (hl : ∀ ev ∈ l, ev.Apart fun _ => False) (payload : ResponsePayload) :
    ∃ gone fresh started added, Change b t (.done i) (finish i e b₀ (some payload)).2 gone fresh started added := by
  obtain ⟨hshift, hsettled⟩ := finishResolving_shift hb.parted hflying (some payload)
  have hmanager' : (finish i e b₀ (some payload)).2.manager = (b.manager.finishResolving e.id (some payload)).1 := by
    rw [← hmanager]
    rfl
  refine ⟨_, _, _, _, Change.ended l [.finished i] payload (hmanager' ▸ hshift) ?_ hl (apart_cons trivial apart_nil)
    (fun e' he' => Option.some.inj (he'.symm.trans htask)) fun _ => htask⟩
  rw [finish_log, hlog, hmanager, hsettled, List.append_assoc]
  rfl

/-- Every entry of those that leave the queue together is settled once. -/
theorem settles_filter {p : Entry → Bool} (payload : ResponsePayload) (cause : Cause) (hb : Settling b)
    (hcause : ∀ e, p e = true → cause.For e) (he : e ∈ b.manager.pending.rows.filter p) :
    ∃ s, settlements e.promise (((b.manager.pending.rows.filter p).map fun e =>
      (⟨e.promise, payload, cause⟩ : Settlement)).map .settled) = [s] ∧ s.cause.For e := by
  refine ⟨_, settlements_entries he ((b.manager.pending.nodup.of_map _).filter _) fun e' he' hsame => ?_,
    hcause e (List.mem_filter.mp he).2⟩
  exact hb.unique (hb.live e' (.inl (List.mem_filter.mp he').1)) (hb.live e (.inl (List.mem_filter.mp he).1)) hsame

/-- A request is queued. -/
theorem queue_change {id origin : String} {request : ProviderRequest} {tabId : Option ℕ} {sender : Sender} {creating : Bool}
    (hb : Settling b) (hid : ∀ e ∈ queuedEntries b.log, e.id ≠ id)
    (hmanager : b'.manager = (b.manager.supersede origin request).1.addPending ⟨id, origin, request, tabId, i⟩)
    (hlog : b'.log = b.log ++ (.routed i :: (b.manager.supersede origin request).2.map .settled ++
      [.queued ⟨id, origin, request, tabId, i⟩])) :
    Change b (.begun i (.providerRequest id request sender)) (.opening i creating) b'
      (b.manager.pending.rows.filter fun e => e.origin = origin ∧ e.request.method = request.method)
      (some ⟨id, origin, request, tabId, i⟩) none
      (.routed i :: (b.manager.supersede origin request).2.map .settled ++ [.queued ⟨id, origin, request, tabId, i⟩]) := by
  have hqueued : queuedEntries (.routed i :: (b.manager.supersede origin request).2.map .settled) = [] :=
    queuedEntries_settled _
  refine
    { shift := hmanager ▸ supersede_shift hb.parted fun e' he' => hid e' (hb.live e' (.inl he'))
      starts := fun e _ he => by cases he
      log := hlog
      queued := by rw [queuedEntries_append, hqueued]; rfl
      routed := fun j hj => ⟨_, rfl, ?_⟩
      settles := fun e he => ?_
      others := fun s hs => .inr ?_
      fresh := fun e he => ?_
      task := fun e => by simp [Task.heldEntry]
      own := fun e he hflying => absurd hflying (hb.apart e (List.mem_filter.mp he).1)
      asks := False.elim
      begun := fun h => h
      grants := fun h => h }
  · rcases List.mem_append.mp hj with hj | hj
    · rcases List.mem_cons.mp hj with hj | hj
      · exact (Event.routed.inj hj).symm
      · obtain ⟨s, -, hs⟩ := List.mem_map.mp hj
        cases hs
    · cases List.mem_singleton.mp hj
  · obtain ⟨s, hs, hfor⟩ := settles_filter TabManager.supersededPayload (.superseded origin request.method) hb
      (fun e he => (of_decide_eq_true (p := e.origin = origin ∧ e.request.method = request.method) he).imp Eq.symm Eq.symm) he
    refine ⟨s, ?_, hfor⟩
    rw [settlements_append]
    show settlements e.promise ((b.manager.supersede origin request).2.map .settled) ++ [] = [s]
    rw [List.append_nil]
    exact hs
  · rcases List.mem_append.mp hs with hs | hs
    · rcases List.mem_cons.mp hs with hs | hs
      · cases hs
      · obtain ⟨s', hs', hsame⟩ := List.mem_map.mp hs
        obtain rfl := Event.settled.inj hsame
        obtain ⟨e, he, rfl⟩ := List.mem_map.mp hs'
        exact ⟨e, he, rfl⟩
    · cases List.mem_singleton.mp hs
  · obtain rfl := Option.some.inj he
    exact ⟨trivial, fun h => h, rfl, hid⟩

/-- The caller has a call of the stored state to make. -/
def Task.Calls (i : ℕ) (caller : Caller) (t : Task) : Prop :=
  (∃ call, t = .calling i caller call) ∨ ∃ call raw seen, t = .writing i caller call raw seen

/-- A call of the stored state returns. -/
theorem afterCall_change {b₀ : Background} {caller : Caller} (htask : t.Calls i caller) (ht : Handles b t)
    (hmanager : b₀.manager = b.manager) (hlog : b₀.log = b.log) : ∃ gone fresh started added,
      Change b t (afterCall i caller b₀).1 (afterCall i caller b₀).2 gone fresh started added := by
  have hsame : b₀.log = b.log ++ [] := by rw [List.append_nil, hlog]
  have hshift : Shift b.manager b₀.manager [] none none := hmanager ▸ .refl
  cases caller with
  | disconnect origin network =>
    refine ⟨_, _, _, _, .quiet hshift (congrArg (· ++ _) hlog) (apart_cons ?_ (apart_cons trivial apart_nil)) ?_ False.elim id id⟩ <;>
      rcases htask with ⟨call, rfl⟩ | ⟨call, raw, seen, rfl⟩
    · exact ⟨trivial, rfl⟩
    · exact ⟨trivial, rfl⟩
    · rfl
    · rfl
  | revocation =>
    refine ⟨_, _, _, _, .quiet hshift hsame apart_nil ?_ False.elim id id⟩
    rcases htask with ⟨call, rfl⟩ | ⟨call, raw, seen, rfl⟩ <;> rfl
  | pair entry =>
    refine ⟨_, _, _, _, .quiet hshift hsame apart_nil ?_ False.elim id id⟩
    rcases htask with ⟨call, rfl⟩ | ⟨call, raw, seen, rfl⟩ <;> rfl
  | connect entry wallet =>
    rcases htask with ⟨call, rfl⟩ | ⟨call, raw, seen, rfl⟩ <;> exact absurd trivial ht.grants

/-- **Every step is a change of the requests, recorded as it is.** -/
theorem Move.change (h : Move urls pairOrigins .bound b x t t' b') (hG : Answerable urls pairOrigins x t b)
    (hb : Settling b) (ht : Handles b t) : ∃ gone fresh started added, Change b t t' b' gone fresh started added := by
  have hsame : b.log = b.log ++ [] := (List.append_nil _).symm
  cases h with
  | stay => exact ⟨_, _, _, _, .quiet .refl hsame apart_nil rfl id id id⟩
  | answer _ i _ events hunpaired hevents =>
    refine ⟨_, _, _, _, .quiet .refl rfl ?_ hunpaired.entry_eq.symm False.elim id id⟩
    rcases hevents with rfl | rfl | ⟨payload, rfl⟩
    · exact apart_nil
    · exact apart_cons trivial apart_nil
    · exact apart_cons ⟨hunpaired.asks, hunpaired.id_eq.symm⟩ apart_nil
  | unqueued _ i id request sender origin hnames => cases hnames
  | queue _ i id request sender origin tabId creating hnames hroute =>
    exact ⟨_, _, _, _, queue_change hb (hG origin hroute) rfl rfl⟩
  | list => exact ⟨_, _, _, _, .quiet .refl rfl (apart_cons trivial apart_nil) rfl False.elim id id⟩
  | disconnect | revoke => exact ⟨_, _, _, _, .quiet .refl hsame apart_nil rfl (fun _ => trivial) id id⟩
  | tab _ i tabId =>
    refine ⟨_, _, _, _, .leaves (handleTabRemoved_shift hb.parted tabId) rfl (apart_settled fun s hs => ?_) (fun e he => ?_)
      (fun e he => by cases he) fun e he hflying => absurd hflying (hb.apart e (List.mem_filter.mp he).1)⟩
    · obtain ⟨e, he, rfl⟩ := List.mem_map.mp hs
      exact ⟨e, he, rfl⟩
    · exact settles_filter _ (.tabClosed tabId) hb (fun e he => of_decide_eq_true (p := e.tabId = some tabId) he) he
  | closed _ i windowId =>
    exact ⟨_, _, _, _, .quiet (.same rfl rfl fun _ _ _ => rfl) hsame apart_nil rfl False.elim id id⟩
  | reject _ i id entry manager payload hstart =>
    obtain ⟨-, rfl, -⟩ := startResolving_some hstart
    have hstarts := startResolving_shift hb.parted hstart
    have hparted := hstarts.parted hb.parted (fun e he => absurd he List.not_mem_nil) fun e he => by cases he
    obtain ⟨hends, hsettled⟩ := finishResolving_shift hparted ((hstarts.flying entry).mpr (.inr rfl)) (some payload)
    refine ⟨_, _, _, _, .ended [] [.finished i] payload (hstarts.both hends) ?_ apart_nil
      (apart_cons trivial apart_nil) (fun e he => by cases he) fun hflying => ?_⟩
    · rw [finish_log, hsettled]
      rfl
    · exact absurd hflying (hb.apart entry (hstarts.started entry rfl))
  | approve _ i id entry manager hstart =>
    obtain ⟨-, rfl, -⟩ := startResolving_some hstart
    exact ⟨_, _, _, _, .begins (startResolving_shift hb.parted hstart) rfl (apart_cons trivial apart_nil) rfl rfl id id⟩
  | approvePair _ i id entry manager params hstart =>
    obtain ⟨-, rfl, -⟩ := startResolving_some hstart
    exact ⟨_, _, _, _, .begins (startResolving_shift hb.parted hstart) rfl (apart_cons trivial apart_nil) rfl rfl id id⟩
  | refocus => exact ⟨_, _, _, _, .quiet (.same rfl rfl fun _ _ _ => rfl) hsame apart_nil rfl id id id⟩
  | opened => exact ⟨_, _, _, _, .quiet .refl hsame apart_nil rfl False.elim id id⟩
  | window windowId i =>
    refine ⟨_, _, _, _, .quiet (.same rfl rfl fun hwindow hpending hflying => ?_) hsame apart_nil rfl False.elim id id⟩
    cases windowId with
    | none => rfl
    | some windowId =>
      rcases hG windowId rfl with hwaits | hwaits
      · exact absurd hpending hwaits
      · exact absurd hflying hwaits
  | next _ i entry stage stage' =>
    exact ⟨_, _, _, _, .quiet .refl hsame apart_nil rfl id id id⟩
  | exported _ i entry payload =>
    have hflying := ht.flying entry rfl
    obtain ⟨hshift, hsettled⟩ := finishResolving_shift hb.parted hflying none
    refine ⟨_, _, _, _, .ended [] [.finished i] payload hshift ?_ apart_nil
      (apart_cons trivial apart_nil) (fun e he => (Option.some.inj he).symm) fun _ => rfl⟩
    rw [finish_log]
    show b.log ++ _ ++ ((b.manager.finishResolving entry.id none).2.map .settled ++ _) = _
    rw [hsettled, List.append_assoc]
    rfl
  | sign _ i entry wallet => exact ⟨_, _, _, _, .quiet .refl rfl (apart_cons trivial apart_nil) rfl id id id⟩
  | signed _ i entry wallet payload =>
    exact finish_change (b.add [.signed entry]) [.signed entry] hb (ht.flying entry rfl) rfl rfl rfl
      (apart_cons trivial apart_nil) payload
  | finish _ i entry _ payload happroves =>
    exact finish_change _ _ hb (ht.flying entry happroves.entry_eq) happroves.entry_eq rfl hsame apart_nil payload
  | connect _ i entry wallet now hmethod hwallet =>
    have hnone := hG hmethod
    rw [hwallet] at hnone
    cases hnone
  | connectEnd _ i entry _ wallet events hconnect =>
    rcases hconnect with ⟨call, rfl⟩ | ⟨call, raw, seen, rfl⟩ <;> exact absurd trivial ht.grants
  | read _ i caller call raw heffect =>
    cases caller with
    | disconnect | revocation | pair => exact ⟨_, _, _, _, .quiet .refl hsame apart_nil rfl id id id⟩
    | connect => exact absurd trivial ht.grants
  | keep _ i caller call heffect => exact afterCall_change (.inl ⟨call, rfl⟩) ht rfl rfl
  | write text i caller call raw seen => exact afterCall_change (.inr ⟨call, raw, seen, rfl⟩) ht rfl rfl

end Moves

/-! ## Runs -/

section Runs

variable {urls : Urls} {pairOrigins : PairOriginPolicy} {storage : Stored} {jobs : ℕ → Job} {schedule : List (ℕ × Reply)}

theorem stable_answers : Stable (runTask urls pairOrigins .bound) (Answerable urls pairOrigins) Settling Handles Task.Distinct where
  symm _ _ h := ⟨h.1.symm, fun e he he' => h.2 e he' he⟩
  shared x t b hG hb ht := by
    obtain ⟨gone, fresh, started, added, hchange⟩ := runTask_move.change hG hb ht
    exact hchange.settling hb ht
  own x t b hG hb ht := by
    obtain ⟨gone, fresh, started, added, hchange⟩ := runTask_move.change hG hb ht
    exact hchange.own_handles ht runTask_move.id_eq
  other x t b u hG hb ht hu hdistinct := by
    obtain ⟨gone, fresh, started, added, hchange⟩ := runTask_move.change hG hb ht
    exact hchange.other_handles hb hu hdistinct
  apart x t b u hG hb ht hu hdistinct := by
    obtain ⟨gone, fresh, started, added, hchange⟩ := runTask_move.change hG hb ht
    exact hchange.distinct hb hu hdistinct runTask_move.id_eq

/-- What is in flight is being resolved. -/
def Progress (c : Config Background Task) : Prop := ∀ e ∈ c.shared.manager.flying, ∃ j, (c.procs j).heldEntry = some e

theorem progress_step {c : Config Background Task} {a : ℕ × Reply} (hinv : Inv Settling Handles Task.Distinct c)
    (hG : Answerable urls pairOrigins a.2 (c.procs a.1) c.shared) (hc : Progress c) :
    Progress (step (runTask urls pairOrigins .bound) c a) := by
  obtain ⟨gone, fresh, started, added, hchange⟩ := runTask_move.change hG hinv.shared (hinv.own a.1)
  have hself : ∀ e, (c.procs a.1).heldEntry = some e ∧ e ∉ gone ∨ started = some e →
      ∃ j, ((step (runTask urls pairOrigins .bound) c a).procs j).heldEntry = some e := fun e he => by
    refine ⟨a.1, ?_⟩
    rw [procs_step_self]
    exact (hchange.task e).mpr he
  intro e he
  rcases (hchange.shift.flying e).mp he with ⟨hflying, hstays⟩ | hstart
  · obtain ⟨j, hj⟩ := hc e hflying
    by_cases hja : j = a.1
    · exact hself e (.inl ⟨hja ▸ hj, hstays⟩)
    · exact ⟨j, by rw [procs_step_other hja]; exact hj⟩
  · exact hself e (.inr hstart)

/-- Every step of the run is answerable. -/
def AnswerableRun (urls : Urls) (pairOrigins : PairOriginPolicy) (storage : Stored) (jobs : ℕ → Job)
    (schedule : List (ℕ × Reply)) : Prop :=
  Along (step (runTask urls pairOrigins .bound)) (fun c a => Answerable urls pairOrigins a.2 (c.procs a.1) c.shared)
    (startWorker storage jobs) schedule

theorem inv_answers : Inv Settling Handles Task.Distinct (startWorker storage jobs) := by
  refine ⟨⟨List.nodup_nil, List.nodup_nil, fun e he => ?_, fun e he => absurd he List.not_mem_nil,
    fun e he => absurd he List.not_mem_nil, fun i hi => absurd hi List.not_mem_nil, fun _ _ => rfl⟩,
    fun i => ⟨fun e he => (by cases he), fun _ e he => absurd he List.not_mem_nil, fun _ => rfl, id⟩,
    fun i j hij => ⟨hij, fun e he => (by cases he)⟩⟩
  rcases he with hmem | hmem <;> exact absurd hmem List.not_mem_nil

/-- **With the names as they are meant, every request of an answerable run is answered once.** -/
theorem answered_bound (h : AnswerableRun urls pairOrigins storage jobs schedule) :
    AnsweredOnce urls pairOrigins .bound storage jobs schedule := by
  have hinv := inv_prefix (P := fun c : Config Background Task => Inv Settling Handles Task.Distinct c ∧ Progress c)
    (fun c a hc hG => ⟨stable_answers.inv_step hc.1 a hG, progress_step hc.1 hG hc.2⟩)
    ⟨inv_answers, fun e he => absurd he List.not_mem_nil⟩ h
  refine ⟨fun pre hpre i hi => ?_, fun pre hpre e he => (hinv pre hpre).1.shared.once e (mem_queuedEntries.mpr he),
    fun pre hpre => (hinv pre hpre).2, fun pre hpre hpending hflying _ => (hinv pre hpre).1.shared.window hpending hflying⟩
  obtain ⟨e, he, hpromise⟩ := (hinv pre hpre).1.shared.routed i hi
  exact ⟨e, mem_queuedEntries.mp he, hpromise⟩

/-- **Every page request is answered exactly once**: as the file stands, if and only if none is routed to approval; with the
names as they are meant, in every answerable run. -/
theorem answered_iff : (AnsweredOnce urls pairOrigins .unbound storage jobs schedule ↔
      UnroutedRun urls pairOrigins storage jobs schedule) ∧
    (AnswerableRun urls pairOrigins storage jobs schedule → AnsweredOnce urls pairOrigins .bound storage jobs schedule) :=
  ⟨answered_unbound_iff, answered_bound⟩

end Runs

/-! ## Two runs -/

def Task.IsGuarded : Task → Bool
  | .begun _ (.providerRequest _ _ _) | .opening _ true => true
  | .resolving _ entry .loading => decide (entry.request.method = .connect)
  | _ => false

theorem answerable_of_not_guarded {urls : Urls} {pairOrigins : PairOriginPolicy} {x : Reply} {t : Task} {b : Background}
    (h : t.IsGuarded = false) : Answerable urls pairOrigins x t b := by
  cases t with
  | begun i job =>
    cases job with
    | providerRequest => cases h
    | listPending | resolvePending | revoke | tabRemoved | windowRemoved => trivial
  | opening i creating =>
    cases creating with
    | true => cases h
    | false => trivial
  | resolving i entry stage =>
    cases stage with
    | loading => exact fun hconnect => absurd hconnect (of_decide_eq_false h)
    | ensuring | exporting | keying | hexing | signing => trivial
  | calling | writing | done => trivial

theorem answered_iff_signing : AnsweredOnce plainUrls .any .bound (some sampleState) signingJobs signingSchedule :=
  answered_iff.2 ⟨fun _ _ e he => absurd he List.not_mem_nil, answerable_of_not_guarded (by decide),
    answerable_of_not_guarded (by decide), answerable_of_not_guarded (by decide +kernel),
    answerable_of_not_guarded (by decide +kernel), answerable_of_not_guarded (by decide +kernel), trivial⟩

/-- **A page that asks to connect to a paired wallet is never answered.** -/
theorem connect_not_answered : ¬ AnsweredOnce plainUrls .any .unbound (some ⟨some sampleWallet, []⟩) rebindingJobs
    [(0, .succeeds "")] := by
  intro h
  have hrouted : (workerAt plainUrls .any .unbound (some ⟨some sampleWallet, []⟩) rebindingJobs
      [(0, .succeeds "")]).shared.log.any (fun
        | .routed _ => true
        | _ => false) = true := by decide +kernel
  have hnone : queuedEntries (workerAt plainUrls .any .unbound (some ⟨some sampleWallet, []⟩) rebindingJobs
      [(0, .succeeds "")]).shared.log = [] := by decide +kernel
  obtain ⟨ev, hev, his⟩ := List.any_eq_true.mp hrouted
  cases ev with
  | routed i =>
    obtain ⟨e, he, -⟩ := h.queued [(0, .succeeds "")] List.prefix_rfl i hev
    exact absurd (hnone ▸ mem_queuedEntries.mpr he) List.not_mem_nil
  | queued | settled | threw | listed | approved | finished | signed | disconnected => cases his

end Vellar.Extension
