import Vellar.Lib.Processes
import Vellar.Verification.SubmitRoute

/-!
# Vellar.Verification.Intake — the limits of the intake

Any number of `POST /verification/submit` requests over one store, interleaved at their awaits.  `intake_held`: the limits
hold, and no request waits for ever, when a request that goes on past its checks would pass them with the requests past
theirs counted, and no insert fails under a waiting request.
-/

set_option autoImplicit false

namespace Vellar.Verification

open Machine Processes Worker

/-! ## What is promised -/

/-- The active records of a contract. -/
def activeFor (records : Records) (contractId : String) : ℕ := records.rows.countP (isActiveFor contractId)

/-- The records a request has inserted. -/
def insertions (i : ℕ) (log : List Event) : List String :=
  log.filterMap fun e =>
    match e with
    | .inserted j recordId => if j = i then some recordId else none
    | _ => none

section Runs

variable (isUrl : String → Bool) (uuid : ℕ → String) (maxActiveQueue : ℕ) (records : Records) (requests : ℕ → Json × Option (String × String))

/-- All requests received, none begun. -/
def start : Config World Phase where
  shared := ⟨records, fun _ => none, fun _ => .unset, [], []⟩
  procs i := .received ⟨i, (requests i).1, (requests i).2⟩

/-- The state a schedule leads to. -/
def reached (schedule : List (ℕ × Reply)) : Config World Phase :=
  run (step (handle isUrl uuid maxActiveQueue)) (start records requests) schedule

/-- The intake keeps its limits in a run. -/
structure IntakeHeld (schedule : List (ℕ × Reply)) : Prop where
  single : ∀ pre, pre <+: schedule → ∀ contractId,
    activeFor (reached isUrl uuid maxActiveQueue records requests pre).shared.records contractId ≤ 1
  capped : ∀ pre, pre <+: schedule →
    countActive (reached isUrl uuid maxActiveQueue records requests pre).shared.records ≤ maxActiveQueue
  created : ∀ i r record, (reached isUrl uuid maxActiveQueue records requests schedule).procs i = .done r (.created record) →
    insertions i (reached isUrl uuid maxActiveQueue records requests schedule).shared.log = [record.id]
  /-- Some continuation answers a request that waits. -/
  answered : ∀ pre, pre <+: schedule → ∀ i r h,
    (reached isUrl uuid maxActiveQueue records requests pre).procs i = .waiting r h →
      ∃ more, ((reached isUrl uuid maxActiveQueue records requests (pre ++ more)).procs i).IsDone

end Runs

/-- The checks would pass with the requests past theirs counted as active. -/
structure StillPasses (maxActiveQueue : ℕ) (contractId : String) (w : World) : Prop where
  room : countActive w.records + w.passed.length < maxActiveQueue
  none : activeFor w.records contractId = 0
  alone : ∀ i, (i, contractId) ∉ w.passed

/-- No request waits on the holder. -/
def Unawaited (holder : ℕ) (w : World) : Prop :=
  ∀ i, .waits i holder ∈ w.log → ∃ code, .answered i code ∈ w.log

/-- A request goes on past its checks only when they still pass, and no insert fails under a waiting request. -/
def Orderly (maxActiveQueue : ℕ) (x : Reply) (p : Phase) (w : World) : Prop :=
  match x, p with
  | .succeeds _, .checked _ b => StillPasses maxActiveQueue b.contractId w
  | .fails, .inserting r _ => Unawaited r.id w
  | .fails, .inserted r _ => Unawaited r.id w
  | _, _ => True

/-! ## The store and the log -/

section Counts

variable {records : Records} {recordId : String} {outcome record : VerificationRecordInternal}

/-- A worker makes no record active. -/
theorem countP_work_le {q : VerificationRecordInternal → Bool}
    (hq : ∀ r, isActive r = true → q { outcome with id := r.id, contractId := r.contractId } = true → q r = true) :
    (work recordId outcome records).rows.countP q ≤ records.rows.countP q := by
  unfold work Table.updateWhere Table.modify
  rw [List.countP_map]
  refine List.countP_mono_left fun r _ h => ?_
  by_cases hr : (r.id = recordId && isActive r) = true
  · rw [Function.comp_apply, if_pos hr] at h
    exact hq r (Bool.and_eq_true_iff.mp hr).2 h
  · rwa [Function.comp_apply, if_neg hr] at h

theorem countActive_work : countActive (work recordId outcome records) ≤ countActive records :=
  countP_work_le fun _ h _ => h

theorem activeFor_work {contractId : String} :
    activeFor (work recordId outcome records) contractId ≤ activeFor records contractId :=
  countP_work_le fun r hr h => by
    rw [isActiveFor, Bool.and_eq_true] at h ⊢
    exact ⟨h.1, hr⟩

theorem find_work {id : String} (h : records.find id = none) : (work recordId outcome records).find id = none := by
  rw [work, Table.find_updateWhere, h, Option.map_none]

variable (hnew : records.find record.id = none) (hstatus : record.status = .submitted)

include hnew hstatus in
theorem countActive_put : countActive (records.put record) = countActive records + 1 := by
  unfold countActive
  rw [Table.rows_put_new hnew, List.countP_append]
  simp [isActive, hstatus, VerificationStatus.IsActive]

include hnew hstatus in
theorem activeFor_put (contractId : String) :
    activeFor (records.put record) contractId = activeFor records contractId + if record.contractId = contractId then 1 else 0 := by
  unfold activeFor
  rw [Table.rows_put_new hnew, List.countP_append]
  simp [isActiveFor, isActive, hstatus, VerificationStatus.IsActive, List.countP_singleton]

end Counts

def Event.request : Event → ℕ
  | .waits i _ | .inserted i _ | .answered i _ => i

theorem insertions_append (i : ℕ) (log log' : List Event) :
    insertions i (log ++ log') = insertions i log ++ insertions i log' :=
  List.filterMap_append

theorem insertions_other {i : ℕ} {events : List Event} (h : ∀ e ∈ events, e.request ≠ i) : insertions i events = [] := by
  unfold insertions
  rw [List.filterMap_eq_nil_iff]
  intro e he
  cases e with
  | inserted j recordId => exact if_neg (h _ he)
  | waits | answered => rfl

/-! ## What a step can do -/

/-- Before its checks are passed. -/
def Phase.Early : Phase → Prop
  | .received _ | .waiting _ _ | .counting _ _ | .checking _ _ | .checked _ _ | .finding _ _ => True
  | _ => False

/-- Past the map and before the insert. -/
def Phase.Checks : Phase → Prop
  | .counting _ _ | .checking _ _ | .checked _ _ | .finding _ _ => True
  | _ => False

/-- Whose holder is pending. -/
def Phase.Inserts (record : VerificationRecordInternal) : Phase → Prop
  | .inserting _ r | .inserted _ r => r = record
  | _ => False

section Steps

variable {isUrl : String → Bool} {uuid : ℕ → String} {maxActiveQueue : ℕ} {w w' : World} {p p' : Phase} {orderly : Prop}

/-- A step; `orderly` stands for the condition of the run at it. -/
inductive Move (orderly : Prop) (uuid : ℕ → String) (maxActiveQueue : ℕ) (w : World) : Phase → Phase → World → Prop where
  | work (p : Phase) (recordId : String) (outcome : VerificationRecordInternal) :
      Move orderly uuid maxActiveQueue w p p { w with records := Verification.work recordId outcome w.records }
  | stay (p : Phase) : Move orderly uuid maxActiveQueue w p p w
  | advance (p p' : Phase) (hp : p.Early) (hp' : p'.Checks) (hrequest : p'.request = p.request) :
      Move orderly uuid maxActiveQueue w p p' w
  | wait (r : Request) (contractId : String) (h : ℕ) (hentry : w.inFlight contractId = some h) :
      Move orderly uuid maxActiveQueue w (.received r) (.waiting r h) (w.add [.waits r.id h])
  | respond (p : Phase) (response : Response) (hp : p.Early) (hresponse : ∀ record, response ≠ .created record) :
      Move orderly uuid maxActiveQueue w p (.done p.request response) (w.add [.answered p.request.id response.code])
  | pass (r : Request) (b : SubmitBody) (now : ℤ) (hpass : orderly → StillPasses maxActiveQueue b.contractId w) :
      Move orderly uuid maxActiveQueue w (.checked r b) (Verification.pass uuid r b now w).1 (Verification.pass uuid r b now w).2
  | insert (r : Request) (record : VerificationRecordInternal) :
      Move orderly uuid maxActiveQueue w (.inserting r record) (.inserted r record)
        (World.add { w with records := w.records.put record, passed := w.passed.erase (r.id, record.contractId) }
          [.inserted r.id record.id])
  | settle (r : Request) (record : VerificationRecordInternal) :
      Move orderly uuid maxActiveQueue w (.inserted r record) (.enqueueing r record)
        { w with holders := Function.update w.holders r.id (.settled record) }
  | create (r : Request) (record : VerificationRecordInternal) :
      Move orderly uuid maxActiveQueue w (.enqueueing r record) (.done r (.created (toPublic record)))
        (w.finish r record.contractId (.created (toPublic record))).2
  | abandon (p : Phase) (record : VerificationRecordInternal) (hp : p.Inserts record) (hwait : orderly → Unawaited p.request.id w) :
      Move orderly uuid maxActiveQueue w p (.done p.request .thrown) (w.abandon p.request record.contractId).2

theorem inProgress_not_created (active : Option VerificationRecordInternal) (record : VerificationRecordInternal) :
    inProgress active ≠ .created record := fun h => by cases h

theorem receive_move (r : Request) :
    Move orderly uuid maxActiveQueue w (.received r) (receive isUrl r w).1 (receive isUrl r w).2 := by
  unfold receive
  split
  · exact .respond (.received r) _ trivial fun _ h => by cases h
  · rename_i b hbody
    split
    · exact .advance _ _ trivial trivial rfl
    · rename_i h hentry
      split
      · exact .respond (.received r) _ trivial (inProgress_not_created _)
      · exact .wait r b.contractId h hentry

theorem proceed_move {now : ℤ} :
    Move (Orderly maxActiveQueue (.succeeds now) p w) uuid maxActiveQueue w p (proceed isUrl uuid maxActiveQueue now p w).1
      (proceed isUrl uuid maxActiveQueue now p w).2 := by
  cases p with
  | received r => exact receive_move r
  | waiting r h =>
    simp only [proceed]
    split
    · exact .respond (.waiting r h) _ trivial (inProgress_not_created _)
    · exact .stay _
  | counting r b =>
    simp only [proceed]
    split
    · exact .respond (.counting r b) _ trivial fun _ h => by cases h
    · exact .advance _ _ trivial trivial rfl
  | checking r b =>
    simp only [proceed]
    split
    · exact .advance _ _ trivial trivial rfl
    · exact .advance _ _ trivial trivial rfl
  | checked r b => exact .pass r b now id
  | finding r b => exact .respond (.finding r b) _ trivial (inProgress_not_created _)
  | inserting r record => exact .insert r record
  | inserted r record => exact .settle r record
  | enqueueing r record => exact .create r record
  | done r response => exact .stay _

theorem fail_move : Move (Orderly maxActiveQueue .fails p w) uuid maxActiveQueue w p (fail p w).1 (fail p w).2 := by
  cases p with
  | received | waiting | checked | done => exact .stay _
  | counting r b => exact .respond (.counting r b) _ trivial fun _ h => by cases h
  | checking r b => exact .respond (.checking r b) _ trivial fun _ h => by cases h
  | finding r b => exact .respond (.finding r b) _ trivial fun _ h => by cases h
  | inserting r record => exact .abandon (.inserting r record) record rfl id
  | inserted r record => exact .abandon (.inserted r record) record rfl id
  | enqueueing r record => exact .create r record

theorem handle_move {x : Reply} :
    Move (Orderly maxActiveQueue x p w) uuid maxActiveQueue w p (handle isUrl uuid maxActiveQueue x p w).1
      (handle isUrl uuid maxActiveQueue x p w).2 := by
  cases x with
  | succeeds now => exact proceed_move
  | fails => exact fail_move
  | worked recordId outcome => exact .work p recordId outcome

theorem Move.request_eq (h : Move orderly uuid maxActiveQueue w p p' w') : p'.request = p.request := by
  cases h with
  | advance _ _ hp hp' hrequest => exact hrequest
  | abandon | work | stay | wait | respond | pass | insert | settle | create => rfl

/-! ## The invariant -/

/-- A request may wait on it. -/
def Holder.Live : Holder → Prop
  | .pending _ | .settled _ => True
  | _ => False

/-- What holds of the shared state; `hused` of the map is what a waiting request relies on. -/
structure Sound (maxActiveQueue : ℕ) (w : World) : Prop where
  capped : countActive w.records + w.passed.length ≤ maxActiveQueue
  single : ∀ contractId, activeFor w.records contractId + w.passed.countP (·.2 = contractId) ≤ 1
  entries : ∀ contractId h, w.inFlight contractId = some h →
    w.holders h = .pending contractId ∨ ∃ record, w.holders h = .settled record

/-- A request that has not passed its checks has left no trace. -/
structure Fresh (uuid : ℕ → String) (w : World) (i : ℕ) : Prop where
  unset : w.holders i = .unset
  none : w.records.find (uuid i) = none
  silent : insertions i w.log = []

/-- The request waits on a holder that may settle. -/
structure Waits (w : World) (i h : ℕ) : Prop where
  logged : .waits i h ∈ w.log
  unanswered : ∀ code, .answered i code ∉ w.log
  live : (w.holders h).Live

/-- What holds of a request. -/
def Holds (uuid : ℕ → String) (w : World) : Phase → Prop
  | .received r => Fresh uuid w r.id ∧ ∀ e ∈ w.log, e.request ≠ r.id
  | .waiting r h => Fresh uuid w r.id ∧ Waits w r.id h
  | .counting r _ | .checking r _ | .checked r _ | .finding r _ => Fresh uuid w r.id
  | .inserting r record => w.holders r.id = .pending record.contractId ∧ (r.id, record.contractId) ∈ w.passed ∧
      record.id = uuid r.id ∧ record.status = .submitted ∧ w.records.find record.id = none ∧ insertions r.id w.log = []
  | .inserted r record => w.holders r.id = .pending record.contractId ∧ insertions r.id w.log = [record.id]
  | .enqueueing r record => w.holders r.id = .settled record ∧ insertions r.id w.log = [record.id]
  | .done r response => (∀ contractId, w.holders r.id ≠ .pending contractId) ∧
      ∀ record, response = .created record → insertions r.id w.log = [record.id]

def Apart (p q : Phase) : Prop := p.request.id ≠ q.request.id

theorem Holds.fresh (h : Holds uuid w p) (hp : p.Early) : Fresh uuid w p.request.id := by
  cases p with
  | received r | waiting r h' => exact h.1
  | counting r b | checking r b | checked r b | finding r b => exact h
  | inserting | inserted | enqueueing | done => cases hp

theorem Holds.pending {record : VerificationRecordInternal} (h : Holds uuid w p) (hp : p.Inserts record) :
    w.holders p.request.id = .pending record.contractId := by
  cases p with
  | inserting r r' | inserted r r' =>
    obtain rfl : r' = record := hp
    exact h.1
  | received | waiting | counting | checking | checked | finding | enqueueing | done => cases hp

theorem Sound.of_passed (h : Sound maxActiveQueue w) (passed : List (ℕ × String)) (hpassed : passed.Sublist w.passed) :
    countActive w.records + passed.length ≤ maxActiveQueue ∧
      ∀ contractId, activeFor w.records contractId + passed.countP (·.2 = contractId) ≤ 1 := by
  have hlength := hpassed.length_le
  refine ⟨by have := h.capped; omega, fun contractId => ?_⟩
  have hcount := hpassed.countP_le (p := (·.2 = contractId))
  have := h.single contractId
  omega

/-- The entries of the map when the entry of one contract is deleted. -/
theorem Sound.entries_delete (h : Sound maxActiveQueue w) (contractId : String) {contractId' : String} {i : ℕ}
    (hentry : Function.update w.inFlight contractId none contractId' = some i) :
    contractId' ≠ contractId ∧ (w.holders i = .pending contractId' ∨ ∃ record, w.holders i = .settled record) := by
  by_cases hc : contractId' = contractId
  · rw [hc, Function.update_self] at hentry
    cases hentry
  · rw [Function.update_of_ne hc] at hentry
    exact ⟨hc, h.entries contractId' i hentry⟩

theorem Move.sound (h : Move orderly uuid maxActiveQueue w p p' w') (hG : orderly) (hw : Sound maxActiveQueue w) (hp : Holds uuid w p) :
    Sound maxActiveQueue w' := by
  cases h with
  | stay | advance => exact hw
  | wait | respond => exact ⟨hw.capped, hw.single, hw.entries⟩
  | work _ recordId outcome =>
    refine ⟨?_, fun contractId => ?_, hw.entries⟩
    · exact le_trans (Nat.add_le_add_right countActive_work _) hw.capped
    · exact le_trans (Nat.add_le_add_right activeFor_work _) (hw.single contractId)
  | pass r b now hpass =>
    have hpass := hpass hG
    refine ⟨?_, fun contractId => ?_, fun contractId i hentry => ?_⟩
    · have hroom := hpass.room
      simp only [Verification.pass, List.length_append, List.length_singleton]
      omega
    · have hsingle := hw.single contractId
      simp only [Verification.pass, List.countP_append, List.countP_singleton, decide_eq_true_eq]
      by_cases hc : b.contractId = contractId
      · have hnone : w.passed.countP (·.2 = contractId) = 0 := by
          rw [List.countP_eq_zero]
          rintro ⟨i, c⟩ hmem heq
          obtain rfl : c = contractId := of_decide_eq_true heq
          exact hpass.alone i (hc ▸ hmem)
        have hactive := hpass.none
        rw [hc] at hactive
        rw [if_pos hc]
        omega
      · rw [if_neg hc]
        omega
    · simp only [Verification.pass] at hentry ⊢
      by_cases hc : contractId = b.contractId
      · rw [hc, Function.update_self] at hentry
        obtain rfl := Option.some.inj hentry
        rw [hc, Function.update_self]
        exact .inl rfl
      · rw [Function.update_of_ne hc] at hentry
        have hi : i ≠ r.id := fun hi => by
          have hunset := (hp : Fresh uuid w r.id).unset
          rcases hw.entries contractId i hentry with h | ⟨record, h⟩
          · rw [hi, hunset] at h
            cases h
          · rw [hi, hunset] at h
            cases h
        rw [Function.update_of_ne hi]
        exact hw.entries contractId i hentry
  | insert r record =>
    obtain ⟨-, hmem, -, hstatus, hnone, -⟩ := hp
    have hlength := List.length_erase_of_mem hmem
    have hpos := List.length_pos_of_mem hmem
    refine ⟨?_, fun contractId => ?_, hw.entries⟩
    · have := hw.capped
      simp only [World.add]
      rw [countActive_put hnone hstatus]
      omega
    · have hsingle := hw.single contractId
      have hcount := List.countP_erase (fun q : ℕ × String => decide (q.2 = contractId)) w.passed (r.id, record.contractId)
      simp only [World.add]
      rw [activeFor_put hnone hstatus, hcount]
      by_cases hc : record.contractId = contractId
      · have hone : 0 < w.passed.countP (·.2 = contractId) :=
          List.countP_pos_iff.mpr ⟨_, hmem, decide_eq_true hc⟩
        rw [if_pos hc, if_pos ⟨hmem, decide_eq_true hc⟩]
        omega
      · rw [if_neg hc]
        omega
  | settle r record =>
    refine ⟨hw.capped, hw.single, fun contractId i hentry => ?_⟩
    show Function.update w.holders r.id (.settled record) i = _ ∨ ∃ _, Function.update w.holders r.id (.settled record) i = _
    by_cases hi : i = r.id
    · rw [hi, Function.update_self]
      exact .inr ⟨record, rfl⟩
    · rw [Function.update_of_ne hi]
      exact hw.entries contractId i hentry
  | create r record =>
    exact ⟨hw.capped, hw.single, fun contractId i hentry => (hw.entries_delete _ hentry).2⟩
  | abandon _ record hins hwait =>
    have hpending := hp.pending hins
    obtain ⟨hcapped, hsingle⟩ := hw.of_passed _ (List.erase_sublist (a := (p.request.id, record.contractId)))
    refine ⟨hcapped, hsingle, fun contractId i hentry => ?_⟩
    obtain ⟨hc, hholder⟩ := hw.entries_delete _ hentry
    have hi : i ≠ p.request.id := fun hi => by
      rw [hi, hpending] at hholder
      rcases hholder with h | ⟨record', h⟩
      · exact hc (Holder.pending.inj h).symm
      · cases h
    show Function.update w.holders p.request.id .abandoned i = _ ∨ ∃ _, Function.update w.holders p.request.id .abandoned i = _
    rw [Function.update_of_ne hi]
    exact hholder

/-- A request's events are its own. -/
theorem Move.log_eq (h : Move orderly uuid maxActiveQueue w p p' w') :
    ∃ events, w'.log = w.log ++ events ∧ ∀ e ∈ events, e.request = p.request.id := by
  cases h with
  | work | stay | advance | pass | settle => exact ⟨[], (List.append_nil _).symm, fun e he => by cases he⟩
  | wait | respond | insert | create | abandon =>
    refine ⟨_, rfl, fun e he => ?_⟩
    rw [List.mem_singleton.mp he]
    rfl

theorem Fresh.insertions_snoc {i : ℕ} (h : insertions i w.log = []) {e : Event} (he : ∀ recordId, e ≠ .inserted i recordId) :
    insertions i (w.log ++ [e]) = [] := by
  rw [insertions_append, h, List.nil_append]
  cases e with
  | inserted j recordId =>
    refine List.filterMap_eq_nil_iff.mpr fun e' he' => ?_
    rw [List.mem_singleton.mp he']
    exact if_neg fun hj => he recordId (by rw [hj])
  | waits | answered => rfl

theorem Move.holds (h : Move orderly uuid maxActiveQueue w p p' w') (hw : Sound maxActiveQueue w) (hp : Holds uuid w p) :
    Holds uuid w' p' := by
  cases h with
  | work _ recordId outcome =>
    cases p with
    | received r => exact ⟨⟨hp.1.unset, find_work hp.1.none, hp.1.silent⟩, hp.2⟩
    | waiting r h => exact ⟨⟨hp.1.unset, find_work hp.1.none, hp.1.silent⟩, hp.2.logged, hp.2.unanswered, hp.2.live⟩
    | counting r b | checking r b | checked r b | finding r b =>
      have hfresh : Fresh uuid w r.id := hp
      exact ⟨hfresh.unset, find_work hfresh.none, hfresh.silent⟩
    | inserting r record =>
      obtain ⟨hholder, hmem, hid, hstatus, hnone, hsilent⟩ := hp
      exact ⟨hholder, hmem, hid, hstatus, find_work hnone, hsilent⟩
    | inserted | enqueueing | done => exact hp
  | stay => exact hp
  | advance _ _ hearly hchecks hrequest =>
    have hfresh := hp.fresh hearly
    rw [← hrequest] at hfresh
    cases p' with
    | counting r b | checking r b | checked r b | finding r b => exact hfresh
    | received | waiting | inserting | inserted | enqueueing | done => cases hchecks
  | wait r contractId h hentry =>
    obtain ⟨hfresh, hsilent⟩ := hp
    refine ⟨⟨hfresh.unset, hfresh.none, Fresh.insertions_snoc hfresh.silent fun _ h => by cases h⟩, ?_, fun code hmem => ?_, ?_⟩
    · exact List.mem_append_right _ (List.mem_singleton_self _)
    · rcases List.mem_append.mp hmem with hmem | hmem
      · exact hsilent _ hmem rfl
      · cases List.mem_singleton.mp hmem
    · rcases hw.entries contractId h hentry with h' | ⟨record, h'⟩
      · show (w.holders h).Live
        rw [h']
        trivial
      · show (w.holders h).Live
        rw [h']
        trivial
  | respond _ response hearly hresponse =>
    have hfresh := hp.fresh hearly
    refine ⟨fun contractId h => ?_, fun record h => absurd h (hresponse record)⟩
    have hunset : w.holders p.request.id = .pending contractId := h
    rw [hfresh.unset] at hunset
    cases hunset
  | pass r b now hpass =>
    have hfresh : Fresh uuid w r.id := hp
    refine ⟨Function.update_self .., ?_, rfl, rfl, hfresh.none, hfresh.silent⟩
    exact List.mem_append_right _ (List.mem_singleton_self _)
  | insert r record =>
    obtain ⟨hholder, -, -, -, -, hsilent⟩ := hp
    refine ⟨hholder, ?_⟩
    show insertions r.id (w.log ++ [_]) = _
    rw [insertions_append, hsilent]
    simp [insertions]
  | settle r record =>
    obtain ⟨-, hinserted⟩ := hp
    exact ⟨Function.update_self .., hinserted⟩
  | create r record =>
    obtain ⟨hholder, hinserted⟩ := hp
    refine ⟨fun contractId h => ?_, fun record' h => ?_⟩
    · have hpending : w.holders r.id = .pending contractId := h
      rw [hholder] at hpending
      cases hpending
    · obtain rfl := Response.created.inj h
      show insertions r.id (w.log ++ [_]) = _
      rw [insertions_append, hinserted]
      rfl
  | abandon _ record hins hwait =>
    refine ⟨fun contractId h => ?_, fun record' h => by cases h⟩
    have habandoned : Function.update w.holders p.request.id .abandoned p.request.id = .pending contractId := h
    rw [Function.update_self] at habandoned
    cases habandoned

/-! What a step leaves to the other requests. -/

theorem Move.holders_other (h : Move orderly uuid maxActiveQueue w p p' w') {i : ℕ} (hi : i ≠ p.request.id) :
    w'.holders i = w.holders i := by
  cases h with
  | work | stay | advance | wait | respond | insert | create => rfl
  | pass | settle | abandon => exact Function.update_of_ne hi _ _

/-- A holder on which a request waits stays alive. -/
theorem Move.live_other (h : Move orderly uuid maxActiveQueue w p p' w') (hG : orderly) {i k : ℕ} (hwaits : Waits w i k) : (w'.holders k).Live := by
  by_cases hk : k = p.request.id
  · cases h with
    | work | stay | advance | wait | respond | insert | create => exact hwaits.live
    | pass r b now hpass =>
      rw [hk]
      show (Function.update w.holders r.id (.pending b.contractId) r.id).Live
      rw [Function.update_self]
      trivial
    | settle r record =>
      rw [hk]
      show (Function.update w.holders r.id (.settled record) r.id).Live
      rw [Function.update_self]
      trivial
    | abandon _ record hins hwait =>
      obtain ⟨code, hanswered⟩ := hwait hG i (hk ▸ hwaits.logged)
      exact absurd hanswered (hwaits.unanswered code)
  · rw [h.holders_other hk]
    exact hwaits.live

theorem Move.find_other (h : Move orderly uuid maxActiveQueue w p p' w') (hp : Holds uuid w p) {id : String}
    (hid : id ≠ uuid p.request.id) (hnone : w.records.find id = none) : w'.records.find id = none := by
  cases h with
  | stay | advance | wait | respond | pass | settle | create | abandon => exact hnone
  | work recordId outcome => exact find_work hnone
  | insert r record =>
    obtain ⟨-, -, hrecord, -, -, -⟩ := hp
    have hne : record.id ≠ id := fun h => hid (h.symm.trans hrecord)
    show (w.records.put record).find id = none
    rw [Table.find_put, if_neg hne]
    exact hnone

theorem Move.passed_other (h : Move orderly uuid maxActiveQueue w p p' w') {entry : ℕ × String} (hentry : entry.1 ≠ p.request.id)
    (hmem : entry ∈ w.passed) : entry ∈ w'.passed := by
  cases h with
  | work | stay | advance | wait | respond | settle | create => exact hmem
  | pass => exact List.mem_append_left _ hmem
  | insert | abandon => exact (List.mem_erase_of_ne fun heq => hentry (congrArg Prod.fst heq)).mpr hmem

/-- Its own facts are a request's own. -/
theorem Move.holds_other (huuid : Function.Injective uuid) {q : Phase} (h : Move orderly uuid maxActiveQueue w p p' w')
    (hG : orderly) (hp : Holds uuid w p) (hq : Holds uuid w q) (hapart : Apart p q) : Holds uuid w' q := by
  obtain ⟨events, hlog, hevents⟩ := h.log_eq
  have hothers : ∀ e ∈ events, e.request ≠ q.request.id := fun e he heq => hapart ((hevents e he).symm.trans heq)
  have hholder : w'.holders q.request.id = w.holders q.request.id := h.holders_other (Ne.symm hapart)
  have hinsertions : insertions q.request.id w'.log = insertions q.request.id w.log := by
    rw [hlog, insertions_append, insertions_other hothers, List.append_nil]
  have hfresh : Fresh uuid w q.request.id → Fresh uuid w' q.request.id := fun hfresh =>
    ⟨hholder.trans hfresh.unset, h.find_other hp (fun heq => hapart (huuid heq).symm) hfresh.none,
      hinsertions.trans hfresh.silent⟩
  cases q with
  | received r =>
    refine ⟨hfresh hq.1, fun e he => ?_⟩
    rw [hlog] at he
    rcases List.mem_append.mp he with he | he
    · exact hq.2 e he
    · exact hothers e he
  | waiting r k =>
    obtain ⟨hq, hwaits⟩ := hq
    refine ⟨hfresh hq, ?_, fun code hmem => ?_, h.live_other hG hwaits⟩
    · rw [hlog]
      exact List.mem_append_left _ hwaits.logged
    · rw [hlog] at hmem
      rcases List.mem_append.mp hmem with hmem | hmem
      · exact hwaits.unanswered code hmem
      · exact hothers _ hmem rfl
  | counting r b | checking r b | checked r b | finding r b => exact hfresh hq
  | inserting r record =>
    obtain ⟨hpending, hmem, hid, hstatus, hnone, hsilent⟩ := hq
    refine ⟨hholder.trans hpending, h.passed_other (Ne.symm hapart) hmem, hid, hstatus, h.find_other hp ?_ hnone,
      hinsertions.trans hsilent⟩
    rw [hid]
    exact fun heq => hapart (huuid heq).symm
  | inserted r record => exact ⟨hholder.trans hq.1, hinsertions.trans hq.2⟩
  | enqueueing r record => exact ⟨hholder.trans hq.1, hinsertions.trans hq.2⟩
  | done r response =>
    exact ⟨fun contractId => hholder ▸ hq.1 contractId, fun record h => hinsertions.trans (hq.2 record h)⟩

variable (isUrl maxActiveQueue) in
theorem handle_stable (huuid : Function.Injective uuid) :
    Stable (handle isUrl uuid maxActiveQueue) (Orderly maxActiveQueue) (Sound maxActiveQueue) (Holds uuid) Apart where
  symm _ _ := Ne.symm
  shared _ _ _ hG hw hp := handle_move.sound hG hw hp
  own _ _ _ _ hw hp := handle_move.holds hw hp
  other _ _ _ _ hG _ hp hq hapart := handle_move.holds_other huuid hG hp hq hapart
  apart _ _ _ _ _ _ _ _ hapart := by
    unfold Apart
    rw [handle_move.request_eq]
    exact hapart

theorem Holds.inserts_of_pending {contractId : String} (h : Holds uuid w p)
    (hpending : w.holders p.request.id = .pending contractId) : ∃ record, p.Inserts record := by
  cases p with
  | inserting r record | inserted r record => exact ⟨record, rfl⟩
  | received | waiting | counting | checking | checked | finding =>
    have hunset := (h.fresh trivial).unset
    rw [hpending] at hunset
    cases hunset
  | enqueueing r record =>
    have hsettled : w.holders r.id = .settled record := h.1
    rw [show w.holders r.id = .pending contractId from hpending] at hsettled
    cases hsettled
  | done r response => exact absurd hpending (h.1 contractId)

end Steps

/-! ## Runs -/

section Runs

variable {isUrl : String → Bool} {uuid : ℕ → String} {maxActiveQueue : ℕ} {records : Records} {requests : ℕ → Json × Option (String × String)}

/-- The invariant of the requests, told apart by their numbers. -/
structure Going (uuid : ℕ → String) (maxActiveQueue : ℕ) (c : Config World Phase) : Prop where
  inv : Processes.Inv (Sound maxActiveQueue) (Holds uuid) Apart c
  ids : ∀ i, (c.procs i).request.id = i

/-- The number of a request stays its own. -/
theorem ids_step {c : Config World Phase} (hc : ∀ i, (c.procs i).request.id = i) (a : ℕ × Reply) (i : ℕ) :
    ((step (handle isUrl uuid maxActiveQueue) c a).procs i).request.id = i := by
  by_cases hi : i = a.1
  · rw [hi, procs_step_self, handle_move.request_eq, hc]
  · rw [procs_step_other hi, hc]

theorem ids_reached (schedule : List (ℕ × Reply)) (i : ℕ) :
    ((reached isUrl uuid maxActiveQueue records requests schedule).procs i).request.id = i :=
  inv_run (P := fun c : Config World Phase => ∀ i, (c.procs i).request.id = i) (fun _ a hc _ => ids_step hc a)
    (fun _ => rfl) along_true i

variable (isUrl) in
theorem going_step (huuid : Function.Injective uuid) {c : Config World Phase} (hc : Going uuid maxActiveQueue c)
    {a : ℕ × Reply} (hG : Orderly maxActiveQueue a.2 (c.procs a.1) c.shared) :
    Going uuid maxActiveQueue (step (handle isUrl uuid maxActiveQueue) c a) := by
  exact ⟨(handle_stable isUrl maxActiveQueue huuid).inv_step hc.inv a hG, ids_step hc.ids a⟩

theorem going_start (hrecords : ∀ i, records.find (uuid i) = none) (hcapped : countActive records ≤ maxActiveQueue)
    (hsingle : ∀ contractId, activeFor records contractId ≤ 1) :
    Going uuid maxActiveQueue (start records requests) where
  inv :=
    { shared := ⟨hcapped, hsingle, fun _ _ h => by cases h⟩
      own := fun i => ⟨⟨rfl, hrecords i, rfl⟩, fun _ h => by cases h⟩
      apart := fun _ _ hij => hij }
  ids _ := rfl

variable {c : Config World Phase} {i h : ℕ} {r : Request}

/-- A settled holder answers. -/
theorem answers_settled (record : VerificationRecordInternal) (hwaiting : c.procs i = .waiting r h)
    (hsettled : c.shared.holders h = .settled record) :
    ((step (handle isUrl uuid maxActiveQueue) c (i, .succeeds 0)).procs i).IsDone := by
  rw [procs_step_self]
  simp only [handle, proceed, hwaiting, hsettled]
  trivial

/-- So does one whose record is inserted, once its request goes on. -/
theorem answers_inserted (s : Request) (record : VerificationRecordInternal) (hwaiting : c.procs i = .waiting r h)
    (hinserted : c.procs h = .inserted s record) (hid : s.id = h) :
    ((run (step (handle isUrl uuid maxActiveQueue)) c [(h, .succeeds 0), (i, .succeeds 0)]).procs i).IsDone := by
  have hne : i ≠ h := fun hi => by
    rw [hi, hinserted] at hwaiting
    cases hwaiting
  rw [run_cons, run_cons, run_nil]
  refine answers_settled record (r := r) (h := h) ?_ ?_
  · rw [procs_step_other hne]
    exact hwaiting
  · simp only [step, handle, proceed, hinserted]
    rw [hid, Function.update_self]

variable (isUrl) in
theorem answers_waiting (hc : Going uuid maxActiveQueue c) (hwaiting : c.procs i = .waiting r h) :
    ∃ more, ((run (step (handle isUrl uuid maxActiveQueue)) c more).procs i).IsDone := by
  have hown := hc.inv.own i
  rw [hwaiting] at hown
  have hlive := hown.2.live
  cases hholder : c.shared.holders h with
  | unset | abandoned =>
    rw [hholder] at hlive
    cases hlive
  | settled record => exact ⟨[(i, .succeeds 0)], answers_settled record hwaiting hholder⟩
  | pending contractId =>
    obtain ⟨record, hinserts⟩ := (hc.inv.own h).inserts_of_pending (by rw [hc.ids]; exact hholder)
    have hid := hc.ids h
    cases hphase : c.procs h with
    | inserted s record =>
      rw [hphase] at hid
      exact ⟨_, answers_inserted s record hwaiting hphase hid⟩
    | inserting s record =>
      rw [hphase] at hid
      have hne : i ≠ h := fun hi => by
        rw [hi, hphase] at hwaiting
        cases hwaiting
      refine ⟨[(h, .succeeds 0), (h, .succeeds 0), (i, .succeeds 0)], ?_⟩
      rw [run_cons]
      refine answers_inserted s record (r := r) (h := h) ?_ ?_ hid
      · rw [procs_step_other hne]
        exact hwaiting
      · rw [procs_step_self]
        simp only [handle, proceed, hphase]
    | received | waiting | counting | checking | checked | finding | enqueueing | done =>
      rw [hphase] at hinserts
      cases hinserts

/-- A request that waits on an abandoned holder is never answered. -/
theorem waits_for_ever (hids : ∀ i, (c.procs i).request.id = i) (hwaiting : c.procs i = .waiting r h) {s : Request}
    {response : Response} (hdone : c.procs h = .done s response) (habandoned : c.shared.holders h = .abandoned)
    (more : List (ℕ × Reply)) :
    (run (step (handle isUrl uuid maxActiveQueue)) c more).procs i = .waiting r h := by
  induction more generalizing c with
  | nil => exact hwaiting
  | cons a more ih =>
    obtain ⟨j, x⟩ := a
    rw [run_cons]
    refine ih (ids_step hids _) ?_ ?_ ?_
    · by_cases hi : i = j
      · subst hi
        rw [procs_step_self]
        cases x <;> simp only [handle, proceed, fail, hwaiting, habandoned]
      · rw [procs_step_other hi]
        exact hwaiting
    · by_cases hh : h = j
      · subst hh
        rw [procs_step_self]
        cases x <;> simp only [handle, proceed, fail, hdone]
      · rw [procs_step_other hh]
        exact hdone
    · by_cases hh : h = j
      · subst hh
        cases x <;> simpa only [step, handle, proceed, fail, hdone] using habandoned
      · have hne : h ≠ (c.procs j).request.id := by
          rw [hids]
          exact hh
        exact (handle_move.holders_other hne).trans habandoned

/-- **The intake keeps its limits in every run of orderly steps**, from any store within them; `randomUUID` repeats no id. -/
theorem intake_held (huuid : Function.Injective uuid) (hrecords : ∀ i, records.find (uuid i) = none)
    (hcapped : countActive records ≤ maxActiveQueue) (hsingle : ∀ contractId, activeFor records contractId ≤ 1)
    {schedule : List (ℕ × Reply)}
    (horderly : Along (step (handle isUrl uuid maxActiveQueue))
      (fun c a => Orderly maxActiveQueue a.2 (c.procs a.1) c.shared) (start records requests) schedule) :
    IntakeHeld isUrl uuid maxActiveQueue records requests schedule := by
  have hgoing : ∀ pre, pre <+: schedule → Going uuid maxActiveQueue
      (reached isUrl uuid maxActiveQueue records requests pre) :=
    inv_prefix (P := Going uuid maxActiveQueue) (fun c a hc hG => going_step isUrl huuid hc hG)
      (going_start hrecords hcapped hsingle) horderly
  refine ⟨fun pre hpre contractId => ?_, fun pre hpre => ?_, fun i r record hdone => ?_, fun pre hpre i r h hwaiting => ?_⟩
  · exact le_trans (Nat.le_add_right _ _) ((hgoing pre hpre).inv.shared.single contractId)
  · exact le_trans (Nat.le_add_right _ _) (hgoing pre hpre).inv.shared.capped
  · have hc := hgoing schedule (List.prefix_refl _)
    have hown := hc.inv.own i
    have hid := hc.ids i
    rw [hdone] at hown hid
    obtain rfl : r.id = i := hid
    exact hown.2 record rfl
  · obtain ⟨more, hmore⟩ := answers_waiting isUrl (hgoing pre hpre) hwaiting
    refine ⟨more, ?_⟩
    rw [reached, run_append]
    exact hmore

end Runs

/-! Repo submissions for one contract each. -/

def bodyFor (contractId : String) : Json := .obj
  [("contractId", .str contractId), ("sourceType", .str "repo"), ("repoUrl", .str "https://example.com/repo"),
    ("commitHash", .str "0123abc"), ("toolchainVersion", .str "1.81.0")]

def contractA : String := "CBZVS2ETJKCIMRRWUHTZFVMWDACJNYUZ54JIXUJCHXNBFNXELKTSWHGP"

def contractB : String := "CDLZFC3SYJYDZT7K67VZ75HPJVIEUVNIXF47ZG2FB2RMQQVU2HHGCYSC"

def submitted (contractId : String) : SubmitBody :=
  ⟨contractId, .repo, some "https://example.com/repo", some "0123abc", none, "1.81.0", none, none⟩

def requestsFor (contracts : ℕ → String) (i : ℕ) : Json × Option (String × String) := (bodyFor (contracts i), none)

/-- As many letters as the request's number. -/
def lettersId (i : ℕ) : String := String.ofList (List.replicate i 'a')

theorem lettersId_injective : Function.Injective lettersId := fun i j h => by
  have hlength := congrArg List.length (String.ofList_injective h)
  rwa [List.length_replicate, List.length_replicate] at hlength

def anyUrl (_ : String) : Bool := true

/-- So many steps of a request; the fourth passes its checks, the fifth inserts. -/
def steps (i n : ℕ) : List (ℕ × Reply) := List.replicate n (i, .succeeds 0)

theorem submitBody_for :
    submitBody anyUrl (bodyFor contractA) = some (submitted contractA) ∧
      submitBody anyUrl (bodyFor contractB) = some (submitted contractB) := by
  decide +kernel

/-- The second request waits on the first, and is answered by its record. -/
theorem intake_held_alone :
    IntakeHeld anyUrl lettersId 1 Table.empty (requestsFor fun _ => contractA)
      (steps 0 4 ++ steps 1 1 ++ steps 0 2 ++ steps 1 1) := by
  refine intake_held lettersId_injective (fun _ => rfl) (Nat.zero_le _) (fun _ => Nat.zero_le _) ?_
  obtain ⟨hbody, -⟩ := submitBody_for
  have hempty : (Table.empty : Records).rows = [] := rfl
  have hpass : StillPasses 1 (submitted contractA).contractId ⟨Table.empty, fun _ => none, fun _ => .unset, [], []⟩ :=
    ⟨Nat.zero_lt_one, rfl, fun _ => List.not_mem_nil⟩
  simp [steps, List.replicate, Along, step, start, handle, proceed, requestsFor, receive, hbody, countActive, hasActiveForContract,
    hempty, Orderly, pass, hpass, World.add, submittedRecord]

/-- Two requests past the map insert two records for one contract; two of two contracts exceed a queue of one; and a request
waits for ever on one whose insert failed. -/
theorem intake_not_held :
    (¬ IntakeHeld anyUrl lettersId 10 Table.empty (requestsFor fun _ => contractA)
      (steps 0 3 ++ steps 1 5 ++ steps 0 2)) ∧
    (¬ IntakeHeld anyUrl lettersId 1 Table.empty (requestsFor fun i => if i = 0 then contractA else contractB)
      (steps 0 3 ++ steps 1 5 ++ steps 0 2)) ∧
    ¬ IntakeHeld anyUrl lettersId 10 Table.empty (requestsFor fun _ => contractA)
      (steps 0 4 ++ [(1, .succeeds 0), (0, .fails)]) := by
  refine ⟨fun h => ?_, fun h => ?_, fun h => ?_⟩
  · exact absurd (h.single _ (List.prefix_refl _) contractA) (by decide +kernel)
  · exact absurd (h.capped _ (List.prefix_refl _)) (by decide +kernel)
  · obtain ⟨hbody, -⟩ := submitBody_for
    have hempty : (Table.empty : Records).rows = [] := rfl
    have hc : ∃ c, reached anyUrl lettersId 10 Table.empty (requestsFor fun _ => contractA)
        (steps 0 4 ++ [(1, .succeeds 0), (0, .fails)]) = c ∧ (∃ r, c.procs 1 = .waiting r 0) ∧
        (∃ s response, c.procs 0 = .done s response) ∧ c.shared.holders 0 = .abandoned := by
      refine ⟨_, rfl, ?_⟩
      simp [reached, steps, List.replicate, step, start, handle, proceed, fail, requestsFor, receive, hbody, countActive,
        hasActiveForContract, hempty, pass, World.abandon, World.finish, World.respond, World.add, submittedRecord]
    obtain ⟨c, rfl, ⟨r, hwaiting⟩, ⟨s, response, hdone⟩, habandoned⟩ := hc
    obtain ⟨more, hmore⟩ := h.answered _ (List.prefix_refl _) 1 r 0 hwaiting
    rw [reached, run_append, ← reached, waits_for_ever (ids_reached _) hwaiting hdone habandoned] at hmore
    cases hmore

end Vellar.Verification
