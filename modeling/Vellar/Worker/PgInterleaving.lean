import Vellar.Worker.PgJobStore

/-!
# Vellar.Worker.PgInterleaving — workers and reapers, statement by statement

Any number of processes work on one table.  A claim is one statement; `complete` and `reapStranded` are a
select and then updates by id, and between the two the other processes take their statements.  `Call` is
what a process has selected and not yet written.  `terminal_iff_guarded`: along a run, no completed row is
reopened and no outcome is written twice exactly when every update finds its row not yet completed.
-/

set_option autoImplicit false

namespace Vellar.Worker.PgInterleaving

open Machine PgJobStore

/-- Where a process stands in its call. -/
inductive Call where
  | idle
  | completing (recordId : String) (status : Verdict) (now : ℤ) (updated : VerificationRecordInternal)
  | reaping (maxAttempts : ℕ) (now : ℤ) (list : List StrandedRow)

structure State where
  table : Store
  calls : ℕ → Call

def start (table : Store) : State := ⟨table, fun _ => .idle⟩

/-- A statement of a process; `stop` is a crash between two statements. -/
inductive Stmt where
  | claimSubmitted (limit : ℕ) (ids : List String) (now : ℤ)
  | completeSelect (recordId : String) (result : VerificationOutcome) (now : ℤ)
  | reapSelect (timeoutMs : ℤ) (maxAttempts : ℕ) (now : ℤ)
  | update
  | stop

/-- The call after the select of `complete`. -/
def completeCall (t : Store) (recordId : String) (result : VerificationOutcome) (now : ℤ) : Call :=
  match completeSelect t recordId with
  | none => .idle
  | some current => .completing recordId result.status now (completeRecord current result now)

/-- The next update of a call. -/
def updateCall (t : Store) : Call → Store × Call
  | .idle => (t, .idle)
  | .completing recordId status now updated => (completeUpdate t recordId status now updated, .idle)
  | .reaping _ _ [] => (t, .idle)
  | .reaping maxAttempts now (row :: rows) => (reapUpdate t maxAttempts now row, .reaping maxAttempts now rows)

/-- Process `p` takes a statement. -/
def step (s : State) : ℕ × Stmt → State
  | (_, .claimSubmitted _ ids now) => { s with table := claimUpdate s.table ids now }
  | (p, .completeSelect recordId result now) =>
    { s with calls := Function.update s.calls p (completeCall s.table recordId result now) }
  | (p, .reapSelect timeoutMs maxAttempts now) =>
    { s with calls := Function.update s.calls p (.reaping maxAttempts now (reapSelect s.table timeoutMs now)) }
  | (p, .update) =>
    { table := (updateCall s.table (s.calls p)).1
      calls := Function.update s.calls p (updateCall s.table (s.calls p)).2 }
  | (p, .stop) => { s with calls := Function.update s.calls p .idle }

/-- A claim takes submitted rows, whichever the locks of the others leave it. -/
def Possible (s : State) : ℕ × Stmt → Prop
  | (_, .claimSubmitted limit ids _) => Claims s.table limit ids
  | _ => True

instance (s : State) : (op : ℕ × Stmt) → Decidable (Possible s op)
  | (_, .claimSubmitted limit ids _) => inferInstanceAs (Decidable (Claims s.table limit ids))
  | (_, .completeSelect _ _ _) | (_, .reapSelect _ _ _) | (_, .update) | (_, .stop) => isTrue trivial

/-! ## What must hold of a run -/

/-- The row has a verdict. -/
def Completed (t : Store) (id : String) : Prop := ∃ row, t.find id = some row ∧ row.status.IsTerminal

/-- No completed row is queued, built or dead-lettered later. -/
def NeverReopened (s : State) (ops : List (ℕ × Stmt)) : Prop :=
  ∀ pre mid, pre ++ mid <+: ops → ∀ id, Completed (run step s pre).table id →
    ∀ row, (run step s (pre ++ mid)).table.find id = some row →
      row.status ≠ .submitted ∧ row.status ≠ .building ∧ row.status ≠ .deadLetter

/-- The row whose outcome the statement writes. -/
def outcomeWritten (s : State) : ℕ × Stmt → List String
  | (p, .update) =>
    match s.calls p with
    | .completing recordId _ _ _ => if (s.table.find recordId).isSome then [recordId] else []
    | _ => []
  | _ => []

/-- No outcome is written by two completes. -/
def WrittenOnce (s : State) (ops : List (ℕ × Stmt)) : Prop := (logOf step outcomeWritten s ops).Nodup

/-- The row the next update of a call names. -/
def target : Call → Option String
  | .completing recordId _ _ _ => some recordId
  | .reaping _ _ (row :: _) => some row.id
  | _ => none

/-- An update finds its row without a verdict. -/
def Guarded (s : State) : ℕ × Stmt → Prop
  | (p, .update) => ∀ id, target (s.calls p) = some id → ¬ Completed s.table id
  | _ => True

/-! ## One statement -/

/-- The rows a call is going to write. -/
def names : Call → List String
  | .idle => []
  | .completing recordId _ _ _ => [recordId]
  | .reaping _ _ list => list.map StrandedRow.id

section Step

variable {s : State} {t : Store} {id : String}

theorem completed_of_find {t' : Store} {f : Row → Row} (hfind : t'.find id = (t.find id).map f)
    (hf : ∀ row, t.find id = some row → row.status.IsTerminal → (f row).status.IsTerminal)
    (h : Completed t id) : Completed t' id := by
  obtain ⟨row, hrow, hterm⟩ := h
  exact ⟨f row, by rw [hfind, hrow, Option.map_some], hf row hrow hterm⟩

theorem isTerminal_toStatus (v : Verdict) : v.toStatus.IsTerminal := by
  cases v
  · exact Or.inl rfl
  · exact Or.inr rfl

theorem not_isTerminal_reapStatus (maxAttempts : ℕ) (attempts : Option ℤ) :
    ¬ (reapStatus maxAttempts attempts).IsTerminal := by
  unfold reapStatus
  split_ifs <;> decide

/-- A claim takes submitted rows. -/
theorem claimed_submitted {limit : ℕ} {ids : List String} (hclaim : Claims t limit ids) {row : Row}
    (hrow : t.find id = some row) (hmem : row.id ∈ ids) : row.status = .submitted := by
  obtain ⟨row', hrow', hid⟩ := List.mem_map.mp (hclaim.submitted _ hmem)
  obtain ⟨hrows, hsub⟩ := mem_submittedRows.mp hrow'
  obtain ⟨hin, -⟩ := Table.mem_of_find hrow
  have hsame : row' = row := by
    have h1 := Table.find_of_mem hrows
    rw [hid, Table.find_of_mem hin] at h1
    exact (Option.some.inj h1).symm
  rwa [← hsame]

/-- A row with a verdict is not one a claim takes. -/
theorem not_claimed {limit : ℕ} {ids : List String} (hclaim : Claims t limit ids) {row : Row}
    (hrow : t.find id = some row) (hterm : row.status.IsTerminal) : row.id ∉ ids := by
  intro hmem
  rw [claimed_submitted hclaim hrow hmem] at hterm
  exact absurd hterm (by decide)

/-- **Step**: a guarded statement leaves the verdicts. -/
theorem completed_step {op : ℕ × Stmt} (hop : Possible s op) (hg : Guarded s op) (h : Completed s.table id) :
    Completed (step s op).table id := by
  obtain ⟨p, stmt⟩ := op
  cases stmt with
  | claimSubmitted limit ids now =>
    refine completed_of_find find_claimUpdate (fun row hrow hterm => ?_) h
    rw [if_neg (not_claimed hop hrow hterm)]
    exact hterm
  | completeSelect recordId result now => exact h
  | reapSelect timeoutMs maxAttempts now => exact h
  | stop => exact h
  | update =>
    have hne : ∀ id', target (s.calls p) = some id' → ∀ row, s.table.find id = some row → row.id ≠ id' := by
      intro id' htar row hrow heq
      obtain ⟨-, rfl⟩ := Table.mem_of_find hrow
      exact hg id' htar (heq ▸ h)
    show Completed (updateCall s.table (s.calls p)).1 id
    cases hcall : s.calls p with
    | idle => exact h
    | completing recordId status now updated =>
      refine completed_of_find find_completeUpdate (fun row hrow hterm => ?_) h
      rw [if_neg (hne recordId (by rw [hcall]; rfl) row hrow)]
      exact hterm
    | reaping maxAttempts now list =>
      cases list with
      | nil => exact h
      | cons sel rest =>
        refine completed_of_find find_reapUpdate (fun row hrow hterm => ?_) h
        rw [if_neg (hne sel.id (by rw [hcall]; rfl) row hrow)]
        exact hterm

/-- What a statement that writes an outcome is: the update of a complete whose row is there. -/
theorem outcomeWritten_cases (s : State) (op : ℕ × Stmt) :
    outcomeWritten s op = [] ∨ ∃ p id status now updated row,
      op = (p, .update) ∧ s.calls p = .completing id status now updated ∧ s.table.find id = some row ∧
        outcomeWritten s op = [id] := by
  obtain ⟨p, stmt⟩ := op
  cases stmt with
  | update =>
    cases hcall : s.calls p with
    | completing id status now updated =>
      cases hfind : s.table.find id with
      | none => exact Or.inl (by simp [outcomeWritten, hcall, hfind])
      | some row =>
        exact Or.inr ⟨p, id, status, now, updated, row, rfl, hcall, hfind, by simp [outcomeWritten, hcall, hfind]⟩
    | idle | reaping => exact Or.inl (by simp [outcomeWritten, hcall])
  | claimSubmitted | completeSelect | reapSelect | stop => exact Or.inl rfl

/-- The update of a complete leaves the row with a verdict. -/
theorem completed_update {p : ℕ} {status : Verdict} {now : ℤ} {updated : VerificationRecordInternal} {row : Row}
    (hcall : s.calls p = .completing id status now updated) (hfind : s.table.find id = some row) :
    Completed (step s (p, .update)).table id := by
  obtain ⟨-, rfl⟩ := Table.mem_of_find hfind
  refine ⟨completeRow status now updated row, ?_, isTerminal_toStatus status⟩
  show (updateCall s.table (s.calls p)).1.find row.id = _
  rw [hcall]
  show (completeUpdate s.table row.id status now updated).find row.id = _
  rw [find_completeUpdate, hfind, Option.map_some, if_pos rfl]

end Step

/-! ## The updates in flight -/

/-- A completed row that an update in flight names was completed by the run. -/
def Accounted (s : State) (written : List String) : Prop :=
  ∀ p id, id ∈ names (s.calls p) → Completed s.table id → id ∈ written

section InFlight

variable {s : State} {t : Store} {id : String} {written : List String}

theorem completed_before {t' : Store} {f : Row → Row} (hfind : t'.find id = (t.find id).map f)
    (hf : ∀ row, t.find id = some row → (f row).status.IsTerminal → row.status.IsTerminal)
    (h : Completed t' id) : Completed t id := by
  obtain ⟨row', hrow', hterm⟩ := h
  rw [hfind, Option.map_eq_some_iff] at hrow'
  obtain ⟨row, hrow, rfl⟩ := hrow'
  exact ⟨row, hrow, hf row hrow hterm⟩

theorem not_completed_of_building {row : Row} (hrow : t.find id = some row) (hb : row.status = .building) :
    ¬ Completed t id := by
  rintro ⟨row', hrow', hterm⟩
  rw [hrow] at hrow'
  cases hrow'
  rw [hb] at hterm
  exact absurd hterm (by decide)

/-- What a call has just selected is building. -/
theorem not_completed_completeCall {recordId : String} {result : VerificationOutcome} {now : ℤ}
    (h : id ∈ names (completeCall t recordId result now)) : ¬ Completed t id := by
  unfold completeCall at h
  cases hsel : completeSelect t recordId with
  | none => simp [hsel, names] at h
  | some current =>
    obtain ⟨row, hrow, hb, -⟩ := completeSelect_eq_some.mp hsel
    rw [hsel] at h
    obtain rfl : id = recordId := by simpa [names] using h
    exact not_completed_of_building hrow hb

theorem not_completed_reapSelect {timeoutMs now : ℤ} {maxAttempts : ℕ}
    (h : id ∈ names (.reaping maxAttempts now (reapSelect t timeoutMs now))) : ¬ Completed t id := by
  obtain ⟨sel, hsel, rfl⟩ := List.mem_map.mp h
  obtain ⟨row, hrow, rfl⟩ := List.mem_map.mp hsel
  obtain ⟨hmem, hstr⟩ := List.mem_filter.mp hrow
  have hstr' : Stranded timeoutMs now row := by simpa using hstr
  exact not_completed_of_building (Table.find_of_mem hmem) hstr'.1

/-- An update leaves less to write. -/
theorem names_updateCall {c : Call} (h : id ∈ names (updateCall t c).2) : id ∈ names c := by
  cases c with
  | idle => exact h
  | completing => simp [updateCall, names] at h
  | reaping maxAttempts now list =>
    cases list with
    | nil => simp [updateCall, names] at h
    | cons row rows => exact List.mem_cons_of_mem _ h

/-- After the update of a call: what it completed, and what was completed before. -/
theorem completed_updateCall {p : ℕ} (h : Completed (updateCall s.table (s.calls p)).1 id) :
    Completed s.table id ∨ id ∈ outcomeWritten s (p, .update) := by
  cases hcall : s.calls p with
  | idle =>
    rw [hcall] at h
    exact Or.inl h
  | completing recordId status now updated =>
    rw [hcall] at h
    by_cases hid : id = recordId
    · obtain ⟨row', hrow', -⟩ := h
      rw [show updateCall s.table (.completing recordId status now updated) =
        (completeUpdate s.table recordId status now updated, .idle) from rfl, find_completeUpdate,
        Option.map_eq_some_iff] at hrow'
      obtain ⟨row, hrow, -⟩ := hrow'
      exact Or.inr (by simp [outcomeWritten, hcall, ← hid, hrow])
    · refine Or.inl (completed_before find_completeUpdate (fun row hrow hterm => ?_) h)
      obtain ⟨-, rfl⟩ := Table.mem_of_find hrow
      rwa [if_neg hid] at hterm
  | reaping maxAttempts now list =>
    rw [hcall] at h
    cases list with
    | nil => exact Or.inl h
    | cons sel rest =>
      refine Or.inl (completed_before find_reapUpdate (fun row hrow hterm => ?_) h)
      split_ifs at hterm
      · exact absurd hterm (not_isTerminal_reapStatus _ _)
      · exact hterm

theorem names_update {p q : ℕ} {c : Call} (h : id ∈ names (Function.update s.calls p c q)) :
    (q = p ∧ id ∈ names c) ∨ id ∈ names (s.calls q) := by
  by_cases hq : q = p
  · rw [hq, Function.update_self] at h
    exact Or.inl ⟨hq, h⟩
  · rw [Function.update_of_ne hq] at h
    exact Or.inr h

theorem accounted_step {op : ℕ × Stmt} (h : Accounted s written) :
    Accounted (step s op) (written ++ outcomeWritten s op) := by
  obtain ⟨p, stmt⟩ := op
  intro q id hname hdone
  refine List.mem_append.mpr ?_
  cases stmt with
  | claimSubmitted limit ids now =>
    refine Or.inl (h q id hname (completed_before find_claimUpdate (fun row _ hterm => ?_) hdone))
    split_ifs at hterm
    · exact absurd hterm (show ¬ VerificationStatus.building.IsTerminal by decide)
    · exact hterm
  | completeSelect recordId result now =>
    rcases names_update hname with ⟨-, hnew⟩ | hold
    · exact absurd hdone (not_completed_completeCall hnew)
    · exact Or.inl (h q id hold hdone)
  | reapSelect timeoutMs maxAttempts now =>
    rcases names_update hname with ⟨-, hnew⟩ | hold
    · exact absurd hdone (not_completed_reapSelect hnew)
    · exact Or.inl (h q id hold hdone)
  | stop =>
    rcases names_update hname with ⟨-, hnew⟩ | hold
    · simp [names] at hnew
    · exact Or.inl (h q id hold hdone)
  | update =>
    have hnamed : id ∈ names (s.calls q) := by
      rcases names_update hname with ⟨rfl, hnew⟩ | hold
      · exact names_updateCall hnew
      · exact hold
    rcases completed_updateCall hdone with hbefore | hwritten
    · exact Or.inl (h q id hnamed hbefore)
    · exact Or.inr hwritten

end InFlight

/-! ## Runs -/

/-- The outcomes written so far, each once, and each row still with its verdict. -/
structure Kept (s : State) (written : List String) : Prop where
  nodup : written.Nodup
  completed : ∀ id ∈ written, Completed s.table id

theorem kept_step {s : State} {written : List String} {op : ℕ × Stmt} (h : Kept s written)
    (hop : Possible s op ∧ Guarded s op) : Kept (step s op) (written ++ outcomeWritten s op) := by
  have hold : ∀ id ∈ written, Completed (step s op).table id := fun id hid =>
    completed_step hop.1 hop.2 (h.completed id hid)
  rcases outcomeWritten_cases s op with hnil | ⟨p, id, status, now, updated, row, rfl, hcall, hfind, heq⟩
  · rw [hnil, List.append_nil]
    exact ⟨h.nodup, hold⟩
  · have hnew : id ∉ written := fun hid => hop.2 id (by rw [hcall]; rfl) (h.completed id hid)
    rw [heq]
    refine ⟨?_, fun id' hid' => ?_⟩
    · rw [← List.concat_eq_append]
      exact h.nodup.concat hnew
    · rcases List.mem_append.mp hid' with hid' | hid'
      · exact hold id' hid'
      · rw [List.mem_singleton.mp hid']
        exact completed_update hcall hfind

theorem not_reopened {t : Store} {id : String} {row : Row} (h : Completed t id) (hrow : t.find id = some row) :
    row.status ≠ .submitted ∧ row.status ≠ .building ∧ row.status ≠ .deadLetter := by
  obtain ⟨row', hrow', hterm⟩ := h
  rw [hrow] at hrow'
  cases hrow'
  rcases hterm with hs | hs <;> simp [hs]

theorem reapStatus_cases (maxAttempts : ℕ) (attempts : Option ℤ) :
    reapStatus maxAttempts attempts = .deadLetter ∨ reapStatus maxAttempts attempts = .submitted := by
  unfold reapStatus
  split_ifs
  · exact Or.inl rfl
  · exact Or.inr rfl

/-- The next update of a reaper reopens its row. -/
theorem find_reaped {s : State} {p maxAttempts : ℕ} {now : ℤ} {sel : StrandedRow} {rest : List StrandedRow}
    {row : Row} (hcall : s.calls p = .reaping maxAttempts now (sel :: rest))
    (hrow : s.table.find sel.id = some row) :
    (step s (p, .update)).table.find sel.id = some (reapRow (reapStatus maxAttempts sel.attempts) now row) := by
  obtain ⟨-, hkey⟩ := Table.mem_of_find hrow
  show (updateCall s.table (s.calls p)).1.find sel.id = _
  rw [hcall]
  show (reapUpdate s.table maxAttempts now sel).find sel.id = _
  rw [find_reapUpdate, hrow, Option.map_some, if_pos hkey]

/-- In a run that keeps its verdicts, no update meets a completed row. -/
theorem guarded_of_terminal {s : State} {ops pre post : List (ℕ × Stmt)} {op : ℕ × Stmt}
    (heq : ops = pre ++ op :: post) (hnever : NeverReopened s ops) (honce : WrittenOnce s ops)
    (hacc : Accounted (run step s pre) (logOf step outcomeWritten s pre)) : Guarded (run step s pre) op := by
  obtain ⟨p, stmt⟩ := op
  cases stmt with
  | claimSubmitted | completeSelect | reapSelect | stop => trivial
  | update =>
    intro id htar hdone
    have hrow := hdone
    obtain ⟨row, hrow, -⟩ := hrow
    cases hcall : (run step s pre).calls p with
    | idle => simp [hcall, target] at htar
    | completing recordId status now updated =>
      -- The complete writes an outcome that an earlier one wrote.
      obtain rfl : recordId = id := by simpa [hcall, target] using htar
      have hearlier : recordId ∈ logOf step outcomeWritten s pre :=
        hacc p recordId (by rw [hcall]; simp [names]) hdone
      have hagain : outcomeWritten (run step s pre) (p, .update) = [recordId] := by
        simp [outcomeWritten, hcall, hrow]
      have hlog : (logOf step outcomeWritten s (pre ++ (p, .update) :: post)).Nodup := heq ▸ honce
      rw [logOf_append] at hlog
      refine List.disjoint_of_nodup_append hlog hearlier ?_
      show recordId ∈ outcomeWritten (run step s pre) (p, .update) ++ _
      rw [hagain]
      simp
    | reaping maxAttempts now list =>
      cases list with
      | nil => simp [hcall, target] at htar
      | cons sel rest =>
        obtain rfl : sel.id = id := by simpa [hcall, target] using htar
        have hbad := hnever pre [(p, .update)] ⟨post, by simp [heq]⟩ sel.id hdone _
          (by rw [run_snoc]; exact find_reaped hcall hrow)
        rcases reapStatus_cases maxAttempts sel.attempts with hs | hs
        · exact hbad.2.2 hs
        · exact hbad.1 hs

/-- **Completed rows stay completed exactly as long as updates find their row open**: along a run of
workers and reapers on any table, no completed row is reopened and no outcome is written twice if and only
if every update by id finds its row without a verdict. -/
theorem terminal_iff_guarded {t : Store} {ops : List (ℕ × Stmt)} (hrun : Along step Possible (start t) ops) :
    NeverReopened (start t) ops ∧ WrittenOnce (start t) ops ↔ Along step Guarded (start t) ops := by
  refine ⟨fun ⟨hnever, honce⟩ => ?_, fun hguard => ?_⟩
  · rw [along_iff]
    intro pre op post heq
    refine guarded_of_terminal heq hnever honce ?_
    have h0 : Accounted (start t) [] := fun p id hname => by simp [start, names] at hname
    simpa using inv_log (G := fun _ _ => True) (fun _ _ _ h _ => accounted_step h) h0 (along_true (l := pre))
  · have hboth : Along step (fun s op => Possible s op ∧ Guarded s op) (start t) ops := along_and.mpr ⟨hrun, hguard⟩
    refine ⟨?_, ?_⟩
    · rintro pre mid ⟨post, heq⟩ id hdone row hrow
      rw [← heq] at hboth
      have hmid := (along_append.mp (along_append.mp hboth).1).2
      rw [run_append] at hrow
      exact not_reopened
        (inv_run (P := fun s => Completed s.table id) (fun _ _ h hop => completed_step hop.1 hop.2 h) hdone hmid) hrow
    · have h0 : Kept (start t) [] := ⟨List.nodup_nil, by simp⟩
      have hkept := inv_log (P := Kept) (fun _ _ _ h hop => kept_step h hop) h0 hboth
      rw [List.nil_append] at hkept
      exact hkept.nodup

instance {t : Store} {id : String} : Decidable (Completed t id) :=
  decidable_of_iff ((t.find id).any fun row => row.status.IsTerminal) (by
    unfold Completed
    simp [Option.any_eq_true])

def verifiedOutcome : VerificationOutcome where
  status := .verified
  outputHash := some "aa"
  deployedHash := some "aa"
  matchMode := some .exact
  statusDetail := "Verified."
  log := ""
  isRetryable := none
  retryDelayMs := none
  retryAttempt := none

/-- A worker that is in time: the reaper comes after it. -/
def timelyOps : List (ℕ × Stmt) :=
  [(1, .claimSubmitted 1 ["r1"] 5), (1, .completeSelect "r1" verifiedOutcome 8), (1, .update),
    (2, .reapSelect 10 3 20), (2, .update)]

theorem terminal_iff_guarded_timely :
    NeverReopened (start queuedTable) timelyOps ∧ WrittenOnce (start queuedTable) timelyOps := by
  have hrun : Along step Possible (start queuedTable) timelyOps := by decide
  refine (terminal_iff_guarded hrun).mpr ⟨trivial, trivial, fun id htar => ?_, trivial, fun id htar => ?_, trivial⟩
  · obtain rfl : "r1" = id := Option.some.inj htar
    decide
  · exact absurd (htar.symm.trans (show target _ = none by decide)) (by simp)

/-- A worker that comes back while the reaper is between its select and its update: the reaper requeues the
completed row, and another worker completes it again. -/
def lateOps : List (ℕ × Stmt) :=
  [(2, .reapSelect 10 3 20), (1, .completeSelect "r1" verifiedOutcome 20), (1, .update), (2, .update),
    (3, .claimSubmitted 1 ["r1"] 21), (3, .completeSelect "r1" verifiedOutcome 22), (3, .update)]

theorem late_complete_reopened :
    Along step Possible (start strandedTable) lateOps ∧ ¬ NeverReopened (start strandedTable) lateOps ∧
    ¬ WrittenOnce (start strandedTable) lateOps := by
  refine ⟨by decide, fun hnever => ?_, show ¬ (logOf step outcomeWritten _ _).Nodup by decide⟩
  have hdone : Completed (run step (start strandedTable) (lateOps.take 3)).table "r1" := by decide
  obtain ⟨row, hrow, hsub⟩ : ∃ row, (run step (start strandedTable) (lateOps.take 3 ++ [(2, .update)])).table.find
      "r1" = some row ∧ row.status = .submitted := by
    exact ⟨_, rfl, by decide⟩
  exact (hnever _ [(2, .update)] ⟨lateOps.drop 4, rfl⟩ "r1" hdone row hrow).1 hsub

end Vellar.Worker.PgInterleaving
