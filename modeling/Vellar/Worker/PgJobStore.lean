import Vellar.Lib.Machine
import Vellar.Lib.Table
import Vellar.Worker.ImportValidation

/-!
# Vellar.Worker.PgJobStore — the Postgres job store

`services/worker-service/src/pg-job-store.ts` over the table of `verification-service/src/db/schema.ts`.
Each SQL statement is a function of the table; the store's operations are made of them.  Postgres chooses
which rows a claim takes and in which order it returns them, so a claim carries the ids it took, and
`Claims` / `FullClaim` say which choices are possible.  `status_synced_iff`: along a run the stored records
keep saying what the status column says exactly when no claim takes a row.
-/

set_option autoImplicit false

namespace Vellar.Worker.PgJobStore

open Machine

/-- A row of `verification_records`. -/
structure Row where
  id : String
  contractId : String
  status : VerificationStatus
  createdAt : ℤ
  updatedAt : ℤ
  record : VerificationRecordInternal
deriving DecidableEq

abbrev Store := Table Row.id

/-! ## Statements -/

/-- `toRow`; a record without a date does not make a row. -/
def toRow (record : VerificationRecordInternal) : Option Row :=
  match record.createdAt, record.updatedAt with
  | some createdAt, some updatedAt =>
    some ⟨record.id, record.contractId, record.status, createdAt, updatedAt, record⟩
  | _, _ => none

/-- `insert`: refused when the id is taken. -/
def insert (t : Store) (record : VerificationRecordInternal) : Store :=
  match toRow record with
  | some row => if (t.find row.id).isSome then t else t.put row
  | none => t

/-- A claimed row: the column says building, the record counts the attempt. -/
def claimRow (now : ℤ) (row : Row) : Row :=
  { row with
    status := .building
    updatedAt := now
    record := { row.record with attempts := some (row.record.attempts.getD 0 + 1) } }

theorem claimRow_id (now : ℤ) (row : Row) : (claimRow now row).id = row.id := rfl

/-- The update of `claimSubmitted`, of the rows with the ids. -/
def claimUpdate (t : Store) (ids : List String) (now : ℤ) : Store :=
  t.updateWhere (fun row => row.id ∈ ids) (claimRow now) (claimRow_id now)

/-- The select of `complete`. -/
def completeSelect (t : Store) (recordId : String) : Option VerificationRecordInternal :=
  ((t.find recordId).filter fun row => row.status = .building).map Row.record

/-- The record `complete` writes back. -/
def completeRecord (current : VerificationRecordInternal) (result : VerificationOutcome) (now : ℤ) :
    VerificationRecordInternal :=
  { current with
    status := result.status.toStatus
    outputHash := result.outputHash
    deployedHash := result.deployedHash
    matchMode := result.matchMode
    log := some result.log
    statusDetail := some result.statusDetail
    updatedAt := some now }

def completeRow (status : Verdict) (now : ℤ) (updated : VerificationRecordInternal) (row : Row) : Row :=
  { row with status := status.toStatus, updatedAt := now, record := updated }

theorem completeRow_id (status : Verdict) (now : ℤ) (updated : VerificationRecordInternal) (row : Row) :
    (completeRow status now updated row).id = row.id := rfl

/-- The update of `complete`: by id, whatever the row's status is by now. -/
def completeUpdate (t : Store) (recordId : String) (status : Verdict) (now : ℤ)
    (updated : VerificationRecordInternal) : Store :=
  t.updateWhere (fun row => row.id = recordId) (completeRow status now updated)
    (completeRow_id status now updated)

/-- What the select of `reapStranded` returns of a row. -/
structure StrandedRow where
  id : String
  attempts : Option ℤ
deriving DecidableEq

/-- The row is building, and was so before the cutoff. -/
def Stranded (timeoutMs now : ℤ) (row : Row) : Prop :=
  row.status = .building ∧ row.updatedAt < now - timeoutMs

instance (timeoutMs now : ℤ) (row : Row) : Decidable (Stranded timeoutMs now row) :=
  inferInstanceAs (Decidable (_ ∧ _))

/-- The select of `reapStranded`. -/
def reapSelect (t : Store) (timeoutMs now : ℤ) : List StrandedRow :=
  (t.rows.filter fun row => Stranded timeoutMs now row).map fun row => ⟨row.id, row.record.attempts⟩

/-- `attempts >= maxAttempts`, for the attempts a row was read with. -/
def Exhausted (maxAttempts : ℕ) (attempts : Option ℤ) : Prop := attempts.getD 0 ≥ maxAttempts

instance (maxAttempts : ℕ) (attempts : Option ℤ) : Decidable (Exhausted maxAttempts attempts) :=
  inferInstanceAs (Decidable (_ ≥ _))

/-- Where a reap leaves a row that was read with these attempts. -/
def reapStatus (maxAttempts : ℕ) (attempts : Option ℤ) : VerificationStatus :=
  if Exhausted maxAttempts attempts then .deadLetter else .submitted

def reapRow (status : VerificationStatus) (now : ℤ) (row : Row) : Row :=
  { row with status := status, updatedAt := now, record := { row.record with status := status } }

theorem reapRow_id (status : VerificationStatus) (now : ℤ) (row : Row) : (reapRow status now row).id = row.id := rfl

/-- The update of `reapStranded` for one row: by id, whatever the row's status is by now. -/
def reapUpdate (t : Store) (maxAttempts : ℕ) (now : ℤ) (row : StrandedRow) : Store :=
  t.updateWhere (fun r => r.id = row.id) (reapRow (reapStatus maxAttempts row.attempts) now)
    (reapRow_id (reapStatus maxAttempts row.attempts) now)

/-! ## Operations -/

/-- The claimed records: the valid ones as jobs, the others as reasons. -/
structure Claim where
  jobs : List ClaimedJob
  warnings : List String
deriving DecidableEq

/-- The loop of `claimSubmitted` over the returned rows. -/
def claimJobs (isUrl : String → Bool) : List Row → Claim
  | [] => ⟨[], []⟩
  | row :: rows =>
    let rest := claimJobs isUrl rows
    match validateImportedRecord isUrl row.record with
    | .ok r => { rest with jobs := toClaimedJob r r.createdAt :: rest.jobs }
    | .error reason =>
      { rest with
        warnings := ("import-validation: rejected claimed record id=" ++ row.id ++ " — " ++ reason) ::
          rest.warnings }

/-- `claimSubmitted`, the update having taken and returned the rows `ids`. -/
def claimSubmitted (isUrl : String → Bool) (t : Store) (ids : List String) (now : ℤ) : Store × Claim :=
  let t' := claimUpdate t ids now
  (t', claimJobs isUrl (ids.filterMap t'.find))

def complete (t : Store) (recordId : String) (result : VerificationOutcome) (now : ℤ) : Store :=
  match completeSelect t recordId with
  | none => t
  | some current => completeUpdate t recordId result.status now (completeRecord current result now)

/-- The loop of `reapStranded` over the selected rows. -/
def reapLoop (maxAttempts : ℕ) (now : ℤ) : Store → List StrandedRow → Store × ReapResult
  | t, [] => (t, ⟨0, 0⟩)
  | t, row :: rows =>
    let r := reapLoop maxAttempts now (reapUpdate t maxAttempts now row) rows
    if Exhausted maxAttempts row.attempts then
      (r.1, { r.2 with deadLettered := r.2.deadLettered + 1 })
    else (r.1, { r.2 with reclaimed := r.2.reclaimed + 1 })

def reapStranded (t : Store) (timeoutMs : ℤ) (maxAttempts : ℕ) (now : ℤ) : Store × ReapResult :=
  reapLoop maxAttempts now t (reapSelect t timeoutMs now)

def countActive (t : Store) : ℕ := t.rows.countP fun row => row.status.IsActive

def hasActiveForContract (t : Store) (contractId : String) : Bool :=
  t.rows.any fun row => row.contractId = contractId ∧ row.status.IsActive

/-- The watch-list entry of a row. -/
def watchEntry (row : Row) : Option WatchEntry :=
  watchEntryOf row.contractId (attestedHash row.record.matchMode row.record.outputHash row.record.deployedHash)

/-- What the inner select of `listLatestVerified` can give: of every contract with a verdict the newest row,
in any order; among rows of one instant any. -/
structure LatestPerContract (t : Store) (latest : List Row) : Prop where
  mem : ∀ row ∈ latest, row ∈ t.rows ∧ row.status.IsTerminal
  newest : ∀ row ∈ latest, ∀ row' ∈ t.rows, row'.status.IsTerminal → row'.contractId = row.contractId →
    row'.updatedAt ≤ row.updatedAt
  distinct : (latest.map Row.contractId).Nodup
  covers : ∀ row ∈ t.rows, row.status.IsTerminal → row.contractId ∈ latest.map Row.contractId

/-- `listLatestVerified`, given the rows of the inner select. -/
def listLatestVerified (latest : List Row) (limit : ℕ) : List WatchEntry :=
  ((latest.filter fun row => row.status = .verified).take limit).filterMap watchEntry

/-! ## What a claim can take -/

/-- The submitted rows of the table. -/
def submittedRows (t : Store) : List Row := t.rows.filter fun row => row.status = .submitted

/-- Any claim: at most `limit` distinct submitted rows; rows that others hold locked are skipped. -/
structure Claims (t : Store) (limit : ℕ) (ids : List String) : Prop where
  nodup : ids.Nodup
  submitted : ∀ id ∈ ids, id ∈ (submittedRows t).map Row.id
  length_le : ids.length ≤ limit

/-- A claim no one else holds a row from: it takes as many rows as it can, the oldest ones. -/
structure FullClaim (t : Store) (limit : ℕ) (ids : List String) : Prop extends Claims t limit ids where
  length_eq : ids.length = min limit (submittedRows t).length
  oldest : ∀ row ∈ submittedRows t, row.id ∈ ids →
    ∀ row' ∈ submittedRows t, row'.id ∉ ids → row.createdAt ≤ row'.createdAt

instance {t : Store} {limit : ℕ} {ids : List String} : Decidable (Claims t limit ids) :=
  decidable_of_iff (ids.Nodup ∧ (∀ id ∈ ids, id ∈ (submittedRows t).map Row.id) ∧ ids.length ≤ limit)
    ⟨fun h => ⟨h.1, h.2.1, h.2.2⟩, fun h => ⟨h.nodup, h.submitted, h.length_le⟩⟩

instance {t : Store} {limit : ℕ} {ids : List String} : Decidable (FullClaim t limit ids) :=
  decidable_of_iff (Claims t limit ids ∧ ids.length = min limit (submittedRows t).length ∧
      ∀ row ∈ submittedRows t, row.id ∈ ids →
        ∀ row' ∈ submittedRows t, row'.id ∉ ids → row.createdAt ≤ row'.createdAt)
    ⟨fun h => ⟨h.1, h.2.1, h.2.2⟩, fun h => ⟨h.toClaims, h.length_eq, h.oldest⟩⟩

/-! ## What one operation does to a row -/

section Rows

variable {t : Store} {id : String} {now : ℤ}

theorem find_claimUpdate {ids : List String} :
    (claimUpdate t ids now).find id = (t.find id).map fun row => if row.id ∈ ids then claimRow now row else row := by
  unfold claimUpdate
  rw [Table.find_updateWhere]
  simp only [decide_eq_true_eq]

theorem find_completeUpdate {recordId : String} {status : Verdict} {updated : VerificationRecordInternal} :
    (completeUpdate t recordId status now updated).find id =
      (t.find id).map fun row => if row.id = recordId then completeRow status now updated row else row := by
  unfold completeUpdate
  rw [Table.find_updateWhere]
  simp only [decide_eq_true_eq]

theorem find_reapUpdate {maxAttempts : ℕ} {row : StrandedRow} :
    (reapUpdate t maxAttempts now row).find id = (t.find id).map fun r =>
      if r.id = row.id then reapRow (reapStatus maxAttempts row.attempts) now r else r := by
  unfold reapUpdate
  rw [Table.find_updateWhere]
  simp only [decide_eq_true_eq]

theorem completeSelect_eq_some {recordId : String} {current : VerificationRecordInternal} :
    completeSelect t recordId = some current ↔
      ∃ row, t.find recordId = some row ∧ row.status = .building ∧ row.record = current := by
  unfold completeSelect
  cases h : t.find recordId with
  | none => simp
  | some row => simp [Option.filter_some]

/-- `complete` as one update of the row. -/
theorem find_complete {recordId : String} {result : VerificationOutcome} :
    (complete t recordId result now).find id = (t.find id).map fun row =>
      if row.id = recordId ∧ row.status = .building then
        completeRow result.status now (completeRecord row.record result now) row
      else row := by
  unfold complete
  cases hsel : completeSelect t recordId with
  | none =>
    cases hfind : t.find id with
    | none => simp
    | some row =>
      have hno : ¬ (row.id = recordId ∧ row.status = .building) := by
        rintro ⟨rfl, hb⟩
        obtain ⟨hmem, -⟩ := Table.mem_of_find hfind
        rw [completeSelect_eq_some.mpr ⟨row, Table.find_of_mem hmem, hb, rfl⟩] at hsel
        simp at hsel
      simp [hno]
  | some current =>
    obtain ⟨row0, hfind0, hb0, rfl⟩ := completeSelect_eq_some.mp hsel
    simp only [find_completeUpdate]
    cases hfind : t.find id with
    | none => rfl
    | some row =>
      by_cases hid : row.id = recordId
      · obtain rfl : row0 = row := by
          obtain ⟨hmem, -⟩ := Table.mem_of_find hfind
          have := Table.find_of_mem hmem
          rw [hid, hfind0] at this
          exact Option.some.inj this
        simp [hid, hb0]
      · simp [hid]

/-- The loop writes each row once, for the entry that names it. -/
theorem find_reapLoop {maxAttempts : ℕ} {list : List StrandedRow} (hnodup : (list.map StrandedRow.id).Nodup) :
    (reapLoop maxAttempts now t list).1.find id = (t.find id).map fun r =>
      match list.find? (fun row => row.id = r.id) with
      | none => r
      | some row => reapRow (reapStatus maxAttempts row.attempts) now r := by
  induction list generalizing t with
  | nil => simp [reapLoop]
  | cons row rows ih =>
    obtain ⟨hnot, hnodup'⟩ := List.nodup_cons.mp (List.map_cons ▸ hnodup)
    have hstep : (reapLoop maxAttempts now t (row :: rows)).1 =
        (reapLoop maxAttempts now (reapUpdate t maxAttempts now row) rows).1 := by
      rw [reapLoop]
      split_ifs <;> rfl
    rw [hstep, ih hnodup', find_reapUpdate, Option.map_map]
    refine congrArg (fun f => Option.map f _) (funext fun r => ?_)
    by_cases hid : r.id = row.id
    · -- Written now, and by no later entry.
      have hrest : rows.find? (fun row' => row'.id = row.id) = none := by
        rw [List.find?_eq_none]
        intro row' hrow' heq
        have heq' : row'.id = row.id := by simpa using heq
        exact hnot (heq' ▸ List.mem_map_of_mem hrow')
      have hrest' : rows.find? (fun row' => row'.id =
          (reapRow (reapStatus maxAttempts row.attempts) now r).id) = none := by
        rw [show (reapRow (reapStatus maxAttempts row.attempts) now r).id = row.id from hid]
        exact hrest
      simp only [Function.comp_apply, if_pos hid, hrest']
      rw [List.find?_cons_of_pos (by simpa using hid.symm)]
    · have hne : ¬ row.id = r.id := fun h => hid h.symm
      simp only [Function.comp_apply, if_neg hid]
      rw [List.find?_cons_of_neg (by simpa using hne)]

theorem reapSelect_nodup {timeoutMs : ℤ} : ((reapSelect t timeoutMs now).map StrandedRow.id).Nodup := by
  unfold reapSelect
  rw [List.map_map]
  exact t.nodup.sublist (List.filter_sublist.map _)

/-- `reapStranded` as one rewriting of every row. -/
theorem find_reapStranded {timeoutMs : ℤ} {maxAttempts : ℕ} :
    (reapStranded t timeoutMs maxAttempts now).1.find id = (t.find id).map fun row =>
      if Stranded timeoutMs now row then reapRow (reapStatus maxAttempts row.record.attempts) now row else row := by
  unfold reapStranded
  rw [find_reapLoop reapSelect_nodup]
  cases hfind : t.find id with
  | none => rfl
  | some row =>
    obtain ⟨hmem, -⟩ := Table.mem_of_find hfind
    rw [Option.map_some, Option.map_some]
    cases hsel : (reapSelect t timeoutMs now).find? (fun r => r.id = row.id) with
    | none =>
      have hno : ¬ Stranded timeoutMs now row := by
        intro hstr
        have := List.find?_eq_none.mp hsel ⟨row.id, row.record.attempts⟩
          (List.mem_map.mpr ⟨row, List.mem_filter.mpr ⟨hmem, by simpa using hstr⟩, rfl⟩)
        simp at this
      rw [if_neg hno]
    | some sel =>
      have hkey : sel.id = row.id := by simpa using List.find?_some hsel
      obtain ⟨row', hrow', rfl⟩ := List.mem_map.mp (List.mem_of_find?_eq_some hsel)
      obtain ⟨hmem', hstr⟩ := List.mem_filter.mp hrow'
      obtain rfl : row' = row := by
        have h1 := Table.find_of_mem hmem'
        rw [show row'.id = row.id from hkey, Table.find_of_mem hmem] at h1
        exact (Option.some.inj h1).symm
      rw [if_pos (by simpa using hstr)]

theorem reapLoop_result {maxAttempts : ℕ} {list : List StrandedRow} :
    (reapLoop maxAttempts now t list).2 =
      ⟨list.countP fun row => ¬ Exhausted maxAttempts row.attempts,
        list.countP fun row => Exhausted maxAttempts row.attempts⟩ := by
  induction list generalizing t with
  | nil => rfl
  | cons row rows ih =>
    rw [reapLoop, List.countP_cons, List.countP_cons]
    by_cases hex : Exhausted maxAttempts row.attempts
    · simp [hex, ih]
    · simp [hex, ih]

/-- `reapStranded` counts the stranded rows it requeues and those it parks. -/
theorem reapStranded_result {timeoutMs : ℤ} {maxAttempts : ℕ} :
    (reapStranded t timeoutMs maxAttempts now).2 =
      ⟨t.rows.countP fun row => Stranded timeoutMs now row ∧ ¬ Exhausted maxAttempts row.record.attempts,
        t.rows.countP fun row => Stranded timeoutMs now row ∧ Exhausted maxAttempts row.record.attempts⟩ := by
  unfold reapStranded reapSelect
  rw [reapLoop_result, List.countP_map, List.countP_map, List.countP_filter, List.countP_filter]
  refine congrArg₂ ReapResult.mk (List.countP_congr fun row _ => ?_) (List.countP_congr fun row _ => ?_)
  · simp [and_comm]
  · simp [and_comm]

theorem mem_submittedRows {row : Row} : row ∈ submittedRows t ↔ row ∈ t.rows ∧ row.status = .submitted := by
  unfold submittedRows
  simp

end Rows

/-! ## The latest record of a contract -/

/-- **The watch list follows the newest verdict**: an entry of a contract is made of the contract's row that
was completed last. -/
theorem watched_newest {t : Store} {latest : List Row} {limit : ℕ} {row : Row} (hlatest : LatestPerContract t latest)
    (hrow : row ∈ t.rows) (hterm : row.status.IsTerminal)
    (hnewest : ∀ r ∈ t.rows, r.status.IsTerminal → r.contractId = row.contractId → r.id ≠ row.id →
      r.updatedAt < row.updatedAt) {entry : WatchEntry} (hentry : entry ∈ listLatestVerified latest limit)
    (hid : entry.contractId = row.contractId) : watchEntry row = some entry := by
  obtain ⟨kept, hkept, hwatch⟩ := List.mem_filterMap.mp hentry
  obtain ⟨hkept, -⟩ := List.mem_filter.mp (List.mem_of_mem_take hkept)
  obtain ⟨hkc, -, -⟩ := watchEntryOf_eq_some.mp hwatch
  obtain ⟨hmem, hkterm⟩ := hlatest.mem kept hkept
  have hle := hlatest.newest kept hkept row hrow hterm (by rw [← hkc, hid])
  by_cases hsame : kept.id = row.id
  · have h1 := Table.find_of_mem hmem
    rw [hsame, Table.find_of_mem hrow] at h1
    rw [Option.some.inj h1]
    exact hwatch
  · have hlt := hnewest kept hmem hkterm (by rw [← hkc, hid]) hsame
    omega

/-! ## The status in the record -/

/-- An operation on the table, a claim with the rows it took. -/
inductive Op where
  | insert (record : VerificationRecordInternal)
  | claimSubmitted (limit : ℕ) (ids : List String) (now : ℤ)
  | complete (recordId : String) (result : VerificationOutcome) (now : ℤ)
  | reapStranded (timeoutMs : ℤ) (maxAttempts : ℕ) (now : ℤ)

def step (t : Store) : Op → Store
  | .insert record => PgJobStore.insert t record
  | .claimSubmitted _ ids now => claimUpdate t ids now
  | .complete recordId result now => PgJobStore.complete t recordId result now
  | .reapStranded timeoutMs maxAttempts now => (PgJobStore.reapStranded t timeoutMs maxAttempts now).1

/-- The database can take this step. -/
def Possible (t : Store) : Op → Prop
  | .claimSubmitted limit ids _ => FullClaim t limit ids
  | _ => True

instance (t : Store) : (op : Op) → Decidable (Possible t op)
  | .claimSubmitted limit ids _ => inferInstanceAs (Decidable (FullClaim t limit ids))
  | .insert _ | .complete _ _ _ | .reapStranded _ _ _ => isTrue trivial

/-- Every stored record says what its status column says. -/
def Synced (t : Store) : Prop := ∀ row ∈ t.rows, row.record.status = row.status

instance (t : Store) : Decidable (Synced t) := inferInstanceAs (Decidable (∀ row ∈ t.rows, _))

/-- A claim finds no row to take. -/
def TakesNothing (t : Store) : Op → Prop
  | .claimSubmitted limit _ _ => limit = 0 ∨ submittedRows t = []
  | _ => True

section Synced

variable {t : Store}

theorem synced_iff_find : Synced t ↔ ∀ id row, t.find id = some row → row.record.status = row.status := by
  refine ⟨fun h id row hfind => h row (Table.mem_of_find hfind).1, fun h row hrow => ?_⟩
  exact h row.id row (Table.find_of_mem hrow)

/-- A statement that rewrites rows keeps the table in sync if it keeps each row in sync. -/
theorem synced_of_map {t' : Store} {f : Row → Row} (ht : Synced t)
    (hfind : ∀ id, t'.find id = (t.find id).map f)
    (hf : ∀ row, row.record.status = row.status → (f row).record.status = (f row).status) : Synced t' := by
  rw [synced_iff_find] at ht ⊢
  intro id row' h
  rw [hfind, Option.map_eq_some_iff] at h
  obtain ⟨row, hrow, rfl⟩ := h
  exact hf row (ht id row hrow)

theorem synced_insert (ht : Synced t) (record : VerificationRecordInternal) : Synced (insert t record) := by
  unfold insert
  cases hrow : toRow record with
  | none => exact ht
  | some row =>
    have hsync : row.record.status = row.status := by
      unfold toRow at hrow
      split at hrow
      · cases hrow
        rfl
      · cases hrow
    by_cases hdup : (t.find row.id).isSome
    · simp only [hdup, if_true]
      exact ht
    · simp only [hdup, Bool.false_eq_true, if_false]
      rw [synced_iff_find] at ht ⊢
      intro id row' h
      rw [Table.find_put] at h
      split_ifs at h
      · cases h
        exact hsync
      · exact ht id row' h

/-- **Step**: an operation that claims no row keeps every record in sync. -/
theorem synced_step {op : Op} (ht : Synced t) (hop : Possible t op) (hnone : TakesNothing t op) :
    Synced (step t op) := by
  cases op with
  | insert record => exact synced_insert ht record
  | claimSubmitted limit ids now =>
    have hclaim : FullClaim t limit ids := hop
    have hids : ids = [] := by
      have hlen := hclaim.length_eq
      rcases hnone with h0 | h0
      · rw [h0, Nat.zero_min] at hlen
        exact List.length_eq_zero_iff.mp hlen
      · rw [h0, List.length_nil, Nat.min_zero] at hlen
        exact List.length_eq_zero_iff.mp hlen
    refine synced_of_map ht (fun _ => find_claimUpdate) fun row hrow => ?_
    rw [hids, if_neg (List.not_mem_nil)]
    exact hrow
  | complete recordId result now =>
    refine synced_of_map ht (fun _ => find_complete) fun row hrow => ?_
    split_ifs
    · rfl
    · exact hrow
  | reapStranded timeoutMs maxAttempts now =>
    refine synced_of_map ht (fun _ => find_reapStranded) fun row hrow => ?_
    split_ifs
    · rfl
    · exact hrow

/-- A claim that takes a row leaves its record behind. -/
theorem not_synced_claim {limit : ℕ} {ids : List String} {now : ℤ} (ht : Synced t)
    (hclaim : FullClaim t limit ids) (hsome : ¬ TakesNothing t (.claimSubmitted limit ids now)) :
    ¬ Synced (claimUpdate t ids now) := by
  intro hsync
  have hpos : 0 < ids.length := by
    have hlen := hclaim.length_eq
    have hsub : 0 < (submittedRows t).length := List.length_pos_iff.mpr fun h => hsome (Or.inr h)
    have hlim : limit ≠ 0 := fun h => hsome (Or.inl h)
    omega
  obtain ⟨id, hid⟩ := List.exists_mem_of_length_pos hpos
  obtain ⟨row, hrow, rfl⟩ := List.mem_map.mp (hclaim.submitted id hid)
  obtain ⟨hmem, hsub⟩ := mem_submittedRows.mp hrow
  have hfind : (claimUpdate t ids now).find row.id = some (claimRow now row) := by
    rw [find_claimUpdate, Table.find_of_mem hmem, Option.map_some, if_pos hid]
  have hafter : (claimRow now row).record.status = (claimRow now row).status :=
    synced_iff_find.mp hsync row.id _ hfind
  have hbefore : (claimRow now row).record.status = .submitted := (ht row hmem).trans hsub
  rw [hbefore] at hafter
  exact absurd hafter (by simp [claimRow])

end Synced

/-- **The record follows the column exactly until a claim**: along a run from a table in sync, every state
is in sync if and only if no claim of the run takes a row. -/
theorem status_synced_iff {t : Store} (h0 : Synced t) {ops : List Op} (hrun : Along step Possible t ops) :
    (∀ pre, pre <+: ops → Synced (run step t pre)) ↔ Along step TakesNothing t ops := by
  refine inv_prefix_iff (fun t op ht hop => ⟨fun hnext => ?_, synced_step ht hop⟩) h0 hrun
  cases op with
  | claimSubmitted limit ids now =>
    by_contra hsome
    exact not_synced_claim ht hop hsome hnext
  | insert | complete | reapStranded => trivial

/-! A job no worker finished in time, and one that waits in the queue. -/

def sampleRecord (id : String) (status : VerificationStatus) : VerificationRecordInternal where
  id := id
  contractId := "CAFK7NMQOT7G2SKMREDUII3EOK4APIY54WIK6CVGY72XWFE76YFRDF67"
  sourceType := .repo
  repoUrl := some "https://github.com/acme/token"
  commitHash := some "abc1234"
  sourceArchiveRef := none
  toolchainVersion := "1.94.0"
  buildFlags := none
  lockfileHash := none
  traceId := none
  traceParentSpanId := none
  outputHash := none
  deployedHash := none
  matchMode := none
  log := none
  statusDetail := none
  status := status
  createdAt := some 0
  updatedAt := some 0
  attempts := none

def strandedTable : Store := insert Table.empty (sampleRecord "r1" .building)

def queuedTable : Store := insert Table.empty (sampleRecord "r1" .submitted)

def reapedOps : List Op := [.reapStranded 10 3 20, .insert (sampleRecord "r2" .submitted), .claimSubmitted 0 [] 21]

theorem status_synced_iff_reaped :
    Along step Possible strandedTable reapedOps ∧ Synced (run step strandedTable reapedOps) := by
  have hrun : Along step Possible strandedTable reapedOps := by decide
  have hall := (status_synced_iff (by decide) hrun).mpr ⟨trivial, trivial, Or.inl rfl, trivial⟩
  exact ⟨hrun, hall reapedOps (List.prefix_refl _)⟩

/-- One claim of the queued job: the column says building, the record still says submitted. -/
theorem claim_leaves_record_submitted :
    Synced queuedTable ∧ Along step Possible queuedTable [.claimSubmitted 1 ["r1"] 5] ∧
    ¬ Synced (run step queuedTable [.claimSubmitted 1 ["r1"] 5]) := by
  decide

end Vellar.Worker.PgJobStore
