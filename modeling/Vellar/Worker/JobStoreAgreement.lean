import Vellar.Worker.MemoryJobStore
import Vellar.Worker.PgJobStore

/-!
# Vellar.Worker.JobStoreAgreement — the two job stores side by side

The in-memory store and the Postgres store, given the same operations by one clock.  `RowAgrees` says what
the two rows of a record have in common, `InStep` ties the two tables together, and each operation keeps
them in step and answers alike, as long as every complete comes for a building record and no submitted job
carries a timestamp or a signature: the in-memory `complete` writes whatever the row's status is, and the
stored record has no place for the two fields.
-/

set_option autoImplicit false

namespace Vellar.Worker.JobStoreAgreement

open Machine

abbrev MemRow := MemoryJobStore.Row

abbrev PgRow := PgJobStore.Row

/-- The two stores. -/
abbrev Stores := MemoryJobStore.Store × PgJobStore.Store

/-- An operation; a claim with the rows the database took. -/
inductive Op where
  | submit (recordId : String) (job : VerificationJobInput) (now : ℤ)
  | claimSubmitted (limit : ℕ) (ids : List String) (now : ℤ)
  | complete (recordId : String) (result : VerificationOutcome) (now : ℤ)
  | reapStranded (timeoutMs : ℤ) (maxAttempts : ℕ) (now : ℤ)
  | countActive
  | hasActiveForContract (contractId : String)

/-- What an operation returns. -/
inductive Answer where
  | done
  | jobs (claimed : List ClaimedJob)
  | reaped (result : ReapResult)
  | count (n : ℕ)
  | active (b : Bool)
deriving DecidableEq

/-- The same answer; the jobs of a claim come in the order the database returns the rows. -/
def Answer.Same : Answer → Answer → Prop
  | .jobs claimed, .jobs claimed' => claimed.Perm claimed'
  | a, b => a = b

/-- The record `verification-service` stores for a submitted job. -/
def submittedRecord (recordId : String) (job : VerificationJobInput) (now : ℤ) : VerificationRecordInternal where
  id := recordId
  contractId := job.contractId
  sourceType := job.sourceType
  repoUrl := job.repoUrl
  commitHash := job.commitHash
  sourceArchiveRef := job.sourceArchiveRef
  toolchainVersion := job.toolchainVersion
  buildFlags := job.buildFlags
  lockfileHash := none
  traceId := none
  traceParentSpanId := none
  outputHash := none
  deployedHash := none
  matchMode := none
  log := none
  statusDetail := none
  status := .submitted
  createdAt := some now
  updatedAt := some now
  attempts := none

def memStep (s : MemoryJobStore.Store) : Op → MemoryJobStore.Store × Answer
  | .submit recordId job now => (MemoryJobStore.submit s recordId job now, .done)
  | .claimSubmitted limit _ now =>
    let r := MemoryJobStore.claimSubmitted s limit now
    (r.1, .jobs r.2)
  | .complete recordId result now => (MemoryJobStore.complete s recordId result now, .done)
  | .reapStranded timeoutMs maxAttempts now =>
    let r := MemoryJobStore.reapStranded s timeoutMs maxAttempts now
    (r.1, .reaped r.2)
  | .countActive => (s, .count (MemoryJobStore.countActive s))
  | .hasActiveForContract contractId => (s, .active (MemoryJobStore.hasActiveForContract s contractId))

section

variable (isUrl : String → Bool)

def pgStep (t : PgJobStore.Store) : Op → PgJobStore.Store × Answer
  | .submit recordId job now => (PgJobStore.insert t (submittedRecord recordId job now), .done)
  | .claimSubmitted _ ids now =>
    let r := PgJobStore.claimSubmitted isUrl t ids now
    (r.1, .jobs r.2.jobs)
  | .complete recordId result now => (PgJobStore.complete t recordId result now, .done)
  | .reapStranded timeoutMs maxAttempts now =>
    let r := PgJobStore.reapStranded t timeoutMs maxAttempts now
    (r.1, .reaped r.2)
  | .countActive => (t, .count (PgJobStore.countActive t))
  | .hasActiveForContract contractId => (t, .active (PgJobStore.hasActiveForContract t contractId))

def step (s : Stores) (op : Op) : Stores := ((memStep s.1 op).1, (pgStep isUrl s.2 op).1)

/-- The calls that are compared: a submit is of a new id, of a job the schema accepts, at a time later than
the other submits; a claim takes what the database can take. -/
def Comparable (s : Stores) : Op → Prop
  | .submit recordId job now =>
    s.2.find recordId = none ∧ (∀ row ∈ s.2.rows, row.createdAt < now) ∧
      Importable isUrl (submittedRecord recordId job now)
  | .claimSubmitted limit ids _ => PgJobStore.FullClaim s.2 limit ids
  | _ => True

end

/-- The calls both stores serve alike: a complete for a record that is building or absent, a submit of a job
with no timestamp and no signature. -/
def ServedAlike (s : Stores) : Op → Prop
  | .submit _ job _ => job.timestamp = none ∧ job.signature = none
  | .complete recordId _ _ => ∀ row, s.2.find recordId = some row → row.status = .building
  | _ => True

/-! ## Rows -/

/-- What a record says: its status, its outcome, its attempts. -/
structure RecordView where
  status : VerificationStatus
  outputHash : Option String
  deployedHash : Option String
  matchMode : Option MatchMode
  log : Option String
  statusDetail : Option String
  attempts : ℤ
deriving DecidableEq

def memView (m : MemRow) : RecordView :=
  ⟨m.status, m.outputHash, m.deployedHash, m.matchMode, m.log, m.statusDetail, m.attempts.getD 0⟩

def pgView (p : PgRow) : RecordView :=
  ⟨p.status, p.record.outputHash, p.record.deployedHash, p.record.matchMode, p.record.log, p.record.statusDetail,
    p.record.attempts.getD 0⟩

/-- A record that is still to be built: the submitted one, but for its status and its attempts. -/
structure Queued (isUrl : String → Bool) (job : VerificationJobInput) (p : PgRow) : Prop where
  record : p.record = { submittedRecord p.id job p.createdAt with
    status := p.record.status
    attempts := p.record.attempts }
  importable : Importable isUrl (submittedRecord p.id job p.createdAt)
  unsigned : job.timestamp = none ∧ job.signature = none

/-- The two rows of a record. -/
structure RowAgrees (isUrl : String → Bool) (m : MemRow) (p : PgRow) : Prop where
  view : memView m = pgView p
  contractId : m.job.contractId = p.contractId
  submittedAt : m.submittedAtMs = some p.createdAt
  started : m.status = .building → m.startedBuildingAtMs = some p.updatedAt
  queued : m.status.IsActive → Queued isUrl m.job p

/-- The two stores after the same calls; the in-memory rows stand in the order of their submits. -/
structure InStep (isUrl : String → Bool) (s : Stores) : Prop where
  agree : Table.Agree (RowAgrees isUrl) s.1 s.2
  ordered : s.1.rows.Pairwise fun m m' => m.submittedAtMs.getD 0 < m'.submittedAtMs.getD 0

section Rows

variable {isUrl : String → Bool} {m : MemRow} {p : PgRow}

theorem RowAgrees.status (h : RowAgrees isUrl m p) : m.status = p.status := congrArg RecordView.status h.view

theorem RowAgrees.attempts (h : RowAgrees isUrl m p) : (m.attempts.getD 0 : ℤ) = p.record.attempts.getD 0 :=
  congrArg RecordView.attempts h.view

theorem rowAgrees_submit {recordId : String} {job : VerificationJobInput} {now : ℤ}
    (hjob : Importable isUrl (submittedRecord recordId job now)) (hsig : job.timestamp = none ∧ job.signature = none) :
    RowAgrees isUrl (MemoryJobStore.submittedRow recordId job now)
      ⟨recordId, job.contractId, .submitted, now, now, submittedRecord recordId job now⟩ := by
  refine ⟨rfl, rfl, rfl, fun h => ?_, fun _ => ⟨rfl, hjob, hsig⟩⟩
  simp [MemoryJobStore.submittedRow] at h

theorem RowAgrees.claim (h : RowAgrees isUrl m p) (hsub : m.status = .submitted) (now : ℤ) :
    RowAgrees isUrl (MemoryJobStore.claimRow now m) (PgJobStore.claimRow now p) := by
  have hq := h.queued (Or.inl hsub)
  refine ⟨?_, h.contractId, h.submittedAt, fun _ => rfl, fun _ => ⟨?_, hq.importable, hq.unsigned⟩⟩
  · have hv := h.view
    simp only [memView, pgView, RecordView.mk.injEq] at hv
    obtain ⟨-, h1, h2, h3, h4, h5, h6⟩ := hv
    simp [memView, pgView, MemoryJobStore.claimRow, PgJobStore.claimRow, h1, h2, h3, h4, h5, ← h6]
  · exact congrArg (fun r : VerificationRecordInternal =>
      { r with attempts := some (p.record.attempts.getD 0 + 1) }) hq.record

theorem RowAgrees.complete (h : RowAgrees isUrl m p) (result : VerificationOutcome) (now : ℤ) :
    RowAgrees isUrl (MemoryJobStore.completeRow result now m)
      (PgJobStore.completeRow result.status now (PgJobStore.completeRecord p.record result now) p) := by
  have hverdict : result.status.toStatus ≠ .building ∧ ¬ result.status.toStatus.IsActive := by
    cases result.status <;> decide
  refine ⟨?_, h.contractId, h.submittedAt, fun hb => absurd hb hverdict.1, fun hact => absurd hact hverdict.2⟩
  simp [memView, pgView, MemoryJobStore.completeRow, PgJobStore.completeRow, PgJobStore.completeRecord, h.attempts]

/-- Both stores find the same rows stranded: the claim set both clocks to the same instant. -/
theorem RowAgrees.stranded_iff (h : RowAgrees isUrl m p) {timeoutMs now : ℤ} :
    MemoryJobStore.Stranded timeoutMs now m ↔ PgJobStore.Stranded timeoutMs now p := by
  unfold MemoryJobStore.Stranded PgJobStore.Stranded
  rw [h.status]
  refine and_congr_right fun hb => ?_
  rw [h.started (h.status.trans hb), Option.getD_some]
  omega

theorem RowAgrees.exhausted_iff (h : RowAgrees isUrl m p) {maxAttempts : ℕ} :
    MemoryJobStore.Exhausted maxAttempts m ↔ PgJobStore.Exhausted maxAttempts p.record.attempts := by
  unfold MemoryJobStore.Exhausted PgJobStore.Exhausted
  rw [← h.attempts]
  omega

theorem RowAgrees.reap (h : RowAgrees isUrl m p) (timeoutMs : ℤ) (maxAttempts : ℕ) (now : ℤ) :
    RowAgrees isUrl (MemoryJobStore.reapRow timeoutMs maxAttempts now m)
      (if PgJobStore.Stranded timeoutMs now p then
        PgJobStore.reapRow (PgJobStore.reapStatus maxAttempts p.record.attempts) now p
      else p) := by
  have hv := h.view
  simp only [memView, pgView, RecordView.mk.injEq] at hv
  obtain ⟨-, h1, h2, h3, h4, h5, h6⟩ := hv
  unfold MemoryJobStore.reapRow
  by_cases hstr : PgJobStore.Stranded timeoutMs now p
  · rw [if_pos hstr, if_neg (not_not.mpr (h.stranded_iff.mpr hstr))]
    unfold PgJobStore.reapStatus
    by_cases hex : PgJobStore.Exhausted maxAttempts p.record.attempts
    · rw [if_pos hex, if_pos (h.exhausted_iff.mpr hex)]
      refine ⟨?_, h.contractId, h.submittedAt, by simp, fun hact => ?_⟩
      · simp [memView, pgView, PgJobStore.reapRow, h1, h2, h3, h4, h5, h6]
      · exact absurd hact (show ¬ VerificationStatus.deadLetter.IsActive by decide)
    · rw [if_neg hex, if_neg fun hex' => hex (h.exhausted_iff.mp hex')]
      have hq := h.queued (Or.inr (h.status.trans hstr.1))
      refine ⟨?_, h.contractId, h.submittedAt, by simp, fun _ => ⟨?_, hq.importable, hq.unsigned⟩⟩
      · simp [memView, pgView, PgJobStore.reapRow, h1, h2, h3, h4, h5, h6]
      · exact congrArg (fun r : VerificationRecordInternal => { r with status := .submitted }) hq.record
  · rw [if_neg hstr, if_pos fun hstr' => hstr (h.stranded_iff.mp hstr')]
    exact h

/-! ## The claimed jobs -/

/-- The job a claimed row gives, if its record is valid. -/
def jobOf (isUrl : String → Bool) (row : PgRow) : Option ClaimedJob :=
  match validateImportedRecord isUrl row.record with
  | .ok r => some (toClaimedJob r r.createdAt)
  | .error _ => none

theorem claimJobs_jobs (rows : List PgRow) : (PgJobStore.claimJobs isUrl rows).jobs = rows.filterMap (jobOf isUrl) := by
  induction rows with
  | nil => rfl
  | cons row rows ih =>
    cases hvalid : validateImportedRecord isUrl row.record with
    | ok r => simp [PgJobStore.claimJobs, jobOf, hvalid, ih]
    | error reason => simp [PgJobStore.claimJobs, jobOf, hvalid, ih]

/-- A claimed row gives the job that was submitted. -/
theorem jobOf_claimRow (h : RowAgrees isUrl m p) (hid : m.recordId = p.id) (hsub : m.status = .submitted) (now : ℤ) :
    jobOf isUrl (PgJobStore.claimRow now p) = some (MemoryJobStore.claimedJob m) := by
  have hq := (h.claim hsub now).queued (Or.inr rfl)
  have himp : Importable isUrl (PgJobStore.claimRow now p).record := by
    rw [hq.record]
    exact importable_touch hq.importable _ _
  unfold jobOf
  rw [validateImportedRecord_ok himp, hq.record]
  obtain ⟨ht, hs⟩ := hq.unsigned
  obtain ⟨recordId, status, job, submittedAtMs, _, _, _, _, _, _, _, _⟩ := m
  obtain ⟨⟨_, _, _, _, _, _⟩, _, timestamp, signature⟩ := job
  have hsubmitted : submittedAtMs = some p.createdAt := h.submittedAt
  obtain rfl : recordId = p.id := hid
  obtain rfl : timestamp = none := ht
  obtain rfl : signature = none := hs
  rw [hsubmitted]
  rfl

end Rows

/-! ## One operation -/

section Step

variable {isUrl : String → Bool} {s : Stores}

theorem InStep.submitted_perm (h : InStep isUrl s) :
    ((s.1.rows.filter fun m => m.status = .submitted).map MemoryJobStore.Row.recordId).Perm
      ((PgJobStore.submittedRows s.2).map PgJobStore.Row.id) :=
  h.agree.keys_perm fun m p hrow => by rw [hrow.status]

/-- The rows of a submitted id. -/
theorem InStep.submitted_pair (h : InStep isUrl s) {m : MemRow}
    (hm : m ∈ s.1.rows.filter fun m => m.status = .submitted) :
    ∃ p ∈ PgJobStore.submittedRows s.2, p.id = m.recordId ∧ m.submittedAtMs = some p.createdAt := by
  obtain ⟨hmem, hsub⟩ := List.mem_filter.mp hm
  obtain ⟨p, hp, hrow⟩ := h.agree.left (Table.find_of_mem hmem)
  obtain ⟨hpmem, hkey⟩ := Table.mem_of_find hp
  have hpsub : p.status = .submitted := by
    rw [← hrow.status]
    simpa using hsub
  exact ⟨p, PgJobStore.mem_submittedRows.mpr ⟨hpmem, hpsub⟩, hkey, hrow.submittedAt⟩

/-- **The two claims take the same rows**: the first submitted rows in insertion order are the oldest. -/
theorem InStep.claim_perm (h : InStep isUrl s) {limit : ℕ} {ids : List String}
    (hclaim : PgJobStore.FullClaim s.2 limit ids) :
    ids.Perm ((MemoryJobStore.batch s.1 limit).map MemoryJobStore.Row.recordId) := by
  have hlen : ids.length = ((MemoryJobStore.batch s.1 limit).map MemoryJobStore.Row.recordId).length := by
    have hsize := h.submitted_perm.length_eq
    rw [List.length_map, List.length_map] at hsize
    rw [hclaim.length_eq, ← hsize, List.length_map]
    exact List.length_take.symm
  have hsub : (MemoryJobStore.batch s.1 limit).map MemoryJobStore.Row.recordId ⊆ ids := by
    intro id hid
    by_contra hnot
    obtain ⟨x, hx, rfl⟩ := List.mem_map.mp hid
    -- Some claimed id is not in the batch: the two are equally long.
    obtain ⟨id', hid', hout⟩ : ∃ id' ∈ ids, id' ∉ (MemoryJobStore.batch s.1 limit).map MemoryJobStore.Row.recordId := by
      by_contra hall
      have hincl : ids ⊆ (MemoryJobStore.batch s.1 limit).map MemoryJobStore.Row.recordId := fun a ha => by
        by_contra hna
        exact hall ⟨a, ha, hna⟩
      have hperm := (List.subperm_of_subset hclaim.nodup hincl).perm_of_length_le hlen.ge
      exact hnot (hperm.mem_iff.mpr hid)
    obtain ⟨y, hy, rfl⟩ := List.mem_map.mp (h.submitted_perm.mem_iff.mpr (hclaim.submitted id' hid'))
    -- It stands after the batch, so it is younger than the row left out.
    have hlt : x.submittedAtMs.getD 0 < y.submittedAtMs.getD 0 := by
      have hdrop : y ∈ (s.1.rows.filter fun m => m.status = .submitted).drop limit := by
        rw [← List.take_append_drop limit (s.1.rows.filter fun m => m.status = .submitted)] at hy
        rcases List.mem_append.mp hy with hy | hy
        · exact absurd (List.mem_map_of_mem hy) hout
        · exact hy
      have hpair := h.ordered.sublist (List.filter_sublist (p := fun m : MemRow => m.status = .submitted))
      rw [← List.take_append_drop limit (s.1.rows.filter fun m => m.status = .submitted),
        List.pairwise_append] at hpair
      exact hpair.2.2 x hx y hdrop
    obtain ⟨px, hpx, hkx, hax⟩ := h.submitted_pair (List.mem_of_mem_take hx)
    obtain ⟨py, hpy, hky, hay⟩ := h.submitted_pair hy
    have hold := hclaim.oldest py hpy (hky ▸ hid') px hpx (hkx ▸ hnot)
    rw [hax, hay, Option.getD_some, Option.getD_some] at hlt
    omega
  exact ((List.subperm_of_subset MemoryJobStore.batch_nodup hsub).perm_of_length_le hlen.le).symm

/-- The claimed jobs, up to the order the database returns them in. -/
theorem InStep.claimed_jobs (h : InStep isUrl s) {limit : ℕ} {ids : List String} {now : ℤ}
    (hclaim : PgJobStore.FullClaim s.2 limit ids) :
    (MemoryJobStore.claimSubmitted s.1 limit now).2.Perm (PgJobStore.claimSubmitted isUrl s.2 ids now).2.jobs := by
  have hperm := h.claim_perm hclaim
  have hrow : ∀ m ∈ MemoryJobStore.batch s.1 limit,
      ((PgJobStore.claimUpdate s.2 ids now).find m.recordId).bind (jobOf isUrl) =
        some (MemoryJobStore.claimedJob m) := by
    intro m hm
    obtain ⟨hmem, hsub⟩ := List.mem_filter.mp (List.mem_of_mem_take hm)
    obtain ⟨p, hp, hagree⟩ := h.agree.left (Table.find_of_mem hmem)
    obtain ⟨-, hkey⟩ := Table.mem_of_find hp
    have hid : p.id ∈ ids := by
      rw [hkey]
      exact hperm.mem_iff.mpr (List.mem_map_of_mem hm)
    rw [PgJobStore.find_claimUpdate, hp, Option.map_some, if_pos hid, Option.bind_some]
    exact jobOf_claimRow hagree hkey.symm (by simpa using hsub) now
  have hjobs : (PgJobStore.claimSubmitted isUrl s.2 ids now).2.jobs =
      ids.filterMap fun id => ((PgJobStore.claimUpdate s.2 ids now).find id).bind (jobOf isUrl) := by
    show (PgJobStore.claimJobs isUrl _).jobs = _
    rw [claimJobs_jobs, List.filterMap_filterMap]
  rw [hjobs, MemoryJobStore.claimSubmitted_jobs]
  refine List.Perm.trans (List.Perm.of_eq ?_) (hperm.filterMap _).symm
  calc (MemoryJobStore.batch s.1 limit).map MemoryJobStore.claimedJob
      = (MemoryJobStore.batch s.1 limit).filterMap fun m => some (MemoryJobStore.claimedJob m) :=
        (congrFun List.filterMap_eq_map' _).symm
    _ = (MemoryJobStore.batch s.1 limit).filterMap fun m =>
          ((PgJobStore.claimUpdate s.2 ids now).find m.recordId).bind (jobOf isUrl) :=
        List.filterMap_congr fun m hm => (hrow m hm).symm
    _ = _ := by rw [List.filterMap_map]; rfl

/-- Rewriting the in-memory rows keeps their order. -/
theorem ordered_map {rows : List MemRow} {f : MemRow → MemRow} (hf : ∀ m, (f m).submittedAtMs = m.submittedAtMs)
    (h : rows.Pairwise fun m m' => m.submittedAtMs.getD 0 < m'.submittedAtMs.getD 0) :
    (rows.map f).Pairwise fun m m' => m.submittedAtMs.getD 0 < m'.submittedAtMs.getD 0 := by
  rw [List.pairwise_map]
  simpa only [hf] using h

theorem inStep_submit (h : InStep isUrl s) {recordId : String} {job : VerificationJobInput} {now : ℤ}
    (hc : Comparable isUrl s (.submit recordId job now)) (hw : ServedAlike s (.submit recordId job now)) :
    InStep isUrl (step isUrl s (.submit recordId job now)) := by
  obtain ⟨hfresh, hlater, himp⟩ := hc
  have hpg : PgJobStore.insert s.2 (submittedRecord recordId job now) =
      s.2.put ⟨recordId, job.contractId, .submitted, now, now, submittedRecord recordId job now⟩ := by
    show (if (s.2.find recordId).isSome then _ else _) = _
    rw [hfresh]
    rfl
  have hmem : s.1.find recordId = none := by
    cases hfind : s.1.find recordId with
    | none => rfl
    | some m =>
      obtain ⟨p, hp, -⟩ := h.agree.left hfind
      rw [hfresh] at hp
      cases hp
  refine ⟨?_, ?_⟩
  · show Table.Agree (RowAgrees isUrl) (s.1.put _) (PgJobStore.insert s.2 _)
    rw [hpg]
    exact h.agree.put rfl (rowAgrees_submit himp hw)
  · show (s.1.put _).rows.Pairwise _
    rw [Table.rows_put_new hmem, List.pairwise_append]
    refine ⟨h.ordered, List.pairwise_singleton _ _, fun m hm m' hm' => ?_⟩
    rw [List.mem_singleton.mp hm']
    obtain ⟨p, hp, hrow⟩ := h.agree.left (Table.find_of_mem hm)
    have hlt := hlater p (Table.mem_of_find hp).1
    rw [hrow.submittedAt]
    exact hlt

theorem inStep_claim (h : InStep isUrl s) {limit : ℕ} {ids : List String} {now : ℤ}
    (hclaim : PgJobStore.FullClaim s.2 limit ids) : InStep isUrl (step isUrl s (.claimSubmitted limit ids now)) := by
  refine ⟨h.agree.map (f := fun m => if MemoryJobStore.Takes s.1 limit m.recordId then
      MemoryJobStore.claimRow now m else m) (fun k => ?_) (fun _ => PgJobStore.find_claimUpdate)
      fun m p hm hp hrow => ?_, ?_⟩
  · show (MemoryJobStore.claimSubmitted s.1 limit now).1.find k = _
    rw [MemoryJobStore.find_claimSubmitted]
    cases hfind : s.1.find k with
    | none => rfl
    | some m =>
      obtain ⟨-, rfl⟩ := Table.mem_of_find hfind
      rfl
  · have hkey : p.id = m.recordId := (Table.mem_of_find hp).2
    have htakes : MemoryJobStore.Takes s.1 limit m.recordId ↔ p.id ∈ ids := by
      rw [hkey]
      exact (h.claim_perm hclaim).mem_iff.symm
    by_cases hid : p.id ∈ ids
    · rw [if_pos (htakes.mpr hid), if_pos hid]
      obtain ⟨m', hm', hsub⟩ := MemoryJobStore.takes_submitted (htakes.mpr hid)
      rw [hm] at hm'
      cases hm'
      exact hrow.claim hsub now
    · rw [if_neg fun ht => hid (htakes.mp ht), if_neg hid]
      exact hrow
  · show (MemoryJobStore.claimSubmitted s.1 limit now).1.rows.Pairwise _
    rw [MemoryJobStore.rows_claimSubmitted]
    exact ordered_map (fun m => by split_ifs <;> rfl) h.ordered

theorem inStep_complete (h : InStep isUrl s) {recordId : String} {result : VerificationOutcome} {now : ℤ}
    (hw : ServedAlike s (.complete recordId result now)) :
    InStep isUrl (step isUrl s (.complete recordId result now)) := by
  refine ⟨h.agree.map (fun _ => MemoryJobStore.find_complete) (fun _ => PgJobStore.find_complete)
      fun m p _ hp hrow => ?_, ordered_map (fun m => by split_ifs <;> rfl) h.ordered⟩
  obtain ⟨hmem, hkey⟩ := Table.mem_of_find hp
  by_cases hid : m.recordId = recordId
  · have hb : p.status = .building := hw p (by rw [← hid]; exact hp)
    rw [if_pos hid, if_pos ⟨hkey.trans hid, hb⟩]
    exact hrow.complete result now
  · rw [if_neg hid, if_neg fun hp' => hid (hkey.symm.trans hp'.1)]
    exact hrow

theorem inStep_reap (h : InStep isUrl s) (timeoutMs : ℤ) (maxAttempts : ℕ) (now : ℤ) :
    InStep isUrl (step isUrl s (.reapStranded timeoutMs maxAttempts now)) := by
  refine ⟨h.agree.map (fun _ => MemoryJobStore.find_reapStranded) (fun _ => PgJobStore.find_reapStranded)
      fun m p _ _ hrow => hrow.reap timeoutMs maxAttempts now, ordered_map (fun m => ?_) h.ordered⟩
  unfold MemoryJobStore.reapRow
  split_ifs <;> rfl

/-- **Step**: a call both stores serve alike keeps them in step. -/
theorem inStep_step (h : InStep isUrl s) {op : Op} (hc : Comparable isUrl s op) (hw : ServedAlike s op) :
    InStep isUrl (step isUrl s op) := by
  cases op with
  | submit recordId job now => exact inStep_submit h hc hw
  | claimSubmitted limit ids now => exact inStep_claim h hc
  | complete recordId result now => exact inStep_complete h hw
  | reapStranded timeoutMs maxAttempts now => exact inStep_reap h timeoutMs maxAttempts now
  | countActive => exact h
  | hasActiveForContract contractId => exact h

/-- **Step**: and both answer alike. -/
theorem answers_step (h : InStep isUrl s) {op : Op} (hc : Comparable isUrl s op) :
    (memStep s.1 op).2.Same (pgStep isUrl s.2 op).2 := by
  cases op with
  | submit recordId job now => rfl
  | claimSubmitted limit ids now => exact h.claimed_jobs hc
  | complete recordId result now => rfl
  | reapStranded timeoutMs maxAttempts now =>
    show Answer.reaped _ = Answer.reaped _
    rw [PgJobStore.reapStranded_result]
    refine congrArg Answer.reaped (congrArg₂ ReapResult.mk (h.agree.countP fun m p hrow => ?_)
      (h.agree.countP fun m p hrow => ?_))
    · exact decide_eq_decide.mpr (and_congr hrow.stranded_iff (not_congr hrow.exhausted_iff))
    · exact decide_eq_decide.mpr (and_congr hrow.stranded_iff hrow.exhausted_iff)
  | countActive =>
    show Answer.count _ = Answer.count _
    rw [MemoryJobStore.countActive_eq]
    exact congrArg Answer.count (h.agree.countP fun m p hrow => by rw [hrow.status])
  | hasActiveForContract contractId =>
    exact congrArg Answer.active (h.agree.any fun m p hrow => by rw [hrow.status, hrow.contractId])

end Step

/-! ## Runs -/

/-- The two empty stores. -/
def empty : Stores := (Table.empty, Table.empty)

theorem inStep_empty (isUrl : String → Bool) : InStep isUrl empty := ⟨Table.agree_empty, List.Pairwise.nil⟩

/-- **The two stores agree** as long as every complete comes for a building or absent record and no
submitted job carries a timestamp or a signature: after every call they hold the same status, outcome and
attempts of every record, and every call has the same answer. -/
theorem stores_agree {isUrl : String → Bool} {ops : List Op} (hrun : Along (step isUrl) (Comparable isUrl) empty ops)
    (hwhen : Along (step isUrl) ServedAlike empty ops) :
    (∀ pre, pre <+: ops → ∀ id, ((run (step isUrl) empty pre).1.find id).map memView =
      ((run (step isUrl) empty pre).2.find id).map pgView) ∧
    ∀ pre op post, ops = pre ++ op :: post →
      (memStep (run (step isUrl) empty pre).1 op).2.Same (pgStep isUrl (run (step isUrl) empty pre).2 op).2 := by
  have hboth : Along (step isUrl) (fun s op => Comparable isUrl s op ∧ ServedAlike s op) empty ops := by
    rw [along_iff] at hrun hwhen ⊢
    exact fun pre op post heq => ⟨hrun pre op post heq, hwhen pre op post heq⟩
  have hinv : ∀ pre, pre <+: ops → InStep isUrl (run (step isUrl) empty pre) :=
    inv_prefix (P := InStep isUrl) (fun _ _ h hop => inStep_step h hop.1 hop.2) (inStep_empty isUrl) hboth
  refine ⟨fun pre hpre id => ?_, fun pre op post heq => ?_⟩
  · have hid := (hinv pre hpre).agree id
    cases hm : (run (step isUrl) empty pre).1.find id with
    | none =>
      rw [hm] at hid
      cases hp : (run (step isUrl) empty pre).2.find id with
      | none => rfl
      | some p =>
        rw [hp] at hid
        cases hid
    | some m =>
      obtain ⟨p, hp, hrow⟩ := (hinv pre hpre).agree.left hm
      rw [hp, Option.map_some, Option.map_some, hrow.view]
  · exact answers_step (hinv pre ⟨op :: post, heq.symm⟩) ((along_iff.mp hrun) pre op post heq)

instance (isUrl : String → Bool) (s : Stores) : (op : Op) → Decidable (Comparable isUrl s op)
  | .submit recordId job now => inferInstanceAs (Decidable (s.2.find recordId = none ∧
      (∀ row ∈ s.2.rows, row.createdAt < now) ∧ Importable isUrl (submittedRecord recordId job now)))
  | .claimSubmitted limit ids _ => inferInstanceAs (Decidable (PgJobStore.FullClaim s.2 limit ids))
  | .complete _ _ _ | .reapStranded _ _ _ | .countActive | .hasActiveForContract _ => isTrue trivial

instance (s : Stores) : (op : Op) → Decidable (ServedAlike s op)
  | .submit _ job _ => inferInstanceAs (Decidable (job.timestamp = none ∧ job.signature = none))
  | .complete recordId _ _ => decidable_of_iff ((s.2.find recordId).all fun row => row.status = .building) (by
      unfold ServedAlike
      simp [Option.all_eq_true])
  | .claimSubmitted _ _ _ | .reapStranded _ _ _ | .countActive | .hasActiveForContract _ => isTrue trivial

/-! A job that is claimed, requeued and claimed again before it is completed, and one whose worker comes
back after the reaper gave it up. -/

def acmeUrl : String := "https://github.com/acme/token"

def acmeJob : VerificationJobInput where
  contractId := "CAFK7NMQOT7G2SKMREDUII3EOK4APIY54WIK6CVGY72XWFE76YFRDF67"
  sourceType := .repo
  repoUrl := some acmeUrl
  commitHash := some "abc1234"
  sourceArchiveRef := none
  toolchainVersion := "1.94.0"
  buildFlags := none
  timestamp := none
  signature := none

def acmeOutcome : VerificationOutcome where
  status := .verified
  outputHash := some "aa"
  deployedHash := some "aa"
  matchMode := some .exact
  statusDetail := "Verified."
  log := ""
  isRetryable := none
  retryDelayMs := none
  retryAttempt := none

def requeuedOps : List Op :=
  [.submit "r1" acmeJob 0, .submit "r2" acmeJob 1, .claimSubmitted 1 ["r1"] 2, .reapStranded 10 3 20,
    .claimSubmitted 2 ["r2", "r1"] 21, .complete "r1" acmeOutcome 25, .countActive]

theorem stores_agree_requeued :
    (∀ pre, pre <+: requeuedOps → ∀ id, ((run (step (· = acmeUrl)) empty pre).1.find id).map memView =
      ((run (step (· = acmeUrl)) empty pre).2.find id).map pgView) ∧
    ∀ pre op post, requeuedOps = pre ++ op :: post →
      (memStep (run (step (· = acmeUrl)) empty pre).1 op).2.Same
        (pgStep (· = acmeUrl) (run (step (· = acmeUrl)) empty pre).2 op).2 :=
  stores_agree (by decide) (by decide)

def givenUpOps : List Op :=
  [.submit "r1" acmeJob 0, .claimSubmitted 1 ["r1"] 1, .reapStranded 10 1 20, .complete "r1" acmeOutcome 25]

/-- The in-memory store turns the dead-lettered record into a verified one; the Postgres store leaves it. -/
theorem late_complete_splits_stores :
    Along (step (· = acmeUrl)) (Comparable (· = acmeUrl)) empty givenUpOps ∧
    ((run (step (· = acmeUrl)) empty givenUpOps).1.find "r1").map (·.status) = some .verified ∧
    ((run (step (· = acmeUrl)) empty givenUpOps).2.find "r1").map (·.status) = some .deadLetter ∧
    ((run (step (· = acmeUrl)) empty givenUpOps).1.find "r1").map memView ≠
      ((run (step (· = acmeUrl)) empty givenUpOps).2.find "r1").map pgView := by
  decide

def signedOps : List Op := [.submit "r1" { acmeJob with signature := some "aa" } 0]

-- The Postgres store hands a signed job out without its signature.
example : (memStep (run (step (· = acmeUrl)) empty signedOps).1 (.claimSubmitted 1 ["r1"] 1)).2 ≠
    (pgStep (· = acmeUrl) (run (step (· = acmeUrl)) empty signedOps).2 (.claimSubmitted 1 ["r1"] 1)).2 := by
  decide

end Vellar.Worker.JobStoreAgreement
