import Vellar.Lib.Lockstep
import Vellar.Lib.Partial
import Vellar.Verification.BuildQueue

/-!
# Vellar.Verification.PgQueue — the build queue over Postgres

`services/verification-service/src/db/pg-queue.ts` with a database, where the row of a submission is the job.  Calls are
made one after another, so no row is locked.  `same_queue`: when it answers as the queue in memory.
-/

set_option autoImplicit false

namespace Vellar.Verification.PgQueue

open Machine
open Worker (SourceType VerificationStatus)
open BuildQueue (BuildJob QueueOptions ClaimedBuildJob JobStatus MemoryJobEntry MemoryJobs Call Reply Timed Fresh
  isStranded isTakeable bury claimEntry isStranded_iff isTakeable_iff claimLoop_eq defaultOptions exampleJob)

/-- What the queue reads and writes of the `record` column. -/
structure StoredRecord where
  contractId : String
  sourceType : SourceType
  repoUrl : Option String
  commitHash : Option String
  sourceArchiveRef : Option String
  toolchainVersion : String
  buildFlags : Option (List String)
  traceId : Option String
  traceParentSpanId : Option String
  status : VerificationStatus
  attempts : Option ℕ
  claimedBy : Option String
  error : Option String
deriving DecidableEq

structure VerificationRow where
  id : String
  status : VerificationStatus
  createdAt : ℤ
  updatedAt : ℤ
  record : StoredRecord
deriving DecidableEq

/-- `verification_records` -/
abbrev VerificationRecords := Table VerificationRow.id

/-- `ORDER BY created_at ASC LIMIT 1`; of rows of one instant any may come first. -/
structure OldestFirst where
  pick : List VerificationRow → Option VerificationRow
  oldest : ∀ rows row, pick rows = some row → row ∈ rows ∧ ∀ r ∈ rows, row.createdAt ≤ r.createdAt
  found : ∀ rows, rows ≠ [] → pick rows ≠ none

/-! ## The operations -/

section Model

variable (oldest : OldestFirst) (options : QueueOptions) (now : ℤ)

/-- The row that a submission inserts. -/
def submittedRow (job : BuildJob) : VerificationRow where
  id := job.recordId
  status := .submitted
  createdAt := now
  updatedAt := now
  record :=
    { contractId := job.contractId
      sourceType := job.sourceType
      repoUrl := job.repoUrl
      commitHash := job.commitHash
      sourceArchiveRef := job.sourceArchiveRef
      toolchainVersion := job.toolchainVersion
      buildFlags := job.buildFlags
      traceId := job.traceId
      traceParentSpanId := job.traceParentSpanId
      status := .submitted
      attempts := none
      claimedBy := none
      error := none }

def jobOf (row : VerificationRow) : BuildJob where
  recordId := row.id
  contractId := row.record.contractId
  sourceType := row.record.sourceType
  repoUrl := row.record.repoUrl
  commitHash := row.record.commitHash
  sourceArchiveRef := row.record.sourceArchiveRef
  toolchainVersion := row.record.toolchainVersion
  buildFlags := row.record.buildFlags
  traceId := row.record.traceId
  traceParentSpanId := row.record.traceParentSpanId

/-- `status = 'building' AND updated_at < cutoff` -/
def isPast (cutoff : ℤ) (row : VerificationRow) : Bool := decide (row.status = .building ∧ row.updatedAt < cutoff)

def isClaimable (cutoff : ℤ) (row : VerificationRow) : Bool := decide (row.status = .submitted) || isPast cutoff row

def claimRow (workerId : String) (row : VerificationRow) : VerificationRow :=
  { row with
    status := .building
    updatedAt := now
    record := { row.record with
      attempts := some (row.record.attempts.getD 0 + 1)
      claimedBy := some workerId } }

def claimedJob (workerId : String) (row : VerificationRow) : ClaimedBuildJob :=
  ⟨row.id, jobOf row, row.record.attempts.getD 1, now, workerId⟩

def claim (workerId : String) (visibilityTimeoutMs : Option ℤ) (records : VerificationRecords) :
    VerificationRecords × Option ClaimedBuildJob :=
  let timeout := visibilityTimeoutMs.getD options.visibilityTimeoutMs
  match oldest.pick (records.rows.filter (isClaimable (now - timeout))) with
  | none => (records, none)
  | some row =>
    (records.updateWhere (fun r => r.id = row.id) (claimRow now workerId) fun _ => rfl,
      some (claimedJob now workerId (claimRow now workerId row)))

def isBuilding (recordId : String) (row : VerificationRow) : Bool :=
  decide (row.id = recordId ∧ row.status = .building)

/-- A status is written to the row and into the record. -/
def setStatus (status : VerificationStatus) (row : VerificationRow) : VerificationRow :=
  { row with status := status, updatedAt := now, record := { row.record with status := status } }

def complete (recordId : String) (records : VerificationRecords) : VerificationRecords × Bool :=
  (records.updateWhere (isBuilding recordId) (setStatus now .verified) fun _ => rfl,
    decide (0 < records.rows.countP (isBuilding recordId)))

def setError (error : Option String) (row : VerificationRow) : VerificationRow :=
  { row with record := { row.record with error := some (error.getD "build failed") } }

def fail (recordId : String) (error : Option String) (records : VerificationRecords) : VerificationRecords :=
  records.updateWhere (fun row => row.id = recordId) (fun row => setError error (setStatus now .failed row))
    fun _ => rfl

def release (recordId : String) (records : VerificationRecords) : VerificationRecords :=
  records.updateWhere (isBuilding recordId) (setStatus now .submitted) fun _ => rfl

def reapStranded (records : VerificationRecords) : VerificationRecords × ℕ :=
  (records.updateWhere (isPast (now - options.visibilityTimeoutMs)) (setStatus now .submitted) fun _ => rfl,
    records.rows.countP (isPast (now - options.visibilityTimeoutMs)))

/-- What a call answers, and the rows after it; the enqueue of a job comes with the insert of its row. -/
def perform (records : VerificationRecords) : Call → VerificationRecords × Reply
  | .enqueue job => (records.put (submittedRow now job), .done)
  | .claim workerId visibilityTimeoutMs =>
    ((claim oldest options now workerId visibilityTimeoutMs records).1,
      .claimed (claim oldest options now workerId visibilityTimeoutMs records).2)
  | .complete recordId _ => ((complete now recordId records).1, .completed (complete now recordId records).2)
  | .fail recordId error => (fail now recordId error records, .done)
  | .release recordId _ => (release now recordId records, .done)
  | .reapStranded => ((reapStranded options now records).1, .reaped (reapStranded options now records).2)

end Model

/-! ## Runs of both queues -/

section Runs

variable (oldest : OldestFirst) (options : QueueOptions)

def step (records : VerificationRecords) (call : Timed) : VerificationRecords :=
  (perform oldest options call.1 records call.2).1

/-- The rows after the calls. -/
def after (calls : List Timed) : VerificationRecords := run (step oldest options) Table.empty calls

/-- The jobs of a queue, by what has become of them. -/
structure JobSets where
  active : Finset String
  finished : Finset String
  deadLettered : Finset String
deriving DecidableEq

def idsOf (statuses : List JobStatus) (jobs : MemoryJobs) : Finset String :=
  ((jobs.rows.filter fun e => statuses.contains e.status).map MemoryJobEntry.recordId).toFinset

def memorySets (jobs : MemoryJobs) : JobSets :=
  ⟨idsOf [.submitted, .building] jobs, idsOf [.completed, .failed] jobs, idsOf [.deadLetter] jobs⟩

def storedIds (statuses : List VerificationStatus) (records : VerificationRecords) : Finset String :=
  ((records.rows.filter fun r => statuses.contains r.status).map VerificationRow.id).toFinset

def storedSets (records : VerificationRecords) : JobSets :=
  ⟨storedIds [.submitted, .building] records, storedIds [.verified, .failed] records, storedIds [.deadLetter] records⟩

/-- The two queues answer every call of a run alike, and have the same jobs after it. -/
def SameQueue (calls : List Timed) : Prop :=
  ∀ pre call post, calls = pre ++ call :: post →
    (BuildQueue.perform options call.1 (BuildQueue.after options pre) call.2).2 =
        (perform oldest options call.1 (after oldest options pre) call.2).2 ∧
      memorySets (BuildQueue.after options (pre ++ [call])) = storedSets (after oldest options (pre ++ [call]))

/-- No timeout is given with a claim. -/
def DefaultTimeout : Timed → Prop
  | (_, .claim _ visibilityTimeoutMs) => visibilityTimeoutMs = none
  | _ => True

/-- The entries that the loop of `claim` comes to. -/
def reached (now : ℤ) : List MemoryJobEntry → List MemoryJobEntry
  | [] => []
  | entry :: entries => if isTakeable options now entry then [entry] else entry :: reached now entries

/-- A timeout has ended, and not at this instant, on an attempt that was not the last. -/
def Expired (now : ℤ) (entry : MemoryJobEntry) : Prop :=
  entry.claimedAt ≠ some (now - entry.visibilityTimeoutMs) ∧ entry.attempts < options.maxAttempts

/-- Every timeout that a call finds ended has ended before, on an attempt that was not the last; and the job that a
claim hands out was submitted before every other job that can be claimed. -/
def Agreed (jobs : MemoryJobs) (records : VerificationRecords) : Timed → Prop
  | (now, .claim _ _) =>
    (∀ entry ∈ reached options now jobs.rows, isStranded now entry = true → Expired options now entry) ∧
      ∀ entry ∈ jobs.rows.find? (isTakeable options now), ∀ row ∈ records.find entry.recordId, ∀ row' ∈ records.rows,
        isClaimable (now - options.visibilityTimeoutMs) row' = true → row' ≠ row → row.createdAt < row'.createdAt
  | (now, .reapStranded) => ∀ entry ∈ jobs.rows, isStranded now entry = true → Expired options now entry
  | _ => True

instance : ∀ call, Decidable (DefaultTimeout call)
  | (_, .claim _ _) => inferInstanceAs (Decidable (_ = none))
  | (_, .enqueue _) | (_, .complete _ _) | (_, .fail _ _) | (_, .release _ _) | (_, .reapStranded) => isTrue trivial

instance (now : ℤ) (entry : MemoryJobEntry) : Decidable (Expired options now entry) :=
  inferInstanceAs (Decidable (_ ∧ _))

instance (jobs : MemoryJobs) (records : VerificationRecords) : ∀ call, Decidable (Agreed options jobs records call)
  | (_, .claim _ _) => instDecidableAnd
  | (_, .reapStranded) => List.decidableBAll _ _
  | (_, .enqueue _) | (_, .complete _ _) | (_, .fail _ _) | (_, .release _ _) => isTrue trivial

end Runs

/-! ## A job in both queues -/

def storedStatus : JobStatus → VerificationStatus
  | .submitted => .submitted
  | .building => .building
  | .completed => .verified
  | .failed => .failed
  | .deadLetter => .deadLetter

theorem storedStatus_injective : Function.Injective storedStatus := by
  intro s s' h
  cases s <;> cases s' <;> first | rfl | exact VerificationStatus.noConfusion h

/-- The entry and the row of one job. -/
structure Same (options : QueueOptions) (entry : MemoryJobEntry) (row : VerificationRow) : Prop where
  id : entry.recordId = row.id
  job : entry.job = jobOf row
  attempts : entry.attempts = row.record.attempts.getD 0
  status : row.status = storedStatus entry.status
  live : entry.status ≠ .deadLetter
  claimed : entry.status = .building →
    entry.claimedAt = some row.updatedAt ∧ entry.visibilityTimeoutMs = options.visibilityTimeoutMs

section Rows

variable {options : QueueOptions} {now : ℤ} {entry : MemoryJobEntry} {row : VerificationRow}

theorem Same.status_iff (h : Same options entry row) (status : JobStatus) :
    row.status = storedStatus status ↔ entry.status = status := by
  rw [h.status]
  exact storedStatus_injective.eq_iff

theorem Same.isPast (h : Same options entry row) (hexpired : isStranded now entry = true → Expired options now entry) :
    isStranded now entry = isPast (now - options.visibilityTimeoutMs) row := by
  have hbuilding : row.status = .building ↔ entry.status = .building := h.status_iff .building
  rw [Bool.eq_iff_iff, PgQueue.isPast, decide_eq_true_iff, hbuilding]
  constructor
  · intro hstranded
    have hnow := (hexpired hstranded).1
    obtain ⟨hstatus, t, ht, hle⟩ := isStranded_iff.mp hstranded
    obtain ⟨hat, htimeout⟩ := h.claimed hstatus
    have ht' : t = row.updatedAt := Option.some.inj (ht.symm.trans hat)
    have hne : row.updatedAt ≠ now - entry.visibilityTimeoutMs := fun heq => hnow (heq ▸ hat)
    exact ⟨hstatus, by omega⟩
  · rintro ⟨hstatus, hlt⟩
    obtain ⟨hat, htimeout⟩ := h.claimed hstatus
    exact isStranded_iff.mpr ⟨hstatus, row.updatedAt, hat, by omega⟩

theorem Same.isClaimable (h : Same options entry row)
    (hexpired : isStranded now entry = true → Expired options now entry) :
    isTakeable options now entry = isClaimable (now - options.visibilityTimeoutMs) row := by
  have hsubmitted : row.status = .submitted ↔ entry.status = .submitted := h.status_iff .submitted
  rw [Bool.eq_iff_iff, isTakeable_iff, PgQueue.isClaimable, Bool.or_eq_true, decide_eq_true_iff, hsubmitted,
    ← h.isPast hexpired]
  exact or_congr_right ⟨fun hboth => hboth.1, fun hstranded => ⟨hstranded, (hexpired hstranded).2⟩⟩

theorem Same.isBuilding (h : Same options entry row) (recordId : String) :
    BuildQueue.isBuilding recordId entry = isBuilding recordId row := by
  have hbuilding : row.status = .building ↔ entry.status = .building := h.status_iff .building
  rw [BuildQueue.isBuilding, PgQueue.isBuilding, decide_eq_decide, h.id, hbuilding]

theorem Same.claim (h : Same options entry row) (workerId : String) :
    Same options (claimEntry now workerId options.visibilityTimeoutMs entry) (claimRow now workerId row) where
  id := h.id
  job := h.job
  attempts := congrArg (· + 1) h.attempts
  status := rfl
  live := nofun
  claimed := fun _ => ⟨rfl, rfl⟩

/-- A job that is given another status by both queues. -/
theorem Same.setStatus (h : Same options entry row) {entry' : MemoryJobEntry} (hid : entry'.recordId = entry.recordId)
    (hjob : entry'.job = entry.job) (hattempts : entry'.attempts = entry.attempts)
    (hlive : entry'.status ≠ .deadLetter) (hnot : entry'.status ≠ .building) :
    Same options entry' (setStatus now (storedStatus entry'.status) row) where
  id := hid.trans h.id
  job := hjob.trans h.job
  attempts := hattempts.trans h.attempts
  status := rfl
  live := hlive
  claimed := fun hbuilding => absurd hbuilding hnot

theorem Same.submit (options : QueueOptions) (now : ℤ) (job : BuildJob) :
    Same options (BuildQueue.newEntry options job) (submittedRow now job) where
  id := rfl
  job := rfl
  attempts := rfl
  status := rfl
  live := nofun
  claimed := nofun

end Rows

/-! ## One call of both queues -/

section Steps

variable {oldest : OldestFirst} {options : QueueOptions} {now : ℤ} {jobs : MemoryJobs} {records : VerificationRecords}

theorem OldestFirst.pick_nil (oldest : OldestFirst) : oldest.pick [] = none := by
  rcases hpick : oldest.pick [] with _ | row
  · rfl
  · exact absurd (oldest.oldest [] row hpick).1 List.not_mem_nil

theorem reached_none {entries : List MemoryJobEntry} (h : entries.find? (isTakeable options now) = none) :
    reached options now entries = entries := by
  induction entries with
  | nil => rfl
  | cons entry entries ih =>
    rw [List.find?_eq_none] at h
    rw [reached, if_neg (h entry List.mem_cons_self),
      ih (List.find?_eq_none.mpr fun e he => h e (List.mem_cons_of_mem _ he))]

theorem reached_some {pre post : List MemoryJobEntry} {entry : MemoryJobEntry}
    (hpre : ∀ e ∈ pre, ¬ isTakeable options now e = true) (htake : isTakeable options now entry = true) :
    reached options now (pre ++ entry :: post) = pre ++ [entry] := by
  induction pre with
  | nil => exact if_pos htake
  | cons e pre ih =>
    rw [List.cons_append, reached, if_neg (hpre e List.mem_cons_self),
      ih fun e' he' => hpre e' (List.mem_cons_of_mem _ he'), List.cons_append]

/-- A timeout that has ended on the last attempt would be the only reason to bury an entry. -/
theorem bury_eq {entry : MemoryJobEntry} (hnot : ¬ isTakeable options now entry = true)
    (hexpired : isStranded now entry = true → Expired options now entry) : bury now entry = entry := by
  refine if_neg fun hstranded => hnot (isTakeable_iff.mpr (Or.inr ⟨hstranded, (hexpired hstranded).2⟩))

/-- The entry that is handed out is the only one of its job. -/
theorem claimed_rows {pre post : List MemoryJobEntry} {entry : MemoryJobEntry} {f : MemoryJobEntry → MemoryJobEntry}
    (hnodup : ((pre ++ entry :: post).map MemoryJobEntry.recordId).Nodup) :
    (pre ++ entry :: post).map (fun e => if e.recordId = entry.recordId then f e else e) =
      pre ++ f entry :: post := by
  rw [List.map_append, List.map_cons] at hnodup
  obtain ⟨-, hcons, hapart⟩ := List.nodup_append.mp hnodup
  have hpre : pre.map (fun e => if e.recordId = entry.recordId then f e else e) = pre := by
    refine (List.map_congr_left fun e he => if_neg ?_).trans (List.map_id' _)
    exact hapart _ (List.mem_map_of_mem he) _ List.mem_cons_self
  have hpost : post.map (fun e => if e.recordId = entry.recordId then f e else e) = post := by
    refine (List.map_congr_left fun e he => if_neg ?_).trans (List.map_id' _)
    exact fun heq => (List.nodup_cons.mp hcons).1 (heq ▸ List.mem_map_of_mem he)
  rw [List.map_append, List.map_cons, hpre, hpost, if_pos rfl]

theorem any_find (recordId : String) :
    (jobs.find recordId).any (BuildQueue.isBuilding recordId) =
      decide (0 < jobs.rows.countP (BuildQueue.isBuilding recordId)) := by
  rw [Bool.eq_iff_iff, decide_eq_true_iff, List.countP_pos_iff]
  constructor
  · intro hany
    rcases hfind : jobs.find recordId with _ | entry
    · rw [hfind] at hany
      exact absurd hany Bool.false_ne_true
    · rw [hfind] at hany
      exact ⟨entry, (Table.mem_of_find hfind).1, hany⟩
  · rintro ⟨entry, hentry, hbuilding⟩
    have hid : entry.recordId = recordId := (of_decide_eq_true hbuilding).1
    subst hid
    rw [Table.find_of_mem hentry]
    exact hbuilding

/-- The queues hand out the same job. -/
theorem same_claim (h : List.Forall₂ (Same options) jobs.rows records.rows) {workerId : String}
    (hagreed : Agreed options jobs records (now, .claim workerId none)) :
    (BuildQueue.claim options now workerId none jobs).2 = (claim oldest options now workerId none records).2 ∧
      List.Forall₂ (Same options) (BuildQueue.claim options now workerId none jobs).1.rows
        (claim oldest options now workerId none records).1.rows := by
  obtain ⟨hexpired, hfirst⟩ := hagreed
  have hnodup := jobs.nodup
  rcases @claimLoop_eq options now workerId options.visibilityTimeoutMs jobs.rows with
    ⟨hnone, heq⟩ | ⟨pre, entry, post, hrows, hfind, htake, hpre, heq⟩
  · -- no job can be claimed
    rw [reached_none hnone] at hexpired
    rw [List.find?_eq_none] at hnone
    have hempty : records.rows.filter (isClaimable (now - options.visibilityTimeoutMs)) = [] := by
      rw [List.filter_eq_nil_iff]
      intro row hrow
      obtain ⟨entry, hentry, hsame⟩ := Partial.exists_left h row hrow
      rw [← hsame.isClaimable (hexpired entry hentry)]
      exact hnone entry hentry
    have hclaim : claim oldest options now workerId none records = (records, none) := by
      rw [claim]
      simp only [Option.getD_none, hempty, oldest.pick_nil]
    have hbury : jobs.rows.map (bury now) = jobs.rows :=
      (List.map_congr_left fun e he => bury_eq (hnone e he) (hexpired e he)).trans (List.map_id' _)
    rw [hclaim, BuildQueue.claim]
    simp only [Option.getD_none, heq, hbury]
    exact ⟨trivial, h⟩
  · rw [hrows, reached_some hpre htake] at hexpired
    have hentry : entry ∈ jobs.rows := hrows ▸ List.mem_append_right _ List.mem_cons_self
    obtain ⟨row, hrow, hsame⟩ := Partial.exists_right h entry hentry
    have hclaimable : isClaimable (now - options.visibilityTimeoutMs) row = true := by
      rw [← hsame.isClaimable (hexpired entry (List.mem_append_right _ (List.mem_singleton_self _)))]
      exact htake
    have hmem : row ∈ records.rows.filter (isClaimable (now - options.visibilityTimeoutMs)) :=
      List.mem_filter.mpr ⟨hrow, hclaimable⟩
    have hpick : oldest.pick (records.rows.filter (isClaimable (now - options.visibilityTimeoutMs))) = some row := by
      rcases hpicked : oldest.pick (records.rows.filter (isClaimable (now - options.visibilityTimeoutMs))) with _ | row'
      · exact absurd hpicked (oldest.found _ (List.ne_nil_of_mem hmem))
      · obtain ⟨hmem', hle⟩ := oldest.oldest _ _ hpicked
        obtain ⟨hrow', hclaimable'⟩ := List.mem_filter.mp hmem'
        have hfound : records.find entry.recordId = some row := hsame.id ▸ Table.find_of_mem hrow
        by_contra hne
        have hlt := hfirst entry hfind row hfound row' hrow' hclaimable' fun heq => hne (congrArg some heq)
        exact absurd (hle row hmem) (not_le.mpr hlt)
    have hclaim : claim oldest options now workerId none records =
        (records.updateWhere (fun r => r.id = row.id) (claimRow now workerId) fun _ => rfl,
          some (claimedJob now workerId (claimRow now workerId row))) := by
      rw [claim]
      simp only [Option.getD_none, hpick]
    have hbury : pre.map (bury now) = pre := by
      refine (List.map_congr_left fun e he => ?_).trans (List.map_id' _)
      exact bury_eq (hpre e he) (hexpired e (List.mem_append_left _ he))
    rw [hclaim, BuildQueue.claim]
    simp only [Option.getD_none, heq, hbury]
    constructor
    · have hjob : entry.job = jobOf (claimRow now workerId row) := hsame.job
      rw [BuildQueue.claimedJob, claimedJob, hsame.id, hjob, hsame.attempts]
      rfl
    · rw [hrows] at hnodup h
      rw [← claimed_rows hnodup]
      refine Forall₂.rewrite h fun e _ r hr => ?_
      have hkey : e.recordId = entry.recordId ↔ decide (r.id = row.id) = true := by
        rw [hr.id, hsame.id, decide_eq_true_iff]
      by_cases hid : e.recordId = entry.recordId
      · rw [if_pos hid, if_pos (hkey.mp hid)]
        exact hr.claim workerId
      · rw [if_neg hid, if_neg fun hid' => hid (hkey.mpr hid')]
        exact hr

/-- The queues answer a call alike and stay in step. -/
theorem same_perform (h : List.Forall₂ (Same options) jobs.rows records.rows) {call : Call}
    (hdefault : DefaultTimeout (now, call)) (hfresh : Fresh jobs (now, call))
    (hagreed : Agreed options jobs records (now, call)) :
    (BuildQueue.perform options now jobs call).2 = (perform oldest options now records call).2 ∧
      List.Forall₂ (Same options) (BuildQueue.step options jobs (now, call)).rows
        (step oldest options records (now, call)).rows := by
  cases call with
  | enqueue job =>
    have hnone : records.find job.recordId = none := by
      refine Table.find_eq_none.mpr fun row hrow heq => ?_
      obtain ⟨entry, hentry, hsame⟩ := Partial.exists_left h row hrow
      exact Table.find_eq_none.mp hfresh entry hentry (hsame.id.trans heq)
    have hjobs : (BuildQueue.step options jobs (now, .enqueue job)).rows =
        jobs.rows ++ [BuildQueue.newEntry options job] := Table.rows_put_new hfresh
    have hrecords : (step oldest options records (now, .enqueue job)).rows =
        records.rows ++ [submittedRow now job] := Table.rows_put_new hnone
    rw [hjobs, hrecords]
    exact ⟨rfl, List.rel_append h (List.Forall₂.cons (Same.submit options now job) List.Forall₂.nil)⟩
  | claim workerId visibilityTimeoutMs =>
    obtain rfl : visibilityTimeoutMs = none := hdefault
    obtain ⟨hjob, hrows⟩ := @same_claim oldest options now jobs records h workerId hagreed
    exact ⟨congrArg Reply.claimed hjob, hrows⟩
  | complete recordId workerId =>
    constructor
    · have hcount := Forall₂.countP h fun _ _ _ hsame => hsame.isBuilding recordId
      refine congrArg Reply.completed ?_
      rw [BuildQueue.complete, complete]
      dsimp only
      rw [← hcount]
      exact any_find recordId
    · refine Forall₂.rewrite h fun e _ r hsame => ?_
      dsimp only
      rw [← hsame.isBuilding recordId]
      split_ifs
      · exact hsame.setStatus rfl rfl rfl nofun nofun
      · exact hsame
  | fail recordId error =>
    refine ⟨rfl, Forall₂.rewrite h fun e _ r hsame => ?_⟩
    by_cases hid : e.recordId = recordId
    · have hid' : r.id = recordId := hsame.id.symm.trans hid
      have hfailed : Same options { e with status := .failed, error := error } (setStatus now .failed r) :=
        hsame.setStatus rfl rfl rfl nofun nofun
      rw [if_pos (decide_eq_true hid), if_pos (decide_eq_true hid')]
      exact ⟨hfailed.id, hfailed.job, hfailed.attempts, hfailed.status, hfailed.live, hfailed.claimed⟩
    · have hid' : r.id ≠ recordId := fun heq => hid (hsame.id.trans heq)
      rw [if_neg fun h => hid (of_decide_eq_true h), if_neg fun h => hid' (of_decide_eq_true h)]
      exact hsame
  | release recordId caller =>
    refine ⟨rfl, Forall₂.rewrite h fun e _ r hsame => ?_⟩
    dsimp only
    rw [← hsame.isBuilding recordId]
    split_ifs
    · exact hsame.setStatus rfl rfl rfl nofun nofun
    · exact hsame
  | reapStranded =>
    constructor
    · exact congrArg Reply.reaped (Forall₂.countP h fun e he r hsame => hsame.isPast (hagreed e he))
    · refine Forall₂.rewrite h fun e he r hsame => ?_
      dsimp only
      rw [← hsame.isPast (hagreed e he), BuildQueue.reapEntry]
      split_ifs with hstranded hmax
      · exact absurd (hagreed e he hstranded).2 (not_lt.mpr hmax)
      · exact hsame.setStatus rfl rfl rfl nofun nofun
      · exact hsame

theorem same_sets (h : List.Forall₂ (Same options) jobs.rows records.rows) : memorySets jobs = storedSets records := by
  have hids : ∀ statuses : List JobStatus, idsOf statuses jobs = storedIds (statuses.map storedStatus) records := by
    intro statuses
    refine congrArg List.toFinset (Forall₂.select h (fun e r hsame => ?_) fun e r hsame => hsame.id)
    rw [Bool.eq_iff_iff, List.contains_iff_mem, List.contains_iff_mem, hsame.status,
      List.mem_map_of_injective storedStatus_injective]
  rw [memorySets, hids, hids, hids]
  rfl

end Steps

/-! ## Runs -/

section Main

variable {oldest : OldestFirst} {options : QueueOptions} {calls : List Timed}

/-- The queues answer alike over a run in which no call comes at the very end of a timeout or finds the timeout of a
last attempt ended, and no two of the jobs that can be claimed are the oldest. -/
theorem same_queue (hdefault : ∀ call ∈ calls, DefaultTimeout call)
    (hfresh : Along (BuildQueue.step options) Fresh Table.empty calls)
    (hagreed : ∀ pre call post, calls = pre ++ call :: post →
      Agreed options (BuildQueue.after options pre) (after oldest options pre) call) :
    SameQueue oldest options calls := by
  rw [along_iff] at hfresh
  have hsame : ∀ pre post, calls = pre ++ post →
      List.Forall₂ (Same options) (BuildQueue.after options pre).rows (after oldest options pre).rows := by
    intro pre post heq
    refine lockstep (R := fun (jobs : MemoryJobs) (records : VerificationRecords) =>
        List.Forall₂ (Same options) jobs.rows records.rows)
      (G := fun jobs records call => DefaultTimeout call ∧ Fresh jobs call ∧ Agreed options jobs records call)
      (fun jobs records call h hguard => (same_perform h hguard.1 hguard.2.1 hguard.2.2).2) List.Forall₂.nil ?_
    intro pre' call post' heq'
    have hcalls : calls = pre' ++ call :: (post' ++ post) := by
      rw [heq, heq', List.append_assoc, List.cons_append]
    exact ⟨hdefault call (hcalls ▸ List.mem_append_right _ List.mem_cons_self), hfresh pre' call _ hcalls,
      hagreed pre' call _ hcalls⟩
  intro pre call post heq
  constructor
  · exact (same_perform (hsame pre (call :: post) heq)
      (hdefault call (heq ▸ List.mem_append_right _ List.mem_cons_self)) (hfresh pre call post heq)
      (hagreed pre call post heq)).1
  · exact same_sets (hsame (pre ++ [call]) post (by rw [heq, List.append_assoc, List.cons_append, List.nil_append]))

end Main

/-! ## A claim at the end of a timeout -/

def oldestOf : List VerificationRow → Option VerificationRow
  | [] => none
  | row :: rows =>
    match oldestOf rows with
    | none => some row
    | some r => if r.createdAt < row.createdAt then some r else some row

theorem oldestOf_spec (rows : List VerificationRow) :
    (oldestOf rows = none ∧ rows = []) ∨
      ∃ row ∈ rows, oldestOf rows = some row ∧ ∀ r ∈ rows, row.createdAt ≤ r.createdAt := by
  induction rows with
  | nil => exact Or.inl ⟨rfl, rfl⟩
  | cons row rows ih =>
    right
    rw [oldestOf]
    rcases ih with ⟨hnone, rfl⟩ | ⟨r, hr, hsome, hle⟩
    · rw [hnone]
      exact ⟨row, List.mem_singleton_self _, rfl, fun r hr => (List.mem_singleton.mp hr ▸ le_refl _)⟩
    · rw [hsome]
      dsimp only
      split_ifs with hlt
      · exact ⟨r, List.mem_cons_of_mem _ hr, rfl, List.forall_mem_cons.mpr ⟨hlt.le, hle⟩⟩
      · refine ⟨row, List.mem_cons_self, rfl, List.forall_mem_cons.mpr ⟨le_refl _, fun r' hr' => ?_⟩⟩
        exact (not_lt.mp hlt).trans (hle r' hr')

/-- Of the rows of one instant the first. -/
def firstOldest : OldestFirst where
  pick := oldestOf
  oldest := by
    intro rows row hpick
    rcases oldestOf_spec rows with ⟨hnone, -⟩ | ⟨r, hr, hsome, hle⟩
    · exact absurd (hnone.symm.trans hpick) nofun
    · obtain rfl := Option.some.inj (hsome.symm.trans hpick)
      exact ⟨hr, hle⟩
  found := by
    intro rows hne hnone
    rcases oldestOf_spec rows with ⟨-, rfl⟩ | ⟨r, -, hsome, -⟩
    · exact hne rfl
    · exact absurd (hsome.symm.trans hnone) nofun

/-- The second worker takes the job after the timeout of the first, and completes it. -/
def takenOver : List Timed :=
  [(0, .enqueue exampleJob), (0, .claim "w1" none), (30001, .claim "w2" none), (31000, .complete "r" "w2")]

theorem same_queue_takenOver : SameQueue firstOldest defaultOptions takenOver :=
  same_queue (by decide) (by decide) (along_both.mp (by decide))

/-- The second worker asks at the very end of the timeout. -/
theorem claim_at_timeout :
    ¬ ∀ calls : List Timed, (∀ call ∈ calls, DefaultTimeout call) →
      Along (BuildQueue.step defaultOptions) Fresh Table.empty calls →
        SameQueue firstOldest defaultOptions calls := by
  intro hall
  have hsame := hall [(0, .enqueue exampleJob), (0, .claim "w1" none), (30000, .claim "w2" none)]
    (by decide) (by decide)
  have hreply := (hsame [(0, .enqueue exampleJob), (0, .claim "w1" none)] (30000, .claim "w2" none) [] rfl).1
  exact absurd hreply (by decide)

end Vellar.Verification.PgQueue
