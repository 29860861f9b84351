import Vellar.Lib.Table
import Vellar.Worker.Types

/-!
# Vellar.Worker.MemoryJobStore — the in-memory job store

`services/worker-service/src/memory-job-store.ts`: a `Map` of rows by record id, and the operations that
mutate them.  `claimLoop_eq` says what one claim takes: the first submitted rows, up to the limit.
-/

set_option autoImplicit false

namespace Vellar.Worker.MemoryJobStore

structure Row where
  recordId : String
  status : VerificationStatus
  job : VerificationJobInput
  submittedAtMs : Option ℤ
  outputHash : Option String
  deployedHash : Option String
  matchMode : Option MatchMode
  log : Option String
  statusDetail : Option String
  completedAtMs : Option ℤ
  attempts : Option ℕ
  startedBuildingAtMs : Option ℤ
deriving DecidableEq

abbrev Store := Table Row.recordId

/-! ## The store -/

/-- The row `submit` sets. -/
def submittedRow (recordId : String) (job : VerificationJobInput) (submittedAtMs : ℤ) : Row :=
  ⟨recordId, .submitted, job, some submittedAtMs, none, none, none, none, none, none, none, none⟩

def submit (s : Store) (recordId : String) (job : VerificationJobInput) (submittedAtMs : ℤ) : Store :=
  s.put (submittedRow recordId job submittedAtMs)

/-- A claimed row. -/
def claimRow (now : ℤ) (row : Row) : Row :=
  { row with
    status := .building
    attempts := some (row.attempts.getD 0 + 1)
    startedBuildingAtMs := some now }

def claimedJob (row : Row) : ClaimedJob :=
  { row.job with
    recordId := row.recordId
    submittedAtMs := row.submittedAtMs
    traceId := none
    traceParentSpanId := none }

/-- The loop of `claimSubmitted` over the rows, `n` of them already claimed. -/
def claimLoop (limit : ℕ) (now : ℤ) : ℕ → List Row → List Row × List ClaimedJob
  | _, [] => ([], [])
  | n, row :: rows =>
    if n ≥ limit then (row :: rows, [])
    else if row.status = .submitted then
      let r := claimLoop limit now (n + 1) rows
      (claimRow now row :: r.1, claimedJob row :: r.2)
    else
      let r := claimLoop limit now n rows
      (row :: r.1, r.2)

theorem claimLoop_keys (limit : ℕ) (now : ℤ) (n : ℕ) (rows : List Row) :
    (claimLoop limit now n rows).1.map Row.recordId = rows.map Row.recordId := by
  induction rows generalizing n with
  | nil => rfl
  | cons row rows ih =>
    rw [claimLoop]
    split_ifs
    · rfl
    · rw [List.map_cons, List.map_cons, ih]
      rfl
    · rw [List.map_cons, List.map_cons, ih]

def claimSubmitted (s : Store) (limit : ℕ) (now : ℤ) : Store × List ClaimedJob :=
  (⟨(claimLoop limit now 0 s.rows).1, by
      rw [claimLoop_keys]
      exact s.nodup⟩,
    (claimLoop limit now 0 s.rows).2)

/-- The claim of the row is older than the timeout. -/
def Stranded (timeoutMs now : ℤ) (row : Row) : Prop :=
  row.status = .building ∧ ¬ now - row.startedBuildingAtMs.getD now ≤ timeoutMs

instance (timeoutMs now : ℤ) (row : Row) : Decidable (Stranded timeoutMs now row) :=
  inferInstanceAs (Decidable (_ ∧ _))

/-- The row has used all its attempts. -/
def Exhausted (maxAttempts : ℕ) (row : Row) : Prop := row.attempts.getD 0 ≥ maxAttempts

instance (maxAttempts : ℕ) (row : Row) : Decidable (Exhausted maxAttempts row) :=
  inferInstanceAs (Decidable (_ ≥ _))

/-- What `reapStranded` does to a row. -/
def reapRow (timeoutMs : ℤ) (maxAttempts : ℕ) (now : ℤ) (row : Row) : Row :=
  if ¬ Stranded timeoutMs now row then row
  else if Exhausted maxAttempts row then { row with status := .deadLetter, completedAtMs := some now }
  else { row with status := .submitted, startedBuildingAtMs := none }

theorem reapRow_recordId (timeoutMs : ℤ) (maxAttempts : ℕ) (now : ℤ) (row : Row) :
    (reapRow timeoutMs maxAttempts now row).recordId = row.recordId := by
  unfold reapRow
  split_ifs <;> rfl

def reapStranded (s : Store) (timeoutMs : ℤ) (maxAttempts : ℕ) (now : ℤ) : Store × ReapResult :=
  (s.modify (reapRow timeoutMs maxAttempts now) (reapRow_recordId timeoutMs maxAttempts now),
    { reclaimed := s.rows.countP fun row => Stranded timeoutMs now row ∧ ¬ Exhausted maxAttempts row
      deadLettered := s.rows.countP fun row => Stranded timeoutMs now row ∧ Exhausted maxAttempts row })

/-- The loop of `countActive`. -/
def countActive (s : Store) : ℕ := s.rows.foldl (fun n row => if row.status.IsActive then n + 1 else n) 0

def hasActiveForContract (s : Store) (contractId : String) : Bool :=
  s.rows.any fun row => row.job.contractId = contractId ∧ row.status.IsActive

/-- A completed row. -/
def completeRow (result : VerificationOutcome) (now : ℤ) (row : Row) : Row :=
  { row with
    status := result.status.toStatus
    outputHash := result.outputHash
    deployedHash := result.deployedHash
    matchMode := result.matchMode
    log := some result.log
    statusDetail := some result.statusDetail
    completedAtMs := some now }

theorem completeRow_recordId (result : VerificationOutcome) (now : ℤ) (row : Row) :
    (completeRow result now row).recordId = row.recordId := rfl

/-- `complete`: whatever the row's status is. -/
def complete (s : Store) (recordId : String) (result : VerificationOutcome) (now : ℤ) : Store :=
  s.updateWhere (fun row => row.recordId = recordId) (completeRow result now) (completeRow_recordId result now)

/-- The body of the first loop of `listLatestVerified`. -/
def latestStep (latest : Table fun row : Row => row.job.contractId) (row : Row) :
    Table fun row : Row => row.job.contractId :=
  if ¬ row.status.IsTerminal then latest
  else
    match latest.find row.job.contractId with
    | none => latest.put row
    | some current =>
      if row.completedAtMs.getD 0 > current.completedAtMs.getD 0 then latest.put row else latest

/-- The watch-list entry of a latest terminal row. -/
def watchEntry (row : Row) : Option WatchEntry :=
  if row.status = .verified then
    watchEntryOf row.job.contractId (attestedHash row.matchMode row.outputHash row.deployedHash)
  else none

def listLatestVerified (s : Store) (limit : ℕ) : List WatchEntry :=
  ((s.rows.foldl latestStep Table.empty).rows.filterMap watchEntry).take limit

/-! ## What one operation does to a row -/

section Rows

variable {s : Store} {id : String} {limit : ℕ} {now : ℤ}

/-- The rows a claim takes: the first submitted ones. -/
def batch (s : Store) (limit : ℕ) : List Row := (s.rows.filter fun row => row.status = .submitted).take limit

theorem claimLoop_eq (limit : ℕ) (now : ℤ) {n : ℕ} {rows : List Row} (hnodup : (rows.map Row.recordId).Nodup) :
    claimLoop limit now n rows =
      (rows.map (fun row => if row.recordId ∈ (((rows.filter fun row => row.status = .submitted).take
          (limit - n)).map Row.recordId) then claimRow now row else row),
        ((rows.filter fun row => row.status = .submitted).take (limit - n)).map claimedJob) := by
  induction rows generalizing n with
  | nil => simp [claimLoop]
  | cons row rows ih =>
    obtain ⟨hnot, hnodup'⟩ := List.nodup_cons.mp (List.map_cons ▸ hnodup)
    rw [claimLoop]
    by_cases hlim : n ≥ limit
    · have h0 : limit - n = 0 := by omega
      simp [hlim, h0]
    · rw [if_neg hlim]
      by_cases hsub : row.status = .submitted
      · obtain ⟨m, hm⟩ : ∃ m, limit - n = m + 1 := ⟨limit - n - 1, by omega⟩
        have hm' : limit - (n + 1) = m := by omega
        have hother : ∀ r ∈ rows, r.recordId ≠ row.recordId := fun r hr heq =>
          hnot (heq ▸ List.mem_map_of_mem hr)
        rw [if_pos hsub, ih hnodup', hm', hm]
        simp only [List.filter_cons, hsub, decide_true, if_true, List.take_succ_cons, List.map_cons,
          List.mem_cons, true_or]
        refine Prod.ext (congrArg (List.cons _) (List.map_congr_left fun r hr => ?_)) rfl
        simp [hother r hr]
      · have hrow : row.recordId ∉ ((rows.filter fun row => row.status = .submitted).take
            (limit - n)).map Row.recordId := by
          intro hmem
          obtain ⟨r, hr, heq⟩ := List.mem_map.mp hmem
          exact hnot (heq ▸ List.mem_map_of_mem (List.mem_filter.mp (List.mem_of_mem_take hr)).1)
        rw [if_neg hsub, ih hnodup']
        simp only [List.filter_cons, hsub, decide_false, Bool.false_eq_true, if_false, List.map_cons]
        rw [if_neg hrow]

/-- The claim takes the row. -/
def Takes (s : Store) (limit : ℕ) (id : String) : Prop := id ∈ (batch s limit).map Row.recordId

theorem claimSubmitted_jobs : (claimSubmitted s limit now).2 = (batch s limit).map claimedJob := by
  show (claimLoop limit now 0 s.rows).2 = _
  rw [claimLoop_eq limit now s.nodup]
  rfl

theorem batch_nodup : ((batch s limit).map Row.recordId).Nodup :=
  s.nodup.sublist (((List.take_sublist _ _).trans List.filter_sublist).map _)

theorem takes_submitted (h : Takes s limit id) : ∃ row, s.find id = some row ∧ row.status = .submitted := by
  obtain ⟨row, hmem, rfl⟩ := List.mem_map.mp h
  obtain ⟨hrow, hsub⟩ := List.mem_filter.mp (List.mem_of_mem_take hmem)
  exact ⟨row, Table.find_of_mem hrow, by simpa using hsub⟩

instance : Decidable (Takes s limit id) := inferInstanceAs (Decidable (_ ∈ _))

theorem rows_claimSubmitted :
    (claimSubmitted s limit now).1.rows =
      s.rows.map fun row => if Takes s limit row.recordId then claimRow now row else row := by
  show (claimLoop limit now 0 s.rows).1 = _
  rw [claimLoop_eq limit now s.nodup]
  rfl

theorem find_claimSubmitted :
    (claimSubmitted s limit now).1.find id =
      (s.find id).map fun row => if Takes s limit id then claimRow now row else row := by
  have hrows : (claimSubmitted s limit now).1 =
      s.modify (fun row => if Takes s limit row.recordId then claimRow now row else row)
        fun row => by split_ifs <;> rfl := Table.ext_rows rows_claimSubmitted
  rw [hrows, Table.find_modify]
  cases hfind : s.find id with
  | none => rfl
  | some row =>
    obtain ⟨-, rfl⟩ := Table.mem_of_find hfind
    rfl

theorem find_submit {recordId : String} {job : VerificationJobInput} {submittedAtMs : ℤ} :
    (submit s recordId job submittedAtMs).find id =
      if recordId = id then some (submittedRow recordId job submittedAtMs) else s.find id := Table.find_put

theorem find_complete {recordId : String} {result : VerificationOutcome} :
    (complete s recordId result now).find id =
      (s.find id).map fun row => if row.recordId = recordId then completeRow result now row else row := by
  unfold complete
  rw [Table.find_updateWhere]
  simp only [decide_eq_true_eq]

theorem find_reapStranded {timeoutMs : ℤ} {maxAttempts : ℕ} :
    (reapStranded s timeoutMs maxAttempts now).1.find id = (s.find id).map (reapRow timeoutMs maxAttempts now) := by
  unfold reapStranded
  rw [Table.find_modify]

theorem countActive_eq : countActive s = s.rows.countP fun row => row.status.IsActive := by
  have hfold : ∀ (rows : List Row) (n : ℕ),
      rows.foldl (fun n row => if row.status.IsActive then n + 1 else n) n =
        n + rows.countP fun row => row.status.IsActive := by
    intro rows
    induction rows with
    | nil => intro n; rfl
    | cons row rows ih =>
      intro n
      rw [List.foldl_cons, ih, List.countP_cons]
      by_cases h : row.status.IsActive
      · rw [if_pos h, if_pos (by simpa using h)]
        omega
      · rw [if_neg h, if_neg (by simpa using h)]
        omega
  unfold countActive
  rw [hfold, Nat.zero_add]

end Rows

/-! ## The latest record of a contract -/

/-- What the loop of `listLatestVerified` has kept of the rows it has seen. -/
structure Latest (rows : List Row) (latest : Table fun row : Row => row.job.contractId) : Prop where
  none : ∀ c, latest.find c = none → ∀ row ∈ rows, row.status.IsTerminal → row.job.contractId ≠ c
  some : ∀ c kept, latest.find c = some kept → kept ∈ rows ∧ ∀ row ∈ rows, row.status.IsTerminal →
    row.job.contractId = c → row.completedAtMs.getD 0 ≤ kept.completedAtMs.getD 0

theorem latest_step {rows : List Row} {latest : Table fun row : Row => row.job.contractId} (h : Latest rows latest)
    (row : Row) : Latest (rows ++ [row]) (latestStep latest row) := by
  have hold : ¬ row.status.IsTerminal ∨ (∃ kept, latest.find row.job.contractId = some kept ∧
      row.completedAtMs.getD 0 ≤ kept.completedAtMs.getD 0) → Latest (rows ++ [row]) latest := by
    intro hskip
    refine ⟨fun c hc r hr hterm => ?_, fun c kept hc =>
      ⟨List.mem_append_left _ (h.some c kept hc).1, fun r hr hterm hrc => ?_⟩⟩
    · rcases List.mem_append.mp hr with hr | hr
      · exact h.none c hc r hr hterm
      · rw [List.mem_singleton.mp hr] at hterm ⊢
        rcases hskip with hno | ⟨kept, hkept, -⟩
        · exact absurd hterm hno
        · rintro rfl
          rw [hkept] at hc
          cases hc
    · rcases List.mem_append.mp hr with hr | hr
      · exact (h.some c kept hc).2 r hr hterm hrc
      · rw [List.mem_singleton.mp hr] at hterm hrc ⊢
        rcases hskip with hno | ⟨kept', hkept', hle⟩
        · exact absurd hterm hno
        · rw [hrc, hc] at hkept'
          cases hkept'
          exact hle
  have hput : (∀ r ∈ rows, r.status.IsTerminal → r.job.contractId = row.job.contractId →
      r.completedAtMs.getD 0 ≤ row.completedAtMs.getD 0) → Latest (rows ++ [row]) (latest.put row) := by
    intro hmax
    refine ⟨fun c hc r hr hterm => ?_, fun c kept hc => ?_⟩
    · rw [Table.find_put] at hc
      split_ifs at hc with hrow
      rcases List.mem_append.mp hr with hr | hr
      · exact h.none c hc r hr hterm
      · rw [List.mem_singleton.mp hr]
        exact hrow
    · rw [Table.find_put] at hc
      split_ifs at hc with hrow
      · cases hc
        refine ⟨by simp, fun r hr hterm hrc => ?_⟩
        rcases List.mem_append.mp hr with hr | hr
        · exact hmax r hr hterm (hrc.trans hrow.symm)
        · rw [List.mem_singleton.mp hr]
      · refine ⟨List.mem_append_left _ (h.some c kept hc).1, fun r hr hterm hrc => ?_⟩
        rcases List.mem_append.mp hr with hr | hr
        · exact (h.some c kept hc).2 r hr hterm hrc
        · rw [List.mem_singleton.mp hr] at hrc
          exact absurd hrc hrow
  unfold latestStep
  by_cases hterm : row.status.IsTerminal
  · rw [if_neg (not_not.mpr hterm)]
    cases hfind : latest.find row.job.contractId with
    | none => exact hput fun r hr hterm' hrc => absurd hrc (h.none _ hfind r hr hterm')
    | some current =>
      simp only
      split_ifs with hlt
      · exact hput fun r hr hterm' hrc => le_of_lt (lt_of_le_of_lt ((h.some _ _ hfind).2 r hr hterm' hrc) hlt)
      · exact hold (Or.inr ⟨current, hfind, not_lt.mp hlt⟩)
  · rw [if_pos hterm]
    exact hold (Or.inl hterm)

theorem latest_rows (rows : List Row) : Latest rows (rows.foldl latestStep Table.empty) := by
  induction rows using List.reverseRecOn with
  | nil => exact ⟨fun _ _ _ hrow => absurd hrow (by simp), fun _ _ hc => by simp at hc⟩
  | append_singleton rows row ih =>
    rw [List.foldl_append]
    exact latest_step ih row

theorem watchEntry_eq_some {row : Row} {entry : WatchEntry} :
    watchEntry row = some entry ↔ row.status = .verified ∧ entry.contractId = row.job.contractId ∧
      attestedHash row.matchMode row.outputHash row.deployedHash = some entry.outputHash ∧
      entry.outputHash ≠ "" := by
  unfold watchEntry
  by_cases h : row.status = .verified
  · rw [if_pos h, watchEntryOf_eq_some]
    exact (and_iff_right h).symm
  · rw [if_neg h]
    exact ⟨fun hno => absurd hno (by simp), fun hv => absurd hv.1 h⟩

/-- **The watch list follows the newest verdict**: an entry of a contract is made of the contract's row that
was completed last. -/
theorem watched_newest {s : Store} {limit : ℕ} {row : Row} (hrow : row ∈ s.rows) (hterm : row.status.IsTerminal)
    (hnewest : ∀ r ∈ s.rows, r.status.IsTerminal → r.job.contractId = row.job.contractId →
      r.recordId ≠ row.recordId → r.completedAtMs.getD 0 < row.completedAtMs.getD 0) {entry : WatchEntry}
    (hentry : entry ∈ listLatestVerified s limit) (hid : entry.contractId = row.job.contractId) :
    watchEntry row = some entry := by
  obtain ⟨kept, hkept, hwatch⟩ := List.mem_filterMap.mp (List.mem_of_mem_take hentry)
  obtain ⟨hverified, hkc, -, -⟩ := watchEntry_eq_some.mp hwatch
  have hlatest := latest_rows s.rows
  obtain ⟨hmem, hmax⟩ := hlatest.some _ kept (Table.find_of_mem hkept)
  have hle := hmax row hrow hterm (by rw [← hkc, hid])
  by_cases hsame : kept.recordId = row.recordId
  · have h1 := Table.find_of_mem hmem
    rw [hsame, Table.find_of_mem hrow] at h1
    rw [Option.some.inj h1]
    exact hwatch
  · have hlt := hnewest kept hmem (Or.inl hverified) (by rw [← hkc, hid]) hsame
    omega

end Vellar.Worker.MemoryJobStore
