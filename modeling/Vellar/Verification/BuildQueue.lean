import Vellar.Lib.Machine
import Vellar.Lib.Table
import Vellar.Worker.Types

/-!
# Vellar.Verification.BuildQueue — the build queue in memory

`services/verification-service/src/db/pg-queue.ts` without a database.  The log of a run has the claims that were
handed out and the releases; the worker of a release is the one that calls it, which the code does not ask for.
`jobs_safe`: what a run keeps in which late calls do no harm.
-/

set_option autoImplicit false

namespace Vellar.Verification.BuildQueue

open Machine
open Worker (SourceType)

structure BuildJob where
  recordId : String
  contractId : String
  sourceType : SourceType
  repoUrl : Option String
  commitHash : Option String
  sourceArchiveRef : Option String
  toolchainVersion : String
  buildFlags : Option (List String)
  traceId : Option String
  traceParentSpanId : Option String
deriving DecidableEq

/-- `PgQueueOptions`, without the clock. -/
structure QueueOptions where
  visibilityTimeoutMs : ℤ
  maxAttempts : ℕ

def defaultOptions : QueueOptions := ⟨30000, 3⟩

structure ClaimedBuildJob where
  recordId : String
  job : BuildJob
  attempts : ℕ
  claimedAt : ℤ
  claimedBy : String
deriving DecidableEq

inductive JobStatus where
  | submitted
  | building
  | completed
  | failed
  | deadLetter
deriving DecidableEq

structure MemoryJobEntry where
  recordId : String
  job : BuildJob
  status : JobStatus
  attempts : ℕ
  claimedAt : Option ℤ
  claimedBy : Option String
  visibilityTimeoutMs : ℤ
  error : Option String
deriving DecidableEq

/-- `memoryJobs` -/
abbrev MemoryJobs := Table MemoryJobEntry.recordId

/-- A call of the queue; the clock is read for it. -/
inductive Call where
  | enqueue (job : BuildJob)
  | claim (workerId : String) (visibilityTimeoutMs : Option ℤ)
  | complete (recordId workerId : String)
  | fail (recordId : String) (error : Option String)
  | release (recordId caller : String)
  | reapStranded
deriving DecidableEq

inductive Reply where
  | done
  | claimed (job : Option ClaimedBuildJob)
  | completed (done : Bool)
  | reaped (count : ℕ)
deriving DecidableEq

/-! ## The operations -/

section Model

variable (options : QueueOptions) (now : ℤ)

def newEntry (job : BuildJob) : MemoryJobEntry :=
  ⟨job.recordId, job, .submitted, 0, none, none, options.visibilityTimeoutMs, none⟩

def isStranded (entry : MemoryJobEntry) : Bool :=
  decide (entry.status = .building) && entry.claimedAt.any fun claimedAt =>
    decide (now - claimedAt ≥ entry.visibilityTimeoutMs)

/-- The entry as a claim leaves it. -/
def claimEntry (workerId : String) (timeout : ℤ) (entry : MemoryJobEntry) : MemoryJobEntry :=
  { entry with
    status := .building
    attempts := entry.attempts + 1
    claimedAt := some now
    claimedBy := some workerId
    visibilityTimeoutMs := timeout }

def claimedJob (entry : MemoryJobEntry) (workerId : String) : ClaimedBuildJob :=
  ⟨entry.recordId, entry.job, entry.attempts + 1, now, workerId⟩

/-- The loop of `claim`. -/
def claimLoop (workerId : String) (timeout : ℤ) :
    List MemoryJobEntry → List MemoryJobEntry × Option ClaimedBuildJob
  | [] => ([], none)
  | entry :: entries =>
    if entry.status = .submitted ∨ isStranded now entry = true then
      if entry.attempts ≥ options.maxAttempts ∧ isStranded now entry = true then
        let r := claimLoop workerId timeout entries
        ({ entry with status := .deadLetter } :: r.1, r.2)
      else (claimEntry now workerId timeout entry :: entries, some (claimedJob now entry workerId))
    else
      let r := claimLoop workerId timeout entries
      (entry :: r.1, r.2)

theorem claimLoop_keys (workerId : String) (timeout : ℤ) (entries : List MemoryJobEntry) :
    (claimLoop options now workerId timeout entries).1.map MemoryJobEntry.recordId =
      entries.map MemoryJobEntry.recordId := by
  induction entries with
  | nil => rfl
  | cons entry entries ih =>
    rw [claimLoop]
    split_ifs
    · rw [List.map_cons, List.map_cons, ih]
    · rfl
    · rw [List.map_cons, List.map_cons, ih]

def claim (workerId : String) (visibilityTimeoutMs : Option ℤ) (jobs : MemoryJobs) :
    MemoryJobs × Option ClaimedBuildJob :=
  let timeout := visibilityTimeoutMs.getD options.visibilityTimeoutMs
  (⟨(claimLoop options now workerId timeout jobs.rows).1, by
      rw [claimLoop_keys]
      exact jobs.nodup⟩,
    (claimLoop options now workerId timeout jobs.rows).2)

def isBuilding (recordId : String) (entry : MemoryJobEntry) : Bool :=
  decide (entry.recordId = recordId ∧ entry.status = .building)

/-- The worker is not looked at. -/
def complete (recordId _workerId : String) (jobs : MemoryJobs) : MemoryJobs × Bool :=
  (jobs.updateWhere (isBuilding recordId) (fun entry => { entry with status := .completed }) fun _ => rfl,
    (jobs.find recordId).any (isBuilding recordId))

def fail (recordId : String) (error : Option String) (jobs : MemoryJobs) : MemoryJobs :=
  jobs.updateWhere (fun entry => entry.recordId = recordId)
    (fun entry => { entry with status := .failed, error := error }) fun _ => rfl

/-- An entry that is taken from its worker. -/
def unclaim (entry : MemoryJobEntry) : MemoryJobEntry :=
  { entry with status := .submitted, claimedBy := none, claimedAt := none }

def release (recordId : String) (jobs : MemoryJobs) : MemoryJobs :=
  jobs.updateWhere (isBuilding recordId) unclaim fun _ => rfl

def reapEntry (entry : MemoryJobEntry) : MemoryJobEntry :=
  if isStranded now entry then
    if entry.attempts ≥ options.maxAttempts then { entry with status := .deadLetter } else unclaim entry
  else entry

theorem reapEntry_recordId (entry : MemoryJobEntry) : (reapEntry options now entry).recordId = entry.recordId := by
  rw [reapEntry]
  split_ifs <;> rfl

def reapStranded (jobs : MemoryJobs) : MemoryJobs × ℕ :=
  (jobs.modify (reapEntry options now) (reapEntry_recordId options now), jobs.rows.countP (isStranded now))

/-- What a call answers, and the jobs after it. -/
def perform (jobs : MemoryJobs) : Call → MemoryJobs × Reply
  | .enqueue job => (jobs.put (newEntry options job), .done)
  | .claim workerId visibilityTimeoutMs =>
    ((claim options now workerId visibilityTimeoutMs jobs).1,
      .claimed (claim options now workerId visibilityTimeoutMs jobs).2)
  | .complete recordId workerId => ((complete recordId workerId jobs).1, .completed (complete recordId workerId jobs).2)
  | .fail recordId error => (fail recordId error jobs, .done)
  | .release recordId _ => (release recordId jobs, .done)
  | .reapStranded => ((reapStranded options now jobs).1, .reaped (reapStranded options now jobs).2)

end Model

/-! ## Runs -/

/-- A call and the reading of the clock. -/
abbrev Timed := ℤ × Call

inductive Event where
  | claimed (recordId workerId : String) (now timeout : ℤ)
  | released (recordId caller : String)
deriving DecidableEq

section Runs

variable (options : QueueOptions)

def step (jobs : MemoryJobs) (call : Timed) : MemoryJobs := (perform options call.1 jobs call.2).1

/-- What a call adds to the log. -/
def events (jobs : MemoryJobs) : Timed → List Event
  | (now, .claim workerId visibilityTimeoutMs) =>
    match (claim options now workerId visibilityTimeoutMs jobs).2 with
    | some job =>
      [.claimed job.recordId workerId now (visibilityTimeoutMs.getD options.visibilityTimeoutMs)]
    | none => []
  | (_, .release recordId caller) =>
    if (jobs.find recordId).any (isBuilding recordId) then [.released recordId caller] else []
  | _ => []

/-- The jobs after the calls. -/
def after (calls : List Timed) : MemoryJobs := run (step options) Table.empty calls

def log (calls : List Timed) : List Event := logOf (step options) (events options) Table.empty calls

/-- How often a job was handed out. -/
def handOuts (recordId : String) (log : List Event) : ℕ :=
  log.countP fun e => match e with
    | .claimed id _ _ _ => decide (id = recordId)
    | .released _ _ => false

def openStep (recordId : String) (claims : List (String × ℤ)) : Event → List (String × ℤ)
  | .claimed id workerId now timeout => if id = recordId then claims ++ [(workerId, now + timeout)] else claims
  | .released id caller => if id = recordId then claims.filter fun c => c.1 ≠ caller else claims

/-- The claims of a job that their workers have not released, with the time at which each one's timeout ends. -/
def openClaims (recordId : String) (log : List Event) : List (String × ℤ) := log.foldl (openStep recordId) []

def JobStatus.IsFinal : JobStatus → Prop
  | .completed | .failed | .deadLetter => True
  | .submitted | .building => False

/-- Every job is safe in a run. -/
structure JobsSafe (calls : List Timed) : Prop where
  limited : ∀ recordId, handOuts recordId (log options calls) ≤ options.maxAttempts
  apart : Each (fun pre e => ∀ recordId workerId now timeout, e = .claimed recordId workerId now timeout →
    ∀ c ∈ openClaims recordId pre, c.2 ≤ now) (log options calls)
  final : ∀ pre call post, calls = pre ++ call :: post → ∀ recordId entry,
    (after options pre).find recordId = some entry → entry.status.IsFinal →
      ∃ entry', (after options (pre ++ [call])).find recordId = some entry' ∧ entry'.status = entry.status
  owned : ∀ pre now recordId workerId post, calls = pre ++ (now, .complete recordId workerId) :: post →
    (perform options now (after options pre) (.complete recordId workerId)).2 = .completed true →
      ∃ entry, (after options pre).find recordId = some entry ∧ entry.status = .building ∧
        entry.claimedBy = some workerId

/-- No id is enqueued twice. -/
def Fresh (jobs : MemoryJobs) : Timed → Prop
  | (_, .enqueue job) => jobs.find job.recordId = none
  | _ => True

/-- The entry that a claim hands out, if there is any. -/
def isTakeable (now : ℤ) (entry : MemoryJobEntry) : Bool :=
  decide (entry.status = .submitted) || isStranded now entry && decide (entry.attempts < options.maxAttempts)

/-- A claim takes no submitted job that has been handed out as often as is allowed, a building job is completed by the
worker that has it and released by that worker or after the timeout, and no job is failed that is completed or
dead-lettered. -/
def Orderly (jobs : MemoryJobs) : Timed → Prop
  | (now, .claim _ _) => ∀ entry ∈ jobs.rows.find? (isTakeable options now),
      entry.status = .submitted → entry.attempts < options.maxAttempts
  | (_, .complete recordId workerId) => ∀ entry ∈ jobs.find recordId, entry.status = .building →
      entry.claimedBy = some workerId
  | (now, .release recordId caller) => ∀ entry ∈ jobs.find recordId, entry.status = .building →
      entry.claimedBy = some caller ∨ isStranded now entry = true
  | (_, .fail recordId _) => ∀ entry ∈ jobs.find recordId, entry.status ≠ .completed ∧ entry.status ≠ .deadLetter
  | _ => True

instance (jobs : MemoryJobs) : ∀ call, Decidable (Fresh jobs call)
  | (_, .enqueue _) => inferInstanceAs (Decidable (_ = none))
  | (_, .claim _ _) | (_, .complete _ _) | (_, .fail _ _) | (_, .release _ _) | (_, .reapStranded) => isTrue trivial

instance (jobs : MemoryJobs) : ∀ call, Decidable (Orderly options jobs call)
  | (_, .claim _ _) | (_, .complete _ _) | (_, .release _ _) | (_, .fail _ _) => Option.decidableForallMem _
  | (_, .enqueue _) | (_, .reapStranded) => isTrue trivial

end Runs

/-! ## What a claim does -/

section Claims

variable {options : QueueOptions} {now : ℤ} {workerId : String} {timeout : ℤ}

/-- What a claim does to an entry that it passes over. -/
def bury (now : ℤ) (entry : MemoryJobEntry) : MemoryJobEntry :=
  if isStranded now entry then { entry with status := .deadLetter } else entry

theorem isStranded_iff {entry : MemoryJobEntry} :
    isStranded now entry = true ↔
      entry.status = .building ∧ ∃ t, entry.claimedAt = some t ∧ t + entry.visibilityTimeoutMs ≤ now := by
  rw [isStranded, Bool.and_eq_true, decide_eq_true_iff]
  refine and_congr_right fun _ => ?_
  rcases entry.claimedAt with _ | t
  · simp
  · simp only [Option.any_some, decide_eq_true_iff, Option.some.injEq, exists_eq_left']
    omega

theorem isTakeable_iff {entry : MemoryJobEntry} :
    isTakeable options now entry = true ↔
      entry.status = .submitted ∨ isStranded now entry = true ∧ entry.attempts < options.maxAttempts := by
  rw [isTakeable, Bool.or_eq_true, Bool.and_eq_true, decide_eq_true_iff, decide_eq_true_iff]

/-- A claim buries the entries up to the first that it can take, and takes that. -/
theorem claimLoop_eq (entries : List MemoryJobEntry) :
    (entries.find? (isTakeable options now) = none ∧
      claimLoop options now workerId timeout entries = (entries.map (bury now), none)) ∨
    ∃ pre entry post, entries = pre ++ entry :: post ∧ entries.find? (isTakeable options now) = some entry ∧
      isTakeable options now entry = true ∧ (∀ e ∈ pre, ¬ isTakeable options now e = true) ∧
      claimLoop options now workerId timeout entries =
        (pre.map (bury now) ++ claimEntry now workerId timeout entry :: post,
          some (claimedJob now entry workerId)) := by
  induction entries with
  | nil => exact Or.inl ⟨rfl, rfl⟩
  | cons entry entries ih =>
    by_cases htake : isTakeable options now entry = true
    · refine Or.inr ⟨[], entry, entries, rfl, List.find?_cons_of_pos htake, htake,
        fun _ he => absurd he List.not_mem_nil, ?_⟩
      have hfirst : entry.status = .submitted ∨ isStranded now entry = true :=
        (isTakeable_iff.mp htake).imp_right And.left
      have hnot : ¬ (entry.attempts ≥ options.maxAttempts ∧ isStranded now entry = true) := by
        rintro ⟨hmax, hstranded⟩
        rcases isTakeable_iff.mp htake with hsubmitted | ⟨-, hless⟩
        · rw [(isStranded_iff.mp hstranded).1] at hsubmitted
          exact JobStatus.noConfusion hsubmitted
        · omega
      rw [claimLoop, if_pos hfirst, if_neg hnot]
      rfl
    · have hfind : (entry :: entries).find? (isTakeable options now) = entries.find? (isTakeable options now) :=
        List.find?_cons_of_neg htake
      have hbury : ∀ r, claimLoop options now workerId timeout entries = r →
          claimLoop options now workerId timeout (entry :: entries) = (bury now entry :: r.1, r.2) := by
        rintro r rfl
        have hnot := htake
        rw [isTakeable_iff, not_or, not_and] at hnot
        rw [claimLoop, bury]
        by_cases hstranded : isStranded now entry = true
        · rw [if_pos (Or.inr hstranded), if_pos ⟨not_lt.mp (hnot.2 hstranded), hstranded⟩, if_pos hstranded]
        · rw [if_neg (not_or.mpr ⟨hnot.1, hstranded⟩), if_neg hstranded]
      rcases ih with ⟨hnone, heq⟩ | ⟨pre, e, post, rfl, hsome, he, hpre, heq⟩
      · exact Or.inl ⟨hfind.trans hnone, hbury _ heq⟩
      · exact Or.inr ⟨entry :: pre, e, post, rfl, hfind.trans hsome, he, List.forall_mem_cons.mpr ⟨htake, hpre⟩,
          hbury _ heq⟩

end Claims

/-! ## What a run keeps -/

section Invariant

variable (options : QueueOptions) (now : ℤ) (log : List Event)

/-- An entry and the history of its job. -/
structure EntryOk (entry : MemoryJobEntry) : Prop where
  counted : handOuts entry.recordId log = entry.attempts
  capped : entry.attempts ≤ options.maxAttempts
  opened : ¬ entry.status.IsFinal → ∀ c ∈ openClaims entry.recordId log,
    c.2 ≤ now ∨ entry.status = .building ∧ entry.claimedBy = some c.1 ∧
      ∃ t, entry.claimedAt = some t ∧ c.2 = t + entry.visibilityTimeoutMs

/-- No claim is handed out while another one of the job is open. -/
def Apart : Prop :=
  Each (fun pre e => ∀ recordId workerId now timeout, e = .claimed recordId workerId now timeout →
    ∀ c ∈ openClaims recordId pre, c.2 ≤ now) log

structure Tracked (entries : List MemoryJobEntry) : Prop where
  each : ∀ entry ∈ entries, EntryOk options now log entry
  absent : ∀ recordId, (∀ entry ∈ entries, entry.recordId ≠ recordId) →
    handOuts recordId log = 0 ∧ openClaims recordId log = []
  apart : Apart log

end Invariant

section Steps

variable {options : QueueOptions} {now : ℤ} {history : List Event} {jobs : MemoryJobs} {entry : MemoryJobEntry}
  {entries : List MemoryJobEntry}

def Event.recordId : Event → String
  | .claimed recordId _ _ _ | .released recordId _ => recordId

theorem handOuts_snoc (recordId : String) (e : Event) :
    handOuts recordId (history ++ [e]) = handOuts recordId history +
      match e with
        | .claimed id _ _ _ => if id = recordId then 1 else 0
        | .released _ _ => 0 := by
  rw [handOuts, handOuts, List.countP_append, List.countP_singleton]
  cases e <;> simp

theorem openClaims_snoc (recordId : String) (e : Event) :
    openClaims recordId (history ++ [e]) = openStep recordId (openClaims recordId history) e := by
  rw [openClaims, openClaims, List.foldl_append]
  rfl

theorem handOuts_other {recordId : String} {e : Event} (h : e.recordId ≠ recordId) :
    handOuts recordId (history ++ [e]) = handOuts recordId history := by
  rw [handOuts_snoc]
  cases e with
  | claimed id =>
    have hne : id ≠ recordId := h
    simp only [if_neg hne, Nat.add_zero]
  | released => rfl

theorem openClaims_other {recordId : String} {e : Event} (h : e.recordId ≠ recordId) :
    openClaims recordId (history ++ [e]) = openClaims recordId history := by
  rw [openClaims_snoc]
  cases e with
  | claimed id => exact if_neg h
  | released => exact if_neg h

theorem EntryOk.other {e : Event} (h : EntryOk options now history entry) (he : e.recordId ≠ entry.recordId) :
    EntryOk options now (history ++ [e]) entry where
  counted := (handOuts_other he).trans h.counted
  capped := h.capped
  opened := by
    rw [openClaims_other he]
    exact h.opened

theorem EntryOk.mono {now' : ℤ} (h : EntryOk options now history entry) (hnow : now ≤ now') :
    EntryOk options now' history entry where
  counted := h.counted
  capped := h.capped
  opened := fun hfinal c hc => (h.opened hfinal c hc).imp_left fun hle => hle.trans hnow

theorem Tracked.mono {now' : ℤ} (h : Tracked options now history entries) (hnow : now ≤ now') :
    Tracked options now' history entries where
  each := fun entry hentry => (h.each entry hentry).mono hnow
  absent := h.absent
  apart := h.apart

/-- A job that is finished owes nothing any more. -/
theorem EntryOk.final (h : EntryOk options now history entry) {entry' : MemoryJobEntry}
    (hid : entry'.recordId = entry.recordId) (hattempts : entry'.attempts = entry.attempts)
    (hfinal : entry'.status.IsFinal) : EntryOk options now history entry' where
  counted := by rw [hid, hattempts, h.counted]
  capped := hattempts ▸ h.capped
  opened := fun hnot => absurd hfinal hnot

/-- The timeout of every open claim of an entry that can be handed out has ended. -/
theorem EntryOk.ended (h : EntryOk options now history entry)
    (hfree : entry.status = .submitted ∨ isStranded now entry = true) :
    ∀ c ∈ openClaims entry.recordId history, c.2 ≤ now := by
  intro c hc
  rcases hfree with hsubmitted | hstranded
  · have hnot : ¬ entry.status.IsFinal := by
      rw [hsubmitted]
      exact id
    rcases h.opened hnot c hc with hle | ⟨hbuilding, -⟩
    · exact hle
    · rw [hsubmitted] at hbuilding
      exact JobStatus.noConfusion hbuilding
  · obtain ⟨hbuilding, t, ht, hle⟩ := isStranded_iff.mp hstranded
    have hnot : ¬ entry.status.IsFinal := by
      rw [hbuilding]
      exact id
    rcases h.opened hnot c hc with hle' | ⟨-, -, t', ht', hc'⟩
    · exact hle'
    · rw [ht] at ht'
      obtain rfl := Option.some.inj ht'
      omega

/-- What rewrites entries without a trace in the log. -/
theorem tracked_map (h : Tracked options now history entries) {f : MemoryJobEntry → MemoryJobEntry}
    (hid : ∀ entry, (f entry).recordId = entry.recordId)
    (hok : ∀ entry ∈ entries, EntryOk options now history (f entry)) :
    Tracked options now history (entries.map f) where
  each := by
    intro entry hentry
    obtain ⟨e, he, rfl⟩ := List.mem_map.mp hentry
    exact hok e he
  absent := by
    intro recordId hnone
    exact h.absent recordId fun e he => hid e ▸ hnone (f e) (List.mem_map_of_mem he)
  apart := h.apart

theorem tracked_enqueue (h : Tracked options now history jobs.rows) {job : BuildJob}
    (hfresh : jobs.find job.recordId = none) :
    Tracked options now history (jobs.put (newEntry options job)).rows := by
  rw [Table.rows_put_new hfresh]
  constructor
  · intro entry hentry
    rcases List.mem_append.mp hentry with hold | hnew
    · exact h.each entry hold
    · obtain rfl := List.mem_singleton.mp hnew
      obtain ⟨hcount, hopen⟩ := h.absent job.recordId (Table.find_eq_none.mp hfresh)
      refine ⟨hcount, Nat.zero_le _, fun _ c hc => ?_⟩
      have hnil : openClaims (newEntry options job).recordId history = [] := hopen
      rw [hnil] at hc
      exact absurd hc List.not_mem_nil
  · intro recordId hnone
    exact h.absent recordId fun e he => hnone e (List.mem_append_left _ he)
  · exact h.apart

theorem tracked_complete (h : Tracked options now history jobs.rows) (recordId workerId : String) :
    Tracked options now history (complete recordId workerId jobs).1.rows := by
  refine tracked_map h (fun entry => by split_ifs <;> rfl) fun entry hentry => ?_
  split_ifs
  · exact (h.each entry hentry).final rfl rfl trivial
  · exact h.each entry hentry

theorem tracked_fail (h : Tracked options now history jobs.rows) (recordId : String) (error : Option String) :
    Tracked options now history (fail recordId error jobs).rows := by
  refine tracked_map h (fun entry => by split_ifs <;> rfl) fun entry hentry => ?_
  split_ifs
  · exact (h.each entry hentry).final rfl rfl trivial
  · exact h.each entry hentry

theorem tracked_reap (h : Tracked options now history jobs.rows) :
    Tracked options now history (reapStranded options now jobs).1.rows := by
  refine tracked_map h (reapEntry_recordId options now) fun entry hentry => ?_
  have hok := h.each entry hentry
  rw [reapEntry]
  split_ifs with hstranded hmax
  · exact hok.final rfl rfl trivial
  · exact ⟨hok.counted, hok.capped, fun _ c hc => Or.inl (hok.ended (Or.inr hstranded) c hc)⟩
  · exact hok

/-- An entry whose claim is given back. -/
theorem EntryOk.unclaim (h : EntryOk options now history entry) {caller : String} (hbuilding : entry.status = .building)
    (hcaller : entry.claimedBy = some caller ∨ isStranded now entry = true) :
    EntryOk options now (history ++ [.released entry.recordId caller]) (unclaim entry) where
  counted := by
    rw [handOuts_snoc]
    exact h.counted
  capped := h.capped
  opened := by
    intro _ c hc
    rw [openClaims_snoc] at hc
    have hmem : c ∈ (openClaims entry.recordId history).filter fun c => c.1 ≠ caller := by
      have hstep : openStep entry.recordId (openClaims entry.recordId history) (.released entry.recordId caller) = _ :=
        if_pos rfl
      rw [← hstep]
      exact hc
    obtain ⟨hc, hne⟩ := List.mem_filter.mp hmem
    have hnot : ¬ entry.status.IsFinal := by
      rw [hbuilding]
      exact id
    rcases hcaller with hcaller | hstranded
    · rcases h.opened hnot c hc with hle | ⟨-, hby, -⟩
      · exact Or.inl hle
      · rw [hcaller] at hby
        exact absurd (Option.some.inj hby).symm (of_decide_eq_true hne)
    · exact Or.inl (h.ended (Or.inr hstranded) c hc)

/-- A release by the worker that has the job closes its claim. -/
theorem tracked_release (h : Tracked options now history jobs.rows) {recordId caller : String}
    (hcaller : ∀ entry ∈ jobs.find recordId, entry.status = .building →
      entry.claimedBy = some caller ∨ isStranded now entry = true)
    (hbuilding : (jobs.find recordId).any (isBuilding recordId) = true) :
    Tracked options now (history ++ [.released recordId caller]) (release recordId jobs).rows := by
  constructor
  · intro entry hentry
    obtain ⟨e, he, rfl⟩ := List.mem_map.mp hentry
    have hok := h.each e he
    by_cases hid : e.recordId = recordId
    · subst hid
      have hfind := Table.find_of_mem he
      rw [hfind] at hbuilding
      have hhas : isBuilding e.recordId e = true := hbuilding
      obtain ⟨-, hstatus⟩ := of_decide_eq_true hhas
      rw [if_pos hhas]
      exact hok.unclaim hstatus (hcaller e hfind hstatus)
    · rw [if_neg fun hb => hid (of_decide_eq_true hb).1]
      exact hok.other (Ne.symm hid)
  · intro id hnone
    have habsent : ∀ e ∈ jobs.rows, e.recordId ≠ id := by
      intro e he
      have hkey := hnone _ (List.mem_map_of_mem he)
      split_ifs at hkey
      · exact hkey
      · exact hkey
    have hother : recordId ≠ id := by
      rintro rfl
      rw [Table.find_eq_none.mpr habsent] at hbuilding
      exact Bool.false_ne_true hbuilding
    have hne : (Event.released recordId caller).recordId ≠ id := hother
    obtain ⟨hcount, hopen⟩ := h.absent id habsent
    exact ⟨(handOuts_other hne).trans hcount, (openClaims_other hne).trans hopen⟩
  · exact each_snoc.mpr ⟨h.apart, fun _ _ _ _ he => (nomatch he)⟩

/-- An entry that a claim passes over. -/
theorem EntryOk.bury (h : EntryOk options now history entry) : EntryOk options now history (bury now entry) := by
  rw [BuildQueue.bury]
  split_ifs
  · exact h.final rfl rfl trivial
  · exact h

theorem bury_recordId (now : ℤ) (entry : MemoryJobEntry) : (bury now entry).recordId = entry.recordId := by
  rw [bury]
  split_ifs <;> rfl

/-- The entry that a claim hands out. -/
theorem EntryOk.claim (h : EntryOk options now history entry) {workerId : String} {timeout : ℤ}
    (hfree : entry.status = .submitted ∨ isStranded now entry = true) (hless : entry.attempts < options.maxAttempts) :
    EntryOk options now (history ++ [.claimed entry.recordId workerId now timeout])
      (claimEntry now workerId timeout entry) where
  counted := by
    rw [handOuts_snoc]
    show handOuts entry.recordId history + (if entry.recordId = entry.recordId then 1 else 0) = entry.attempts + 1
    rw [if_pos rfl, h.counted]
  capped := hless
  opened := by
    intro _ c hc
    have hmem : c ∈ openClaims entry.recordId history ++ [(workerId, now + timeout)] := by
      rw [openClaims_snoc] at hc
      have hstep : openStep entry.recordId (openClaims entry.recordId history)
          (.claimed entry.recordId workerId now timeout) = _ := if_pos rfl
      rw [← hstep]
      exact hc
    rcases List.mem_append.mp hmem with hold | hnew
    · exact Or.inl (h.ended hfree c hold)
    · obtain rfl := List.mem_singleton.mp hnew
      exact Or.inr ⟨rfl, rfl, now, rfl, rfl⟩

/-- A claim hands out a job whose open claims have all ended. -/
theorem tracked_claim (h : Tracked options now history jobs.rows) {workerId : String} {visibilityTimeoutMs : Option ℤ}
    (horderly : ∀ entry ∈ jobs.rows.find? (isTakeable options now),
      entry.status = .submitted → entry.attempts < options.maxAttempts) :
    Tracked options now (history ++ events options jobs (now, .claim workerId visibilityTimeoutMs))
      (claim options now workerId visibilityTimeoutMs jobs).1.rows := by
  have hnodup := jobs.nodup
  rw [events, claim]
  dsimp only
  rcases @claimLoop_eq options now workerId (visibilityTimeoutMs.getD options.visibilityTimeoutMs) jobs.rows with
    ⟨-, heq⟩ | ⟨pre, entry, post, hrows, hfind, htake, -, heq⟩
  · rw [heq, List.append_nil]
    exact tracked_map h (bury_recordId now) fun e he => (h.each e he).bury
  · rw [heq]
    rw [hrows] at h hnodup
    have hok := h.each entry (List.mem_append_right _ List.mem_cons_self)
    have hfree : entry.status = .submitted ∨ isStranded now entry = true :=
      (isTakeable_iff.mp htake).imp_right And.left
    have hless : entry.attempts < options.maxAttempts := by
      rcases isTakeable_iff.mp htake with hsubmitted | ⟨-, hless⟩
      · exact horderly entry hfind hsubmitted
      · exact hless
    -- no other entry is of the job that is handed out
    rw [List.map_append, List.map_cons] at hnodup
    obtain ⟨-, hcons, hapart⟩ := List.nodup_append.mp hnodup
    have hpre : ∀ e ∈ pre, entry.recordId ≠ e.recordId := fun e he =>
      (hapart _ (List.mem_map_of_mem he) _ List.mem_cons_self).symm
    have hpost : ∀ e ∈ post, entry.recordId ≠ e.recordId := fun e he heq =>
      (List.nodup_cons.mp hcons).1 (heq ▸ List.mem_map_of_mem he)
    constructor
    · intro e he
      rcases List.mem_append.mp he with he | he
      · obtain ⟨e, hmem, rfl⟩ := List.mem_map.mp he
        have hne : entry.recordId ≠ (BuildQueue.bury now e).recordId := by
          rw [bury_recordId]
          exact hpre e hmem
        exact ((h.each e (List.mem_append_left _ hmem)).bury).other hne
      · rcases List.mem_cons.mp he with rfl | he
        · exact hok.claim hfree hless
        · exact (h.each e (List.mem_append_right _ (List.mem_cons_of_mem _ he))).other (hpost e he)
    · intro id hnone
      have hne : (Event.claimed entry.recordId workerId now
          (visibilityTimeoutMs.getD options.visibilityTimeoutMs)).recordId ≠ id :=
        hnone (claimEntry now workerId _ entry) (List.mem_append_right _ List.mem_cons_self)
      obtain ⟨hcount, hopen⟩ := h.absent id fun e he => by
        rcases List.mem_append.mp he with he | he
        · exact bury_recordId now e ▸ hnone _ (List.mem_append_left _ (List.mem_map_of_mem he))
        · rcases List.mem_cons.mp he with rfl | he
          · exact hne
          · exact hnone e (List.mem_append_right _ (List.mem_cons_of_mem _ he))
      exact ⟨(handOuts_other hne).trans hcount, (openClaims_other hne).trans hopen⟩
    · refine each_snoc.mpr ⟨h.apart, ?_⟩
      rintro _ _ _ _ ⟨⟩ c hc
      exact hok.ended hfree c hc

/-- A release of a job that is not building. -/
theorem release_rows {recordId : String} (hbuilding : ¬ (jobs.find recordId).any (isBuilding recordId) = true) :
    (release recordId jobs).rows = jobs.rows := by
  have hsame : ∀ e ∈ jobs.rows, (if isBuilding recordId e = true then unclaim e else e) = e := by
    intro e he
    refine if_neg fun hb => hbuilding ?_
    have hid : e.recordId = recordId := (of_decide_eq_true hb).1
    subst hid
    rw [Table.find_of_mem he]
    exact hb
  exact (List.map_congr_left hsame).trans (List.map_id' _)

/-- One call, at a reading of the clock. -/
theorem tracked_step (h : Tracked options now history jobs.rows) {call : Call} (hfresh : Fresh jobs (now, call))
    (horderly : Orderly options jobs (now, call)) :
    Tracked options now (history ++ events options jobs (now, call)) (step options jobs (now, call)).rows := by
  have hsilent : ∀ {entries}, Tracked options now history entries →
      Tracked options now (history ++ []) entries := by
    intro entries hentries
    rwa [List.append_nil]
  cases call with
  | enqueue job => exact hsilent (tracked_enqueue h hfresh)
  | claim workerId visibilityTimeoutMs => exact tracked_claim h horderly
  | complete recordId workerId => exact hsilent (tracked_complete h recordId workerId)
  | fail recordId error => exact hsilent (tracked_fail h recordId error)
  | release recordId caller =>
    by_cases hbuilding : (jobs.find recordId).any (isBuilding recordId) = true
    · have hevents : events options jobs (now, .release recordId caller) = [.released recordId caller] :=
        if_pos hbuilding
      rw [hevents]
      exact tracked_release h horderly hbuilding
    · have hevents : events options jobs (now, .release recordId caller) = [] := if_neg hbuilding
      have hrows : (step options jobs (now, .release recordId caller)).rows = jobs.rows := release_rows hbuilding
      rw [hevents, hrows]
      exact hsilent h
  | reapStranded => exact hsilent (tracked_reap h)

/-- What a claim leaves alone. -/
theorem mem_claim (hentry : entry ∈ jobs.rows) (hfinal : entry.status.IsFinal) {workerId : String}
    {visibilityTimeoutMs : Option ℤ} : entry ∈ (claim options now workerId visibilityTimeoutMs jobs).1.rows := by
  have hnot : ¬ isStranded now entry = true := by
    intro hstranded
    rw [(isStranded_iff.mp hstranded).1] at hfinal
    exact hfinal
  have hbury : bury now entry = entry := if_neg hnot
  rw [claim]
  dsimp only
  rcases @claimLoop_eq options now workerId (visibilityTimeoutMs.getD options.visibilityTimeoutMs) jobs.rows with
    ⟨-, heq⟩ | ⟨pre, e, post, hrows, -, htake, -, heq⟩
  · rw [heq]
    exact hbury ▸ List.mem_map_of_mem hentry
  · rw [heq]
    rw [hrows] at hentry
    rcases List.mem_append.mp hentry with hpre | hpost
    · exact List.mem_append_left _ (hbury ▸ List.mem_map_of_mem hpre)
    · rcases List.mem_cons.mp hpost with rfl | hpost
      · rcases isTakeable_iff.mp htake with hsubmitted | ⟨hstranded, -⟩
        · rw [hsubmitted] at hfinal
          exact absurd hfinal id
        · exact absurd hstranded hnot
      · exact List.mem_append_right _ (List.mem_cons_of_mem _ hpost)

theorem isBuilding_final {recordId : String} (hfinal : entry.status.IsFinal) : ¬ isBuilding recordId entry = true := by
  intro hbuilding
  rw [(of_decide_eq_true hbuilding).2] at hfinal
  exact hfinal

/-- A job that is finished stays as it is. -/
theorem final_step {call : Timed} {recordId : String} (hfresh : Fresh jobs call) (horderly : Orderly options jobs call)
    (hfind : jobs.find recordId = some entry) (hfinal : entry.status.IsFinal) :
    ∃ entry', (step options jobs call).find recordId = some entry' ∧ entry'.status = entry.status := by
  obtain ⟨hmem, rfl⟩ := Table.mem_of_find hfind
  rcases call with ⟨now, _ | ⟨workerId, timeout⟩ | ⟨id, workerId⟩ | ⟨id, error⟩ | ⟨id, caller⟩ | _⟩
  case enqueue job =>
    have hne : job.recordId ≠ entry.recordId := by
      intro heq
      have hnone : jobs.find job.recordId = none := hfresh
      rw [heq, hfind] at hnone
      exact absurd hnone (Option.some_ne_none entry)
    exact ⟨entry, Table.find_put.trans ((if_neg hne).trans hfind), rfl⟩
  case claim => exact ⟨entry, Table.find_of_mem (mem_claim hmem hfinal), rfl⟩
  case complete =>
    exact ⟨entry, Table.find_of_mem (List.mem_map.mpr ⟨entry, hmem, if_neg (isBuilding_final hfinal)⟩), rfl⟩
  case fail =>
    by_cases hid : entry.recordId = id
    · obtain ⟨hcompleted, hdead⟩ := horderly entry (hid ▸ hfind)
      have hfailed : entry.status = .failed := by
        rcases hstatus : entry.status with _ | _ | _ | _ | _
        case failed => rfl
        case completed => exact absurd hstatus hcompleted
        case deadLetter => exact absurd hstatus hdead
        all_goals
          rw [hstatus] at hfinal
          exact absurd hfinal not_false
      set entry' : MemoryJobEntry := { entry with status := .failed, error := error }
      have hmem' : entry' ∈ (fail id error jobs).rows :=
        List.mem_map.mpr ⟨entry, hmem, if_pos (decide_eq_true hid)⟩
      exact ⟨entry', Table.find_of_mem (r := entry') hmem', hfailed.symm⟩
    · have hkept : entry ∈ (fail id error jobs).rows :=
        List.mem_map.mpr ⟨entry, hmem, if_neg fun h => hid (of_decide_eq_true h)⟩
      exact ⟨entry, Table.find_of_mem hkept, rfl⟩
  case release =>
    exact ⟨entry, Table.find_of_mem (List.mem_map.mpr ⟨entry, hmem, if_neg (isBuilding_final hfinal)⟩), rfl⟩
  case reapStranded =>
    have hnot : ¬ isStranded now entry = true := by
      intro hstranded
      rw [(isStranded_iff.mp hstranded).1] at hfinal
      exact hfinal
    exact ⟨entry, Table.find_of_mem (List.mem_map.mpr ⟨entry, hmem, if_neg hnot⟩), rfl⟩

/-- A job is completed by the worker that has it. -/
theorem owned_step {recordId workerId : String} (horderly : Orderly options jobs (now, .complete recordId workerId))
    (hdone : (perform options now jobs (.complete recordId workerId)).2 = .completed true) :
    ∃ entry, jobs.find recordId = some entry ∧ entry.status = .building ∧ entry.claimedBy = some workerId := by
  have hany : (jobs.find recordId).any (isBuilding recordId) = true := Reply.completed.inj hdone
  rcases hfind : jobs.find recordId with _ | entry
  · rw [hfind] at hany
    exact absurd hany Bool.false_ne_true
  rw [hfind] at hany
  have hbuilding : isBuilding recordId entry = true := hany
  have hstatus := (of_decide_eq_true hbuilding).2
  exact ⟨entry, rfl, hstatus, horderly entry hfind hstatus⟩

end Steps

/-! ## Runs of late calls that do no harm -/

section Main

variable {options : QueueOptions} {calls : List Timed}

theorem tracked_empty (now : ℤ) : Tracked options now [] (Table.empty : MemoryJobs).rows where
  each := fun _ h => absurd h List.not_mem_nil
  absent := fun _ _ => ⟨rfl, rfl⟩
  apart := each_nil

theorem tracked_run (hsorted : (calls.map Prod.fst).Pairwise (· ≤ ·))
    (hfresh : Along (step options) Fresh Table.empty calls)
    (horderly : Along (step options) (Orderly options) Table.empty calls) {now : ℤ}
    (hnow : ∀ call ∈ calls, call.1 ≤ now) :
    Tracked options now (log options calls) (after options calls).rows := by
  induction calls using List.reverseRecOn generalizing now with
  | nil => exact tracked_empty now
  | append_singleton calls call ih =>
    rw [List.map_append, List.pairwise_append] at hsorted
    obtain ⟨hfresh, hlast, -⟩ := along_append.mp hfresh
    obtain ⟨horderly, hlast', -⟩ := along_append.mp horderly
    have hbefore : ∀ c ∈ calls, c.1 ≤ call.1 := fun c hc =>
      hsorted.2.2 _ (List.mem_map_of_mem hc) _ (List.mem_singleton_self _)
    have hstep := tracked_step (ih hsorted.1 hfresh horderly hbefore) hlast hlast'
    have hlog : log options (calls ++ [call]) = log options calls ++ events options (after options calls) call :=
      (logOf_append _ _ _ _).trans (congrArg _ (List.append_nil _))
    have hafter : after options (calls ++ [call]) = step options (after options calls) call := run_snoc _ _ _ _
    rw [hlog, hafter]
    exact hstep.mono (hnow call (List.mem_append_right _ (List.mem_singleton_self _)))

/-- No job is handed out more often than is allowed. -/
theorem Tracked.limited {now : ℤ} {history : List Event} {entries : List MemoryJobEntry}
    (h : Tracked options now history entries) (recordId : String) :
    handOuts recordId history ≤ options.maxAttempts := by
  by_cases hhas : ∃ entry ∈ entries, entry.recordId = recordId
  · obtain ⟨entry, hentry, rfl⟩ := hhas
    have hok := h.each entry hentry
    rw [hok.counted]
    exact hok.capped
  · rw [(h.absent recordId fun entry hentry heq => hhas ⟨entry, hentry, heq⟩).1]
    exact Nat.zero_le _

/-- Every job is safe in a run of the queue in which no worker that has lost its claim completes or releases the job,
no job that is over is failed, and no job is taken that has been released after its last attempt. -/
theorem jobs_safe (hsorted : (calls.map Prod.fst).Pairwise (· ≤ ·))
    (hfresh : Along (step options) Fresh Table.empty calls)
    (horderly : Along (step options) (Orderly options) Table.empty calls) : JobsSafe options calls := by
  obtain ⟨now, hnow⟩ : ∃ now, ∀ call ∈ calls, call.1 ≤ now := by
    rcases List.eq_nil_or_concat calls with rfl | ⟨pre, call, rfl⟩
    · exact ⟨0, fun _ h => absurd h List.not_mem_nil⟩
    · refine ⟨call.1, fun c hc => ?_⟩
      rw [List.concat_eq_append, List.map_append, List.pairwise_append] at hsorted
      rcases List.mem_append.mp (List.concat_eq_append ▸ hc) with hpre | hlast
      · exact hsorted.2.2 _ (List.mem_map_of_mem hpre) _ (List.mem_singleton_self _)
      · rw [List.mem_singleton.mp hlast]
  have htracked := tracked_run hsorted hfresh horderly hnow
  rw [along_iff] at hfresh horderly
  constructor
  · exact htracked.limited
  · exact htracked.apart
  · intro pre call post heq recordId entry hfind hfinal
    have hafter : after options (pre ++ [call]) = step options (after options pre) call := run_snoc _ _ _ _
    rw [hafter]
    exact final_step (hfresh pre call post heq) (horderly pre call post heq) hfind hfinal
  · intro pre now recordId workerId post heq hdone
    exact owned_step (horderly pre _ post heq) hdone

end Main

/-! ## A worker that comes too late -/

def exampleJob : BuildJob :=
  ⟨"r", "C", .repo, some "u", some "c", none, "22", none, none, none⟩

/-- The second worker takes the job when the timeout of the first has ended, and completes it. -/
def takenOver : List Timed :=
  [(0, .enqueue exampleJob), (0, .claim "w1" none), (30000, .claim "w2" none), (31000, .complete "r" "w2")]

theorem jobs_safe_takenOver : JobsSafe defaultOptions takenOver :=
  jobs_safe (by decide) (by decide) (by decide)

/-- The first worker completes the job of the second. -/
theorem late_worker :
    ¬ ∀ calls : List Timed, (calls.map Prod.fst).Pairwise (· ≤ ·) →
      Along (step defaultOptions) Fresh Table.empty calls → JobsSafe defaultOptions calls := by
  intro hall
  have hsafe := hall (takenOver.take 3 ++ [(31000, .complete "r" "w1")]) (by decide) (by decide)
  obtain ⟨entry, hfind, -, hby⟩ := hsafe.owned (takenOver.take 3) 31000 "r" "w1" [] rfl (by decide)
  have hfound : (after defaultOptions (takenOver.take 3)).find "r" =
      some ⟨"r", exampleJob, .building, 2, some 30000, some "w2", 30000, none⟩ := by decide
  rw [hfound] at hfind
  obtain rfl := Option.some.inj hfind
  exact absurd hby (by decide)

end Vellar.Verification.BuildQueue
