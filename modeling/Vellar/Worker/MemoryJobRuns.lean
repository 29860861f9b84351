import Vellar.Lib.Machine
import Vellar.Worker.MemoryJobStore

/-!
# Vellar.Worker.MemoryJobRuns — how often a job is handed out

Runs of the in-memory store: submits, claims, reaps with one fixed `maxAttempts`, completes that may be
late, repeated or never come.  The history of a record is what happened to it, at most one event an
operation; `Tracked` ties the row to its history, `step_tracked` keeps it, and
`poisoned_job_stops` reads off the bound.
-/

set_option autoImplicit false

namespace Vellar.Worker.MemoryJobStore

open Machine

/-- An operation of the store. -/
inductive Op where
  | submit (recordId : String) (job : VerificationJobInput) (submittedAtMs : ℤ)
  | claimSubmitted (limit : ℕ) (now : ℤ)
  | reapStranded (timeoutMs now : ℤ)
  | complete (recordId : String) (result : VerificationOutcome) (now : ℤ)

def step (maxAttempts : ℕ) (s : Store) : Op → Store
  | .submit recordId job submittedAtMs => MemoryJobStore.submit s recordId job submittedAtMs
  | .claimSubmitted limit now => (MemoryJobStore.claimSubmitted s limit now).1
  | .reapStranded timeoutMs now => (MemoryJobStore.reapStranded s timeoutMs maxAttempts now).1
  | .complete recordId result now => MemoryJobStore.complete s recordId result now

/-- What can happen to a record. -/
inductive Event where
  | submitted
  | handedOut
  | reaped
deriving DecidableEq

/-- What an operation does to the record `id`: a claim hands it out as often as it is in the batch. -/
def events (id : String) (s : Store) : Op → List Event
  | .submit recordId _ _ => if recordId = id then [.submitted] else []
  | .claimSubmitted limit now =>
    List.replicate (((MemoryJobStore.claimSubmitted s limit now).2.map ClaimedJob.recordId).count id) .handedOut
  | .reapStranded timeoutMs now => if (s.find id).any (Stranded timeoutMs now ·) then [.reaped] else []
  | .complete _ _ _ => []

/-- The number of hand-outs since the last submit. -/
def handOuts (h : List Event) : ℕ :=
  h.foldl (fun n e => match e with
    | .submitted => 0
    | .handedOut => n + 1
    | .reaped => n) 0

/-- Between any two hand-outs the record was submitted or reaped. -/
def Separated (h : List Event) : Prop :=
  ∀ pre mid post, h = pre ++ .handedOut :: mid ++ .handedOut :: post → .submitted ∈ mid ∨ .reaped ∈ mid

theorem handOuts_snoc (h : List Event) (e : Event) :
    handOuts (h ++ [e]) = match e with
      | .submitted => 0
      | .handedOut => handOuts h + 1
      | .reaped => handOuts h := by
  unfold handOuts
  rw [List.foldl_append]
  rfl

theorem Separated.snoc {h : List Event} {e : Event} (hs : Separated h)
    (he : e = .handedOut → h.getLast? ≠ some .handedOut) : Separated (h ++ [e]) := by
  intro pre mid post heq
  rcases List.eq_nil_or_concat post with rfl | ⟨post', b, rfl⟩
  · -- The second hand-out is the new event: what stands before it is no hand-out.
    have hsplit : h ++ [e] = (pre ++ .handedOut :: mid) ++ [.handedOut] := by simpa using heq
    obtain ⟨rfl, hlast⟩ := List.append_inj' hsplit rfl
    have hne := he (by simpa using hlast)
    rcases List.eq_nil_or_concat mid with rfl | ⟨mid', c, rfl⟩
    · simp at hne
    · cases c with
      | submitted => simp
      | handedOut =>
        rw [List.concat_eq_append, ← List.cons_append, ← List.append_assoc] at hne
        exact absurd List.getLast?_concat hne
      | reaped => simp
  · have hsplit : h ++ [e] = (pre ++ .handedOut :: mid ++ .handedOut :: post') ++ [b] := by simpa using heq
    exact hs pre mid post' (List.append_inj' hsplit rfl).1

/-! ## The row and its history -/

/-- What the row of a record says about its history. -/
structure Known (maxAttempts : ℕ) (row : Row) (h : List Event) : Prop where
  attempts : row.attempts.getD 0 = handOuts h
  bound : handOuts h ≤ maxAttempts
  queued : row.status = .submitted → handOuts h < maxAttempts ∧ h.getLast? ≠ some .handedOut
  status : row.status ≠ .unverified
  separated : Separated h

/-- A record without a row has no history. -/
def Tracked (maxAttempts : ℕ) (row : Option Row) (h : List Event) : Prop :=
  match row with
  | none => h = []
  | some row => Known maxAttempts row h

section Step

variable {maxAttempts : ℕ} {s : Store} {id : String} {h : List Event}

theorem tracked_submit (hM : 1 ≤ maxAttempts) (ht : Tracked maxAttempts (s.find id) h) (recordId : String)
    (job : VerificationJobInput) (submittedAtMs : ℤ) :
    Tracked maxAttempts ((submit s recordId job submittedAtMs).find id)
      (h ++ events id s (.submit recordId job submittedAtMs)) := by
  rw [find_submit]
  by_cases hid : recordId = id
  · have hsep : Separated h := by
      cases hfind : s.find id with
      | none =>
        rw [hfind] at ht
        obtain rfl : h = [] := ht
        intro pre mid post heq
        simp at heq
      | some row =>
        rw [hfind] at ht
        exact Known.separated ht
    simp only [events, if_pos hid]
    refine ⟨?_, ?_, fun _ => ⟨?_, by simp⟩, by simp [submittedRow], hsep.snoc (by simp)⟩
    · rw [handOuts_snoc]
      rfl
    · rw [handOuts_snoc]
      exact Nat.zero_le _
    · rw [handOuts_snoc]
      exact hM
  · simp only [events, if_neg hid, List.append_nil]
    exact ht

theorem count_claimed {limit : ℕ} {now : ℤ} :
    ((claimSubmitted s limit now).2.map ClaimedJob.recordId).count id = if Takes s limit id then 1 else 0 := by
  have hkeys : (claimSubmitted s limit now).2.map ClaimedJob.recordId = (batch s limit).map Row.recordId := by
    rw [claimSubmitted_jobs, List.map_map]
    rfl
  rw [hkeys]
  by_cases ht : Takes s limit id
  · rw [if_pos ht]
    exact List.count_eq_one_of_mem batch_nodup ht
  · rw [if_neg ht]
    exact List.count_eq_zero_of_not_mem ht

theorem tracked_claim (ht : Tracked maxAttempts (s.find id) h) (limit : ℕ) (now : ℤ) :
    Tracked maxAttempts ((claimSubmitted s limit now).1.find id)
      (h ++ events id s (.claimSubmitted limit now)) := by
  rw [find_claimSubmitted]
  simp only [events, count_claimed]
  by_cases htake : Takes s limit id
  · obtain ⟨row, hfind, hsub⟩ := takes_submitted htake
    rw [hfind] at ht ⊢
    have hk : Known maxAttempts row h := ht
    obtain ⟨hlt, hlast⟩ := hk.queued hsub
    simp only [htake, if_true, Option.map_some, List.replicate_one]
    refine ⟨?_, ?_, by simp [claimRow], by simp [claimRow], hk.separated.snoc fun _ => hlast⟩
    · rw [handOuts_snoc]
      simp only [claimRow, Option.getD_some, hk.attempts]
    · rw [handOuts_snoc]
      exact hlt
  · simp only [htake, if_false, List.replicate_zero, List.append_nil]
    rw [Option.map_id']
    exact ht

theorem tracked_reap (ht : Tracked maxAttempts (s.find id) h) (timeoutMs now : ℤ) :
    Tracked maxAttempts ((reapStranded s timeoutMs maxAttempts now).1.find id)
      (h ++ events id s (.reapStranded timeoutMs now)) := by
  rw [find_reapStranded]
  cases hfind : s.find id with
  | none =>
    rw [hfind] at ht
    simpa [events, hfind] using ht
  | some row =>
    rw [hfind] at ht
    have hk : Known maxAttempts row h := ht
    by_cases hstr : Stranded timeoutMs now row
    · have hev : events id s (.reapStranded timeoutMs now) = [.reaped] := by simp [events, hfind, hstr]
      have hsame : handOuts (h ++ [.reaped]) = handOuts h := handOuts_snoc h .reaped
      rw [hev, Option.map_some]
      unfold reapRow
      rw [if_neg (not_not.mpr hstr)]
      by_cases hex : Exhausted maxAttempts row
      · rw [if_pos hex]
        exact ⟨hsame ▸ hk.attempts, hsame ▸ hk.bound, by simp, by simp, hk.separated.snoc (by simp)⟩
      · rw [if_neg hex]
        have hlt : row.attempts.getD 0 < maxAttempts := not_le.mp hex
        refine ⟨hsame ▸ hk.attempts, hsame ▸ hk.bound, fun _ => ⟨?_, by simp⟩, by simp, hk.separated.snoc (by simp)⟩
        rw [hsame, ← hk.attempts]
        exact hlt
    · have hev : events id s (.reapStranded timeoutMs now) = [] := by simp [events, hfind, hstr]
      rw [hev, Option.map_some, List.append_nil]
      unfold reapRow
      rw [if_pos hstr]
      exact hk

theorem tracked_complete (ht : Tracked maxAttempts (s.find id) h) (recordId : String)
    (result : VerificationOutcome) (now : ℤ) :
    Tracked maxAttempts ((complete s recordId result now).find id)
      (h ++ events id s (.complete recordId result now)) := by
  rw [find_complete]
  simp only [events, List.append_nil]
  cases hfind : s.find id with
  | none =>
    rw [hfind] at ht
    exact ht
  | some row =>
    rw [hfind] at ht
    have hk : Known maxAttempts row h := ht
    rw [Option.map_some]
    split_ifs
    · have hverdict : ∀ v : Verdict, v.toStatus ≠ .submitted ∧ v.toStatus ≠ .unverified := by
        intro v
        cases v <;> simp [Verdict.toStatus]
      exact ⟨hk.attempts, hk.bound, fun hsub => absurd hsub (hverdict _).1, (hverdict _).2, hk.separated⟩
    · exact hk

/-- **Step**: an operation keeps the row in line with its history. -/
theorem step_tracked (hM : 1 ≤ maxAttempts) (ht : Tracked maxAttempts (s.find id) h) (op : Op) :
    Tracked maxAttempts ((step maxAttempts s op).find id) (h ++ events id s op) := by
  cases op with
  | submit recordId job submittedAtMs => exact tracked_submit hM ht recordId job submittedAtMs
  | claimSubmitted limit now => exact tracked_claim ht limit now
  | reapStranded timeoutMs now => exact tracked_reap ht timeoutMs now
  | complete recordId result now => exact tracked_complete ht recordId result now

theorem run_tracked (hM : 1 ≤ maxAttempts) (id : String) (ops : List Op) :
    Tracked maxAttempts ((run (step maxAttempts) Table.empty ops).find id)
      (logOf (step maxAttempts) (events id) Table.empty ops) := by
  have := inv_log (P := fun s h => Tracked maxAttempts (s.find id) h) (f := events id)
    (fun _ _ op ht _ => step_tracked hM ht op) (show Tracked maxAttempts (Table.find Table.empty id) [] from rfl)
    (along_true (l := ops))
  simpa using this

end Step

/-- **A poisoned job stops**: whatever the operations, a record is handed out at most `maxAttempts` times
after a submit, its counter says how often, never twice without a reap or a submit between; every row is in
one of the five statuses, and the active ones are counted. -/
theorem poisoned_job_stops {maxAttempts : ℕ} (hM : 1 ≤ maxAttempts) (ops : List Op) :
    (∀ id, handOuts (logOf (step maxAttempts) (events id) Table.empty ops) ≤ maxAttempts) ∧
    (∀ id, Separated (logOf (step maxAttempts) (events id) Table.empty ops)) ∧
    (∀ row ∈ (run (step maxAttempts) Table.empty ops).rows,
      row.attempts.getD 0 = handOuts (logOf (step maxAttempts) (events row.recordId) Table.empty ops) ∧
      row.status ∈ [VerificationStatus.submitted, .building, .verified, .failed, .deadLetter]) ∧
    countActive (run (step maxAttempts) Table.empty ops) =
      (run (step maxAttempts) Table.empty ops).rows.countP
        fun row => row.status = .submitted ∨ row.status = .building := by
  have hbound : ∀ id, handOuts (logOf (step maxAttempts) (events id) Table.empty ops) ≤ maxAttempts ∧
      Separated (logOf (step maxAttempts) (events id) Table.empty ops) := by
    intro id
    have ht := run_tracked hM id ops
    cases hfind : (run (step maxAttempts) Table.empty ops).find id with
    | none =>
      rw [hfind] at ht
      rw [show logOf (step maxAttempts) (events id) Table.empty ops = [] from ht]
      exact ⟨Nat.zero_le _, fun pre mid post heq => by simp at heq⟩
    | some row =>
      rw [hfind] at ht
      have hk : Known maxAttempts row _ := ht
      exact ⟨hk.bound, hk.separated⟩
  refine ⟨fun id => (hbound id).1, fun id => (hbound id).2, fun row hrow => ?_, countActive_eq⟩
  have ht := run_tracked hM row.recordId ops
  rw [Table.find_of_mem hrow] at ht
  have hk : Known maxAttempts row _ := ht
  refine ⟨hk.attempts, ?_⟩
  have hstatus := hk.status
  cases hs : row.status <;> simp_all

/-- A job no worker ever completes: two attempts, then the dead letter. -/
def strandedJob : VerificationJobInput :=
  ⟨⟨.repo, some "https://github.com/acme/token", some "abcdef0", none, "27.0.0", none⟩, "CTOKEN", none, none⟩

def strandedOps : List Op :=
  [.submit "r1" strandedJob 0, .claimSubmitted 5 1, .reapStranded 10 20, .claimSubmitted 5 21,
    .reapStranded 10 40, .claimSubmitted 5 41]

theorem poisoned_job_stops_stranded :
    logOf (step 2) (events "r1") Table.empty strandedOps = [.submitted, .handedOut, .reaped, .handedOut, .reaped] ∧
    handOuts (logOf (step 2) (events "r1") Table.empty strandedOps) ≤ 2 :=
  ⟨by decide, (poisoned_job_stops (by decide) strandedOps).1 "r1"⟩

end Vellar.Worker.MemoryJobStore
