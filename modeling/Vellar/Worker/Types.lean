import Mathlib

/-!
# Vellar.Worker.Types — what the worker's parts hand each other

The shared types of `services/worker-service/src`: build inputs, verification jobs and outcomes, and what
the job stores return.  Times are epoch milliseconds.
-/

set_option autoImplicit false

namespace Vellar.Worker

inductive VerificationStatus where
  | unverified
  | submitted
  | building
  | verified
  | failed
  | deadLetter
deriving DecidableEq, Repr

inductive SourceType where
  | repo
  | upload
deriving DecidableEq, Repr

inductive MatchMode where
  | exact
  | toolchainMetadata
deriving DecidableEq, Repr

structure BuildInput where
  sourceType : SourceType
  repoUrl : Option String
  commitHash : Option String
  sourceArchiveRef : Option String
  toolchainVersion : String
  buildFlags : Option (List String)
deriving DecidableEq

structure VerificationJobInput extends BuildInput where
  contractId : String
  timestamp : Option ℤ
  signature : Option String
deriving DecidableEq

/-- The status of an outcome: `Extract<VerificationStatus, "verified" | "failed">`. -/
inductive Verdict where
  | verified
  | failed
deriving DecidableEq, Repr

def Verdict.toStatus : Verdict → VerificationStatus
  | .verified => .verified
  | .failed => .failed

structure VerificationOutcome where
  status : Verdict
  outputHash : Option String
  deployedHash : Option String
  matchMode : Option MatchMode
  statusDetail : String
  log : String
  isRetryable : Option Bool
  retryDelayMs : Option ℕ
  retryAttempt : Option ℕ
deriving DecidableEq

structure ClaimedJob extends VerificationJobInput where
  recordId : String
  submittedAtMs : Option ℤ
  traceId : Option String
  traceParentSpanId : Option String
deriving DecidableEq

structure ReapResult where
  reclaimed : ℕ
  deadLettered : ℕ
deriving DecidableEq, Repr

/-- An entry of the attestor's watch list. -/
structure WatchEntry where
  contractId : String
  outputHash : String
deriving DecidableEq

/-- `attestedHash`: the hash an attestation vouches for. -/
def attestedHash (matchMode : Option MatchMode) (outputHash deployedHash : Option String) : Option String :=
  if matchMode = some .toolchainMetadata then deployedHash else outputHash

def VerificationOutcome.attestedHash (o : VerificationOutcome) : Option String :=
  Worker.attestedHash o.matchMode o.outputHash o.deployedHash

/-- The watch-list entry for a contract under an attested hash; an empty hash is no hash. -/
def watchEntryOf (contractId : String) (hash : Option String) : Option WatchEntry :=
  match hash with
  | some hash => if hash ≠ "" then some ⟨contractId, hash⟩ else none
  | none => none

theorem watchEntryOf_eq_some {contractId : String} {hash : Option String} {entry : WatchEntry} :
    watchEntryOf contractId hash = some entry ↔
      entry.contractId = contractId ∧ hash = some entry.outputHash ∧ entry.outputHash ≠ "" := by
  obtain ⟨id, h⟩ := entry
  cases hash with
  | none => simp [watchEntryOf]
  | some hash =>
    simp only [watchEntryOf, Option.some.injEq]
    by_cases hne : hash = ""
    · rw [if_neg (not_not.mpr hne)]
      exact ⟨fun hno => absurd hno (by simp), fun ⟨_, h2, h3⟩ => absurd (h2 ▸ hne) h3⟩
    · rw [if_pos hne, Option.some.injEq, WatchEntry.mk.injEq]
      exact ⟨fun ⟨h1, h2⟩ => ⟨h1.symm, h2, h2 ▸ hne⟩, fun ⟨h1, h2, _⟩ => ⟨h1.symm, h2⟩⟩

/-- A record the queue still works on. -/
def VerificationStatus.IsActive (s : VerificationStatus) : Prop := s = .submitted ∨ s = .building

instance (s : VerificationStatus) : Decidable s.IsActive := inferInstanceAs (Decidable (_ ∨ _))

/-- A record with a verdict. -/
def VerificationStatus.IsTerminal (s : VerificationStatus) : Prop := s = .verified ∨ s = .failed

instance (s : VerificationStatus) : Decidable s.IsTerminal := inferInstanceAs (Decidable (_ ∨ _))

end Vellar.Worker
