import Vellar.Worker.Types

/-!
# Vellar.Worker.ImportValidation — what a claimed row must look like

`services/worker-service/src/import-validation.ts`: the stored record, the issues the schema finds in it, in
the order of the schema, and the job a valid record becomes.  A timestamp of the record stands for the
instant its text denotes, `none` when `Date.parse` gives no number.
-/

set_option autoImplicit false

namespace Vellar.Worker

/-- The record `verification-service` stores, with the counter the claim adds to it. -/
structure VerificationRecordInternal where
  id : String
  contractId : String
  sourceType : SourceType
  repoUrl : Option String
  commitHash : Option String
  sourceArchiveRef : Option String
  toolchainVersion : String
  buildFlags : Option (List String)
  lockfileHash : Option String
  traceId : Option String
  traceParentSpanId : Option String
  outputHash : Option String
  deployedHash : Option String
  matchMode : Option MatchMode
  log : Option String
  statusDetail : Option String
  status : VerificationStatus
  createdAt : Option ℤ
  updatedAt : Option ℤ
  attempts : Option ℤ
deriving DecidableEq

/-! ## Field primitives -/

/-- `[A-Z2-7]` -/
def isBase32 (c : Char) : Bool := ('A' ≤ c && c ≤ 'Z') || ('2' ≤ c && c ≤ '7')

/-- `[0-9a-f]` -/
def isLowerHex (c : Char) : Bool := ('0' ≤ c && c ≤ '9') || ('a' ≤ c && c ≤ 'f')

/-- `[0-9a-fA-F]` -/
def isHex (c : Char) : Bool := isLowerHex c || ('A' ≤ c && c ≤ 'F')

/-- `[A-Za-z0-9._:-]` -/
def isTraceChar (c : Char) : Bool :=
  ('A' ≤ c && c ≤ 'Z') || ('a' ≤ c && c ≤ 'z') || ('0' ≤ c && c ≤ '9') || c ∈ ['.', '_', ':', '-']

/-- A text of characters of one class whose length is in the range. -/
def matchesClass (cls : Char → Bool) (lo hi : ℕ) (cs : List Char) : Bool :=
  decide (lo ≤ cs.length) && decide (cs.length ≤ hi) && cs.all cls

def isContractId (s : String) : Bool :=
  match s.toList with
  | c :: cs => c == 'C' && matchesClass isBase32 55 55 cs
  | [] => false

def isCommitHash (s : String) : Bool := matchesClass isHex 7 40 s.toList

def isWasmHash (s : String) : Bool := matchesClass isLowerHex 64 64 s.toList

def isTraceId (s : String) : Bool := matchesClass isTraceChar 1 128 s.toList

/-! ## The schema -/

structure Issue where
  path : String
  message : String
deriving DecidableEq, Repr

def check (ok : Bool) (path message : String) : List Issue := if ok then [] else [⟨path, message⟩]

/-- A check of an optional field, made when the field is present. -/
def checkOptional (ok : String → Bool) (field : Option String) (path message : String) : List Issue :=
  check (field.all ok) path message

/-- A field JavaScript reads as false: absent or empty. -/
def isFalsy (field : Option String) : Bool := field.getD "" == ""

def wasmHashMessage : String := "must be a lowercase hex sha256 (64 characters)"

def timestampMessage : String := "must be a valid ISO 8601 timestamp"

section Schema

-- What `z.string().url()` accepts.
variable (isUrl : String → Bool)

/-- The issues of the object schema, field by field. -/
def fieldIssues (r : VerificationRecordInternal) : List Issue :=
  check (r.id ≠ "") "id" "id must be a non-empty string" ++
  check (isContractId r.contractId) "contractId" "must be a deployed Soroban contract address (C…)" ++
  checkOptional isUrl r.repoUrl "repoUrl" "repoUrl must be a valid URL" ++
  checkOptional isCommitHash r.commitHash "commitHash" "must be a git commit sha (7–40 hex characters)" ++
  checkOptional (· ≠ "") r.sourceArchiveRef "sourceArchiveRef" "sourceArchiveRef must not be empty" ++
  check (r.toolchainVersion ≠ "") "toolchainVersion" "toolchainVersion must be a non-empty string" ++
  checkOptional (· ≠ "") r.lockfileHash "lockfileHash" "lockfileHash must not be empty if present" ++
  checkOptional isWasmHash r.outputHash "outputHash" wasmHashMessage ++
  checkOptional isWasmHash r.deployedHash "deployedHash" wasmHashMessage ++
  check r.createdAt.isSome "createdAt" timestampMessage ++
  check r.updatedAt.isSome "updatedAt" timestampMessage

/-- `Date.parse(updatedAt) < Date.parse(createdAt)`; false when either is no number. -/
def updatedBeforeCreated (r : VerificationRecordInternal) : Bool :=
  match r.updatedAt, r.createdAt with
  | some u, some c => decide (u < c)
  | _, _ => false

/-- The issues of `superRefine`, the invariants across fields. -/
def crossFieldIssues (r : VerificationRecordInternal) : List Issue :=
  (if r.sourceType = .repo then
    check (!isFalsy r.repoUrl) "repoUrl" "repoUrl is required for repo submissions" ++
    check (!isFalsy r.commitHash) "commitHash" "commitHash is required for repo submissions"
  else []) ++
  check (!(r.sourceType = .upload && isFalsy r.sourceArchiveRef)) "sourceArchiveRef"
    "sourceArchiveRef is required for upload submissions" ++
  check (!updatedBeforeCreated r) "updatedAt" "updatedAt must be greater than or equal to createdAt"

/-- A trace id of another shape is dropped, not rejected. -/
def catchTrace (field : Option String) : Option String := field.filter isTraceId

/-- `validateImportedRecord`: the record as the worker reads it, or the reason it is rejected. -/
def validateImportedRecord (r : VerificationRecordInternal) : Except String VerificationRecordInternal :=
  match fieldIssues isUrl r ++ crossFieldIssues r with
  | [] => .ok { r with
      traceId := catchTrace r.traceId
      traceParentSpanId := catchTrace r.traceParentSpanId }
  | issues => .error ("; ".intercalate (issues.map fun issue => issue.path ++ ": " ++ issue.message))

end Schema

/-- `toClaimedJob`: the record carries no timestamp and no signature for the job. -/
def toClaimedJob (r : VerificationRecordInternal) (submittedAtMs : Option ℤ) : ClaimedJob where
  recordId := r.id
  contractId := r.contractId
  sourceType := r.sourceType
  repoUrl := r.repoUrl
  commitHash := r.commitHash
  sourceArchiveRef := r.sourceArchiveRef
  toolchainVersion := r.toolchainVersion
  buildFlags := r.buildFlags
  timestamp := none
  signature := none
  submittedAtMs := submittedAtMs
  traceId := r.traceId
  traceParentSpanId := r.traceParentSpanId

/-! ## What a valid record is -/

variable {isUrl : String → Bool}

/-- The record passes the schema. -/
def Importable (isUrl : String → Bool) (r : VerificationRecordInternal) : Prop :=
  fieldIssues isUrl r ++ crossFieldIssues r = []

instance (r : VerificationRecordInternal) : Decidable (Importable isUrl r) :=
  inferInstanceAs (Decidable (_ = []))

theorem validateImportedRecord_ok {r : VerificationRecordInternal} (h : Importable isUrl r) :
    validateImportedRecord isUrl r =
      .ok { r with traceId := catchTrace r.traceId, traceParentSpanId := catchTrace r.traceParentSpanId } := by
  unfold validateImportedRecord
  rw [show fieldIssues isUrl r ++ crossFieldIssues r = [] from h]

/-- What the schema reads of a record is the same after a claim, a reap or a later `updatedAt`. -/
theorem importable_touch {r : VerificationRecordInternal} (h : Importable isUrl r)
    (status : VerificationStatus) (attempts : Option ℤ) :
    Importable isUrl { r with status := status, attempts := attempts } := h

end Vellar.Worker
