import Vellar.Lib.Json
import Vellar.Lib.Table
import Vellar.Worker.ImportValidation

/-!
# Vellar.Verification.SubmitRoute — `POST /verification/submit`

`services/verification-service/src/server.ts`: the in-flight map, the queue cap, the dedup by contract, the insert and the
enqueue.  A request moves from one await to the next, and workers move records on in between; what its runs keep is in
`Vellar.Verification.Intake`.
-/

set_option autoImplicit false

namespace Vellar.Verification

open Worker

/-! ## Submissions -/

structure SubmitBody where
  contractId : String
  sourceType : SourceType
  repoUrl : Option String
  commitHash : Option String
  sourceArchiveRef : Option String
  toolchainVersion : String
  buildFlags : Option (List String)
  lockfileHash : Option String
deriving DecidableEq

def sourceTypeOf : String → Option SourceType
  | "repo" => some .repo
  | "upload" => some .upload
  | _ => none

/-- A key that may be absent. -/
def optionalString (check : String → Bool) : Option Json → Option (Option String)
  | none => some none
  | some v => (v.str?.filter check).map some

def optionalStrings : Option Json → Option (Option (List String))
  | none => some none
  | some v => (v.items?.bind fun items => items.mapM Json.str?).map some

/-- `superRefine`: what each source type needs. -/
def SubmitBody.complete (b : SubmitBody) : Bool :=
  match b.sourceType with
  | .repo => !isFalsy b.repoUrl && !isFalsy b.commitHash
  | .upload => !isFalsy b.sourceArchiveRef

/-- `submitBodySchema`; `isUrl` is what `z.string().url()` accepts. -/
def submitBody (isUrl : String → Bool) (body : Json) : Option SubmitBody := do
  let contractId ← ((body.get? "contractId").bind Json.str?).filter isContractId
  let sourceType ← ((body.get? "sourceType").bind Json.str?).bind sourceTypeOf
  let repoUrl ← optionalString isUrl (body.get? "repoUrl")
  let commitHash ← optionalString isCommitHash (body.get? "commitHash")
  let sourceArchiveRef ← optionalString (· ≠ "") (body.get? "sourceArchiveRef")
  let toolchainVersion ← ((body.get? "toolchainVersion").bind Json.str?).filter (· ≠ "")
  let buildFlags ← optionalStrings (body.get? "buildFlags")
  let lockfileHash ← optionalString (· ≠ "") (body.get? "lockfileHash")
  (some ⟨contractId, sourceType, repoUrl, commitHash, sourceArchiveRef, toolchainVersion, buildFlags,
    lockfileHash⟩).filter SubmitBody.complete

/-! ## The store -/

/-- `verification_records`, or the `Map`. -/
abbrev Records := Table VerificationRecordInternal.id

def isActive (r : VerificationRecordInternal) : Bool := decide r.status.IsActive

def countActive (records : Records) : ℕ := records.rows.countP isActive

/-- An active record of the contract. -/
def isActiveFor (contractId : String) (r : VerificationRecordInternal) : Bool := r.contractId = contractId && isActive r

def hasActiveForContract (records : Records) (contractId : String) : Bool := records.rows.any (isActiveFor contractId)

/-- Newest first. -/
def findByContract (records : Records) (contractId : String) : List VerificationRecordInternal :=
  (records.rows.filter (·.contractId = contractId)).mergeSort fun a b => b.createdAt.getD 0 ≤ a.createdAt.getD 0

/-- A worker writes an active record: it keeps its id and its contract. -/
def work (recordId : String) (outcome : VerificationRecordInternal) (records : Records) : Records :=
  records.updateWhere (fun r => r.id = recordId && isActive r)
    (fun r => { outcome with id := r.id, contractId := r.contractId }) fun _ => rfl

/-- `toPublic`. -/
def toPublic (r : VerificationRecordInternal) : VerificationRecordInternal :=
  { r with sourceArchiveRef := none, lockfileHash := none, log := none, traceId := none, traceParentSpanId := none }

/-! ## Requests -/

structure Request where
  id : ℕ
  body : Json
  /-- `traceContext`: the trace's id and the span's. -/
  trace : Option (String × String)

/-- The record a submission inserts. -/
def submittedRecord (r : Request) (b : SubmitBody) (id : String) (now : ℤ) : VerificationRecordInternal where
  id := id
  contractId := b.contractId
  sourceType := b.sourceType
  repoUrl := b.repoUrl
  commitHash := b.commitHash
  sourceArchiveRef := b.sourceArchiveRef
  toolchainVersion := b.toolchainVersion
  buildFlags := b.buildFlags
  lockfileHash := b.lockfileHash
  traceId := r.trace.map Prod.fst
  traceParentSpanId := r.trace.map Prod.snd
  outputHash := none
  deployedHash := none
  matchMode := none
  log := none
  statusDetail := none
  status := .submitted
  createdAt := some now
  updatedAt := some now
  attempts := none

inductive Response where
  | created (record : VerificationRecordInternal)
  | inProgress (status : VerificationStatus) (record : Option VerificationRecordInternal)
  | refused (code : ℕ) (error message : String)
  /-- The handler threw. -/
  | thrown

def Response.code : Response → ℕ
  | .created _ => 201
  | .inProgress _ _ => 409
  | .refused code _ _ => code
  | .thrown => 500

/-- `verification_in_progress`, with the active record if one was found. -/
def inProgress (active : Option VerificationRecordInternal) : Response :=
  .inProgress ((active.map (·.status)).getD .submitted) (active.map toPublic)

def queueFull : Response := .refused 429 "queue_full" "Verification queue is at capacity; try again later."

/-- The `holder` a request puts in the map, with its promise. -/
inductive Holder where
  | unset
  | pending (contractId : String)
  /-- `holder.record` is set and the promise resolved. -/
  | settled (record : VerificationRecordInternal)
  /-- The request ended and the promise was not resolved. -/
  | abandoned

inductive Event where
  /-- The request awaits the promise of the holder of another. -/
  | waits (request holder : ℕ)
  | inserted (request : ℕ) (recordId : String)
  | answered (request code : ℕ)
deriving DecidableEq

structure World where
  records : Records
  /-- `inFlightContracts`, by the request whose holder it is. -/
  inFlight : String → Option ℕ
  holders : ℕ → Holder
  /-- The requests past their checks whose insert is not made, with their contracts. -/
  passed : List (ℕ × String)
  log : List Event

def World.add (w : World) (events : List Event) : World := { w with log := w.log ++ events }

/-- What a request awaits. -/
inductive Phase where
  | received (r : Request)
  | waiting (r : Request) (holder : ℕ)
  | counting (r : Request) (b : SubmitBody)
  | checking (r : Request) (b : SubmitBody)
  /-- No active record was found. -/
  | checked (r : Request) (b : SubmitBody)
  | finding (r : Request) (b : SubmitBody)
  | inserting (r : Request) (record : VerificationRecordInternal)
  /-- The store has made the insert. -/
  | inserted (r : Request) (record : VerificationRecordInternal)
  | enqueueing (r : Request) (record : VerificationRecordInternal)
  | done (r : Request) (response : Response)

def Phase.request : Phase → Request
  | .received r | .waiting r _ | .counting r _ | .checking r _ | .checked r _ | .finding r _ | .inserting r _
  | .inserted r _ | .enqueueing r _ | .done r _ => r

def Phase.IsDone : Phase → Prop
  | .done _ _ => True
  | _ => False

/-- What happens at a step: a call comes back or throws, or a worker writes a record. -/
inductive Reply where
  | succeeds (now : ℤ)
  | fails
  | worked (recordId : String) (outcome : VerificationRecordInternal)

/-- The handler has answered. -/
def World.respond (w : World) (r : Request) (response : Response) : Phase × World :=
  (.done r response, w.add [.answered r.id response.code])

/-- The `finally`: the entry of the contract is deleted, whosever it is. -/
def World.finish (w : World) (r : Request) (contractId : String) (response : Response) : Phase × World :=
  World.respond { w with inFlight := Function.update w.inFlight contractId none } r response

/-- The insert failed: the promise is left as it is. -/
def World.abandon (w : World) (r : Request) (contractId : String) : Phase × World :=
  World.finish { w with
    holders := Function.update w.holders r.id .abandoned
    passed := w.passed.erase (r.id, contractId) } r contractId .thrown

section Handler

variable (isUrl : String → Bool) (uuid : ℕ → String) (maxActiveQueue : ℕ)

/-- The body, and the look into the map. -/
def receive (r : Request) (w : World) : Phase × World :=
  match submitBody isUrl r.body with
  | none => w.respond r (.refused 400 "invalid_body" "")
  | some b =>
    match w.inFlight b.contractId with
    | none => (.counting r b, w)
    | some h =>
      match w.holders h with
      | .settled record => w.respond r (inProgress (some record))
      | _ => (.waiting r h, w.add [.waits r.id h])

/-- Past the checks: the holder is set. -/
def pass (r : Request) (b : SubmitBody) (now : ℤ) (w : World) : Phase × World :=
  (.inserting r (submittedRecord r b (uuid r.id) now),
    { w with
      inFlight := Function.update w.inFlight b.contractId (some r.id)
      holders := Function.update w.holders r.id (.pending b.contractId)
      passed := w.passed ++ [(r.id, b.contractId)] })

/-- One step of a request, its awaited call having come back at `now`. -/
def proceed (now : ℤ) (p : Phase) (w : World) : Phase × World :=
  match p with
  | .received r => receive isUrl r w
  | .waiting r h =>
    match w.holders h with
    | .settled record => w.respond r (inProgress (some record))
    | _ => (.waiting r h, w)
  | .counting r b => if countActive w.records ≥ maxActiveQueue then w.respond r queueFull else (.checking r b, w)
  | .checking r b => if hasActiveForContract w.records b.contractId then (.finding r b, w) else (.checked r b, w)
  | .checked r b => pass uuid r b now w
  | .finding r b => w.respond r (inProgress ((findByContract w.records b.contractId).find? isActive))
  | .inserting r record =>
    (.inserted r record,
      World.add { w with records := w.records.put record, passed := w.passed.erase (r.id, record.contractId) }
        [.inserted r.id record.id])
  | .inserted r record => (.enqueueing r record, { w with holders := Function.update w.holders r.id (.settled record) })
  | .enqueueing r record => w.finish r record.contractId (.created (toPublic record))
  | .done r response => (.done r response, w)

/-- One step of a request whose awaited call throws; a queue that does is only logged. -/
def fail (p : Phase) (w : World) : Phase × World :=
  match p with
  | .counting r _ | .checking r _ | .finding r _ => w.respond r .thrown
  | .inserting r record | .inserted r record => w.abandon r record.contractId
  | .enqueueing r record => w.finish r record.contractId (.created (toPublic record))
  | p => (p, w)

def handle (x : Reply) (p : Phase) (w : World) : Phase × World :=
  match x with
  | .succeeds now => proceed isUrl uuid maxActiveQueue now p w
  | .fails => fail p w
  | .worked recordId outcome => (p, { w with records := work recordId outcome w.records })

end Handler

end Vellar.Verification
