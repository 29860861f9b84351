import Vellar.Lib.Json
import Vellar.Wallet.Replay
import Vellar.Worker.Artifact

/-!
# Vellar.Wallet.SubmitRoute — `POST /wallet/submit`

`services/wallet-service/src/server.ts`: dedup lookup, scope check, replay reservation, submission, bookkeeping, and on a
failure the audits and the release.  A request moves from one await to the next, over either guard of
`Vellar.Wallet.Replay`; what its runs keep is in `Vellar.Wallet.ReplayFree`.
-/

set_option autoImplicit false

namespace Vellar.Wallet

/-! ## Requests and the state they share -/

structure Request where
  id : ℕ
  body : Json

/-- A request with its body parsed. -/
structure Submission where
  id : ℕ
  signedXdr : String
  network : String
deriving DecidableEq

/-- `submitBodySchema` -/
def submitBody (r : Request) : Option Submission := do
  let signedXdr ← ((r.body.get? "signedXdr").bind Json.str?).filter (· ≠ "")
  let network ← ((r.body.get? "network").bind Json.str?).filter (["testnet", "mainnet"].contains ·)
  some ⟨r.id, signedXdr, network⟩

structure SubmitDeps where
  /-- None where unset: scoping and reservations are off. -/
  networkPassphrase : Option String
  /-- `TransactionBuilder.fromXDR`; none where it throws. -/
  fromXDR : String → String → Option Transaction

inductive Response where
  | sent (hash : String)
  | refused (code : ℕ) (error message : String)
  /-- The handler threw. -/
  | thrown
deriving DecidableEq

/-- What happened, by request. -/
inductive Event where
  | reserve (request : ℕ) (ok : Bool)
  /-- `submitter.submit` was called. -/
  | submit (request : ℕ)
  | submitted (request : ℕ) (hash : String)
  /-- The call threw; the code of a `SubmissionError`. -/
  | threw (request : ℕ) (code : Option String)
  | audit (request : ℕ) (type : String) (subject : Option String)
  | answered (request : ℕ) (response : Response)
deriving DecidableEq

structure World (γ : Type) where
  guard : γ
  /-- The `Map` of `submissionDedup`. -/
  dedup : String → Option String
  /-- The counts of the in-flight tracker. -/
  inFlight : String → ℕ
  log : List Event

/-- A step after a successful submission. -/
inductive Settle where
  | remember
  | invalidate (subject : String)
  | audit (subject : Option String)
deriving DecidableEq

inductive Outcome where
  | ok
  | refused
  | threw
deriving DecidableEq

/-- What a request awaits; of a list its loop still has to go through, the first apart. -/
inductive Phase where
  | received (r : Request)
  | lookingUp (s : Submission)
  | scoping (s : Submission) (subject : String) (rest : List String)
  | rejecting (s : Submission) (message subject : String) (rest : List String)
  | reserving (s : Submission)
  /-- The guard's answer is on its way. -/
  | reserved (s : Submission) (outcome : Outcome)
  | auditingReplay (s : Submission)
  | submitting (s : Submission)
  | settling (s : Submission) (hash : String) (todo : Settle) (rest : List Settle)
  | failing (s : Submission) (error : Option (String × String)) (subject : Option String) (rest : List (Option String))
  | releasing (s : Submission) (code message : String) (keys : List ReplayKey)
  | done (id : ℕ) (response : Response)

/-- The answer to what is awaited; what is `lost` takes effect and throws. -/
inductive Reply where
  | succeeds
  | fails
  | lost
  | known (isKnown : Bool)
  | submitted (hash : String)
  /-- A `SubmissionError` with its code and message, or another error. -/
  | threw (error : Option (String × String))

section Handler

variable {γ : Type} (guard : ReplayGuard γ) (deps : SubmitDeps)

def SubmitDeps.parsed (deps : SubmitDeps) (signedXdr : String) : Option Transaction :=
  deps.networkPassphrase.bind fun passphrase => deps.fromXDR signedXdr passphrase

/-- `walletSubjects` -/
def Submission.subjects (s : Submission) : List String := extractAddressAuthSubjects (deps.parsed s.signedXdr)

/-- `replayKeys` -/
def Submission.keys (s : Submission) : List ReplayKey := extractReplayKeys (deps.parsed s.signedXdr)

def envelopeHash (signedXdr : String) : String := Hex.hexOf (Sha256.sha256 (Wasm.utf8Bytes signedXdr))

def start (inFlight : String → ℕ) (subject : String) : String → ℕ :=
  Function.update inFlight subject (inFlight subject + 1)

def release (inFlight : String → ℕ) (subject : String) : String → ℕ :=
  Function.update inFlight subject (inFlight subject - 1)

def World.add (w : World γ) (events : List Event) : World γ := { w with log := w.log ++ events }

/-- The handler has answered, and its `finally` has run. -/
def Submission.finish (s : Submission) (response : Response) (w : World γ) : Phase × World γ :=
  (.done s.id response,
    { w with inFlight := (s.subjects deps).foldl release w.inFlight, log := w.log ++ [.answered s.id response] })

/-- The call of the submitter. -/
def Submission.submit (s : Submission) (w : World γ) : Phase × World γ := (.submitting s, w.add [.submit s.id])

/-- From the lookup to the scope check. -/
def Submission.scope (s : Submission) (w : World γ) : Phase × World γ :=
  let w := { w with inFlight := (s.subjects deps).foldl start w.inFlight }
  if deps.networkPassphrase.isSome then
    match s.subjects deps with
    | [] => s.finish deps (.refused 403 "no_wallet_subject"
        "Transaction has no address-credential auth subject; cannot attribute it to a known wallet.") w
    | subject :: rest => (.scoping s subject rest, w)
  else s.submit w

def unknownWallet (subject : String) : String :=
  "Transaction authorizes a contract the server does not recognize as a wallet (" ++ subject ++ ")."

/-- The wallets an audit is written for, or none in particular. -/
def Submission.auditSubjects (s : Submission) : Option String × List (Option String) :=
  match s.subjects deps with
  | [] => (none, [])
  | subject :: rest => (some subject, rest.map some)

/-- What follows `submissionDedup.set`. -/
def Submission.settleSteps (s : Submission) : List Settle :=
  (s.subjects deps).map .invalidate ++
    ((s.auditSubjects deps).1 :: (s.auditSubjects deps).2).map .audit

def settle (s : Submission) (hash : String) (w : World γ) : Settle → World γ
  | .remember => { w with dedup := Function.update w.dedup (envelopeHash s.signedXdr) (some hash) }
  | .invalidate _ => w
  | .audit subject => w.add [.audit s.id "tx.submitted" subject]

/-- Into the `catch`. -/
def Submission.fail (s : Submission) (error : Option (String × String)) (w : World γ) : Phase × World γ :=
  (.failing s error (s.auditSubjects deps).1 (s.auditSubjects deps).2, w)

def failureType (error : Option (String × String)) : String :=
  match error with
  | some (code, _) => if code = "policy_rejected" ∨ code = "policy_violation" then "tx.policy_rejected" else "tx.failed"
  | none => "tx.failed"

def failure (error : Option (String × String)) : Response :=
  match error with
  | some (code, message) => .refused 502 code message
  | none => .refused 502 "submission_failed" "Transaction submission failed"

/-- After the audits of a failure: the release, where it is due. -/
def Submission.afterAudits (s : Submission) (error : Option (String × String)) (w : World γ) : Phase × World γ :=
  match error with
  | some (code, message) =>
    if s.keys deps ≠ [] ∧ code ∈ RELEASABLE_SUBMISSION_CODES then (.releasing s code message (s.keys deps), w)
    else s.finish deps (failure error) w
  | none => s.finish deps (failure error) w

/-- One step of a request. -/
def handle (x : Reply) (p : Phase) (w : World γ) : Phase × World γ :=
  match p with
  | .received r =>
    match submitBody r with
    | some s => (.lookingUp s, w)
    | none => (.done r.id (.refused 400 "invalid_body" ""), w.add [.answered r.id (.refused 400 "invalid_body" "")])
  | .lookingUp s =>
    match x with
    | .succeeds =>
      match w.dedup (envelopeHash s.signedXdr) with
      | some hash => (.done s.id (.sent hash), w.add [.answered s.id (.sent hash)])
      | none => s.scope deps w
    | .fails => (.done s.id .thrown, w.add [.answered s.id .thrown])
    | _ => (p, w)
  | .scoping s subject rest =>
    match x with
    | .known true =>
      match rest with
      | [] => (.reserving s, w)
      | next :: rest => (.scoping s next rest, w)
    | .known false =>
      match s.subjects deps with
      | [] => (p, w)
      | first :: others => (.rejecting s (unknownWallet subject) first others, w)
    | .fails => s.finish deps (.refused 503 "persistence_unavailable"
        "Cannot verify wallet scope right now; try again shortly.") w
    | _ => (p, w)
  | .rejecting s message subject rest =>
    let audited := w.add [.audit s.id "tx.policy_rejected" (some subject)]
    match x with
    | .succeeds =>
      match rest with
      | [] => s.finish deps (.refused 403 "unknown_wallet_subject" message) audited
      | next :: rest => (.rejecting s message next rest, audited)
    | .fails => s.finish deps .thrown w
    | .lost => s.finish deps .thrown audited
    | _ => (p, w)
  | .reserving s =>
    match x with
    | .succeeds =>
      match guard.reserve (s.keys deps) w.guard with
      | some g => (.reserved s .ok, World.add { w with guard := g } [.reserve s.id true])
      | none => (.reserved s .refused, w.add [.reserve s.id false])
    | .fails => (.reserved s .threw, w.add [.reserve s.id false])
    | _ => (p, w)
  | .reserved s outcome =>
    match outcome with
    | .ok => s.submit w
    | .refused => (.auditingReplay s, w)
    | .threw => s.finish deps (.refused 503 "replay_store_unavailable"
        "Cannot record this submission right now; try again shortly.") w
  | .auditingReplay s =>
    let replayed : Response :=
      .refused 409 "replayed_submission" "This signed authorization has already been submitted."
    match x with
    | .succeeds | .lost => s.finish deps replayed (w.add [.audit s.id "tx.replay_rejected" none])
    | .fails => s.finish deps replayed w
    | _ => (p, w)
  | .submitting s =>
    match x with
    | .submitted hash => (.settling s hash .remember (s.settleSteps deps), w.add [.submitted s.id hash])
    | .threw error => s.fail deps error (w.add [.threw s.id (error.map Prod.fst)])
    | _ => (p, w)
  | .settling s hash todo rest =>
    match x with
    | .succeeds =>
      match rest with
      | [] => s.finish deps (.sent hash) (settle s hash w todo)
      | next :: rest => (.settling s hash next rest, settle s hash w todo)
    | .fails => s.fail deps none w
    | .lost => s.fail deps none (settle s hash w todo)
    | _ => (p, w)
  | .failing s error subject rest =>
    let audited := w.add [.audit s.id (failureType error) subject]
    match x with
    | .succeeds =>
      match rest with
      | [] => s.afterAudits deps error audited
      | next :: rest => (.failing s error next rest, audited)
    | .fails => s.finish deps .thrown w
    | .lost => s.finish deps .thrown audited
    | _ => (p, w)
  | .releasing s code message keys =>
    let released := { w with guard := (guard.releaseNext keys w.guard).2 }
    match x with
    | .succeeds =>
      match (guard.releaseNext keys w.guard).1 with
      | [] => s.finish deps (failure (some (code, message))) released
      | next :: rest => (.releasing s code message (next :: rest), released)
    | .fails => s.finish deps (failure (some (code, message))) w
    | .lost => s.finish deps (failure (some (code, message))) released
    | _ => (p, w)
  | .done _ _ => (p, w)

end Handler

end Vellar.Wallet
