import Vellar.Lib.Json
import Vellar.Lib.Processes

/-!
# Vellar.Wallet.SignerRuns — signer changes and thresholds, request beside request

`POST /wallet/signer/manage` and `POST /wallet/threshold/update` of `services/wallet-service/src/server.ts`.  A
request runs from one await to the next: a signer change counts the version up and then awaits the write of its
event; a threshold update awaits the events of the wallet, counts the signers, and awaits the write of its own
event.  `signers_consistent`: versions without gap, thresholds within the signer set, and error answers that
changed nothing, in every run whose events are written as they were handed over, name what they change, and leave
the threshold its signers.
-/

set_option autoImplicit false

namespace Vellar.Wallet.SignerRuns

open Machine Processes

/-! ## Events -/

inductive Action where
  | add
  | remove
deriving DecidableEq

/-- Who signs: `signerType`, and the `actor` of an event. -/
inductive SignerKind where
  | passkey
  | device
  | policy
deriving DecidableEq

/-- `signer.added` and `signer.removed`. -/
structure SignerEvent where
  action : Action
  contractId : String
  signerKey : String
  weight : Option ℚ
  network : String
  version : ℕ
  actor : SignerKind
deriving DecidableEq

/-- `threshold.updated` -/
structure ThresholdEvent where
  contractId : String
  threshold : ℤ
  network : String
  actor : SignerKind
deriving DecidableEq

inductive Event where
  | signer (e : SignerEvent)
  | threshold (e : ThresholdEvent)
deriving DecidableEq

/-- The actor that both routes pass to `audit.record`. -/
def Event.actor : Event → String
  | .signer e => e.contractId
  | .threshold e => e.contractId

/-- The versions, and the audit log in the order in which `list` returns it. -/
structure Store where
  signerVersions : String → Option ℕ
  log : List Event

/-- `signerVersions.get(contractId) ?? 0` -/
def Store.version (s : Store) (contractId : String) : ℕ := (s.signerVersions contractId).getD 0

/-- `audit.list({ actor })` -/
def auditList (log : List Event) (actor : String) : List Event := log.filter fun event => event.actor = actor

/-- One turn of the loop that counts the signers. -/
def countStep (netSigners : ℕ) : Event → ℕ
  | .signer ⟨.add, _, _, _, _, _, _⟩ => netSigners + 1
  | .signer ⟨.remove, _, _, _, _, _, _⟩ => max 1 (netSigners - 1)
  | .threshold _ => netSigners

def netSigners (logs : List Event) : ℕ := logs.foldl countStep 1

/-! ## Requests -/

/-- The wallet of a live session. -/
structure Session where
  contractId : String
  network : String

structure ManageBody where
  action : Action
  signerKey : String
  weight : Option ℚ
  version : Option ℕ
  expectedVersion : Option ℕ
  sequence : Option ℕ
  signerType : Option SignerKind
  actor : Option SignerKind

structure ThresholdBody where
  threshold : ℤ
  signerCount : Option ℕ

/-- `expectedVersion ?? version ?? sequence` -/
def ManageBody.expected (body : ManageBody) : Option ℕ := (body.expectedVersion.or body.version).or body.sequence

inductive Reply where
  | unauthorized
  | invalidBody
  | conflict (message : String) (currentVersion : ℕ)
  | invalidThreshold (message : String) (threshold : ℤ)
  | thresholdExceedsSigners (message : String) (threshold : ℤ) (signerCount : ℕ)
  | internalError
  | signerUpdated (action : Action) (version : ℕ)
  | thresholdUpdated (threshold : ℤ)
deriving DecidableEq

def Reply.code : Reply → ℕ
  | .unauthorized => 401
  | .conflict _ _ => 409
  | .invalidBody | .invalidThreshold _ _ | .thresholdExceedsSigners _ _ _ => 400
  | .internalError => 500
  | .signerUpdated _ _ | .thresholdUpdated _ => 200

/-- Where a request waits. -/
inductive Request where
  | idle
  | listing (session : Session) (threshold : ℤ)
  | recording (event : Event) (reply : Reply)
  | answered (reply : Reply)

def conflictMessage (expected currentVersion : ℕ) : String :=
  "Signer set has been modified concurrently. Expected version " ++ toString expected ++
    ", but current version is " ++ toString currentVersion ++
    ". Refresh the signer set and retry with updated version."

/-- The event of an accepted signer change. -/
def signerEvent (session : Session) (body : ManageBody) (version : ℕ) : SignerEvent where
  action := body.action
  contractId := session.contractId
  signerKey := body.signerKey
  weight := body.weight
  network := session.network
  version := version
  actor := (body.actor.or body.signerType).getD .device

/-- `POST /wallet/signer/manage` up to its write, from the session (none without a live one) and the body (none when
the schema refuses it).  The version is counted up before the write. -/
def manage (s : Store) : Option Session → Option ManageBody → Request × Store
  | none, _ => (.answered .unauthorized, s)
  | some _, none => (.answered .invalidBody, s)
  | some session, some body =>
    let currentVersion := s.version session.contractId
    let accept :=
      let newVersion := currentVersion + 1
      (Request.recording (.signer (signerEvent session body newVersion)) (.signerUpdated body.action newVersion),
        { s with signerVersions := Function.update s.signerVersions session.contractId (some newVersion) })
    match body.expected with
    | none => accept
    | some expected =>
      if expected = currentVersion then accept
      else (.answered (.conflict (conflictMessage expected currentVersion) currentVersion), s)

/-- `POST /wallet/threshold/update` once the signers are counted, up to its write. -/
def checkThreshold (session : Session) (threshold : ℤ) (signerCount : ℕ) : Request :=
  if threshold > signerCount then
    .answered (.thresholdExceedsSigners
      ("Threshold " ++ toString threshold ++ " exceeds signer count " ++ toString signerCount) threshold signerCount)
  else .recording (.threshold ⟨session.contractId, threshold, session.network, .passkey⟩) (.thresholdUpdated threshold)

/-- `POST /wallet/threshold/update` up to its read of the log. -/
def updateThreshold : Option Session → Option ThresholdBody → Request
  | none, _ => .answered .unauthorized
  | some _, none => .answered .invalidBody
  | some session, some body =>
    if body.threshold ≤ 0 then .answered (.invalidThreshold "Threshold must be greater than zero" body.threshold)
    else
      match body.signerCount with
      | some signerCount => checkThreshold session body.threshold signerCount
      | none => .listing session body.threshold

/-- What becomes of a write: it is stored, refused, or stored and reported as failed. -/
inductive Write where
  | stored
  | refused
  | unconfirmed
deriving DecidableEq

/-- What a request goes on with: the call itself, or the answer it waits for. -/
inductive Input where
  | manage (session : Option Session) (body : Option ManageBody)
  | updateThreshold (session : Option Session) (body : Option ThresholdBody)
  | list (answered : Bool)
  | record (write : Write)

/-- A request up to its next await. -/
def exec (x : Input) (r : Request) (s : Store) : Request × Store :=
  match x, r with
  | .manage session body, .idle => manage s session body
  | .updateThreshold session body, .idle => (updateThreshold session body, s)
  | .list answered, .listing session threshold =>
    (if answered then checkThreshold session threshold (netSigners (auditList s.log session.contractId))
      else .answered .internalError, s)
  | .record write, .recording event reply =>
    match write with
    | .stored => (.answered reply, { s with log := s.log ++ [event] })
    | .refused => (.answered .internalError, s)
    | .unconfirmed => (.answered .internalError, { s with log := s.log ++ [event] })
  | _, r => (r, s)

abbrev World := Config Store Request

def start : World := ⟨⟨fun _ => none, []⟩, fun _ => .idle⟩

abbrev next : World → ℕ × Input → World := step exec

/-- A threshold update comes without a `signerCount` of the client's. -/
def Uncounted : Input → Prop
  | .updateThreshold _ (some body) => body.signerCount = none
  | _ => True

/-! ## What must hold of a run -/

/-- The signer events of a wallet. -/
def signerEvents (log : List Event) (contractId : String) : List SignerEvent :=
  log.filterMap fun event =>
    match event with
    | .signer e => if e.contractId = contractId then some e else none
    | .threshold _ => none

/-- Those on one network. -/
def eventsOn (log : List Event) (contractId network : String) : List SignerEvent :=
  (signerEvents log contractId).filter fun e => e.network = network

def change (signers : Finset String) (e : SignerEvent) : Finset String :=
  match e.action with
  | .add => insert e.signerKey signers
  | .remove => signers.erase e.signerKey

/-- The signer set of a wallet: its first owner, and what the events made of it. -/
def signerSet (owner : String → String → String) (log : List Event) (contractId network : String) : Finset String :=
  (eventsOn log contractId network).foldl change {owner contractId network}

/-- The last recorded threshold of a wallet. -/
def lastThreshold (log : List Event) (contractId network : String) : Option ℤ :=
  (log.filterMap fun event =>
    match event with
    | .signer _ => none
    | .threshold e => if e.contractId = contractId ∧ e.network = network then some e.threshold else none).getLast?

/-- The recorded versions of a wallet are 1, 2, 3, …; its last threshold is one its signers can meet. -/
structure Consistent (owner : String → String → String) (log : List Event) : Prop where
  versions : ∀ contractId,
    (signerEvents log contractId).map SignerEvent.version = List.range' 1 (signerEvents log contractId).length
  threshold : ∀ contractId network threshold, lastThreshold log contractId network = some threshold →
    1 ≤ threshold ∧ threshold ≤ (signerSet owner log contractId network).card

/-- The expected version under which a step accepts a signer change. -/
def accepted (c : World) : ℕ × Input → List (String × ℕ)
  | (p, .manage (some session) (some body)) =>
    match c.procs p, body.expected with
    | .idle, some expected => if expected = c.shared.version session.contractId then [(session.contractId, expected)] else []
    | _, _ => []
  | _ => []

/-- What the run must keep. -/
structure Lawful (owner : String → String → String) (ops : List (ℕ × Input)) : Prop where
  consistent : ∀ pre, pre <+: ops → Consistent owner (run next start pre).shared.log
  /-- No expected version is accepted twice. -/
  acceptedOnce : (logOf next accepted start ops).Nodup
  /-- A request that changed anything is not answered with an error. -/
  errorsClean : ∀ pre op mid, pre ++ op :: mid <+: ops →
    (next (run next start pre) op).shared ≠ (run next start pre).shared →
    ∀ reply, (run next start (pre ++ op :: mid)).procs op.1 = .answered reply → reply.code = 200

/-! ## When it does -/

/-- The signer event a request is about to write. -/
def Request.inFlight : Request → Option SignerEvent
  | .recording (.signer e) _ => some e
  | _ => none

/-- The threshold a request has checked and is about to write. -/
def Request.promised : Request → Option ThresholdEvent
  | .recording (.threshold e) _ => some e
  | _ => none

/-- No event of the wallet with a lower version is still to be written. -/
def InTurn (c : World) (e : SignerEvent) : Prop :=
  ∀ q e', (c.procs q).inFlight = some e' → e'.contractId = e.contractId → e.version ≤ e'.version

/-- An added signer is new; a removed one is there, the others are enough for the threshold, and none is being set. -/
def Fits (owner : String → String → String) (c : World) (e : SignerEvent) : Prop :=
  match e.action with
  | .add => e.signerKey ∉ signerSet owner c.shared.log e.contractId e.network
  | .remove =>
    e.signerKey ∈ signerSet owner c.shared.log e.contractId e.network ∧
    (lastThreshold c.shared.log e.contractId e.network).getD 1 <
      (signerSet owner c.shared.log e.contractId e.network).card ∧
    ∀ q e', (c.procs q).promised = some e' → ¬ (e'.contractId = e.contractId ∧ e'.network = e.network)

/-- Signer events are stored, in turn, and fit the signer set; no threshold is stored and reported as failed; the
log that a threshold update reads has no signer event of another network. -/
def Orderly (owner : String → String → String) (c : World) : ℕ × Input → Prop
  | (p, .record write) =>
    match c.procs p with
    | .recording (.signer e) _ => write = .stored ∧ InTurn c e ∧ Fits owner c e
    | .recording (.threshold _) _ => write ≠ .unconfirmed
    | _ => True
  | (p, .list _) =>
    match c.procs p with
    | .listing session _ => ∀ e ∈ signerEvents c.shared.log session.contractId, e.network = session.network
    | _ => True
  | _ => True

/-! ## What a move can be -/

/-- The store after an accepted signer change. -/
def bump (s : Store) (contractId : String) : Store :=
  { s with signerVersions := Function.update s.signerVersions contractId (some (s.version contractId + 1)) }

def append (s : Store) (event : Event) : Store := { s with log := s.log ++ [event] }

/-- Nothing was checked or taken yet. -/
def Request.Fresh : Request → Prop
  | .idle | .listing _ _ => True
  | .recording _ _ | .answered _ => False

inductive Move (s : Store) : Input → Request → Request × Store → Prop
  | stay {x : Input} {r : Request} : Move s x r (r, s)
  | refuse {x : Input} {r : Request} {reply : Reply} (hfresh : r.Fresh) : Move s x r (.answered reply, s)
  | wait {x : Input} {session : Session} {threshold : ℤ} (hpos : 0 < threshold) :
      Move s x .idle (.listing session threshold, s)
  | check {session : Session} {threshold : ℤ} (hle : threshold ≤ netSigners (auditList s.log session.contractId)) :
      Move s (.list true) (.listing session threshold)
        (.recording (.threshold ⟨session.contractId, threshold, session.network, .passkey⟩)
          (.thresholdUpdated threshold), s)
  | accept {x : Input} {session : Session} {body : ManageBody} :
      Move s x .idle
        (.recording (.signer (signerEvent session body (s.version session.contractId + 1)))
          (.signerUpdated body.action (s.version session.contractId + 1)), bump s session.contractId)
  | stored {event : Event} {reply : Reply} :
      Move s (.record .stored) (.recording event reply) (.answered reply, append s event)
  | refused {event : Event} {reply : Reply} :
      Move s (.record .refused) (.recording event reply) (.answered .internalError, s)
  | unconfirmed {event : Event} {reply : Reply} :
      Move s (.record .unconfirmed) (.recording event reply) (.answered .internalError, append s event)

section Moves

variable {s : Store} {r : Request}

theorem manage_move (s : Store) (session : Option Session) (body : Option ManageBody) :
    Move s (.manage session body) .idle (manage s session body) := by
  cases session with
  | none => exact .refuse trivial
  | some session =>
    cases body with
    | none => exact .refuse trivial
    | some body =>
      unfold manage
      simp only
      cases body.expected with
      | none => exact .accept
      | some expected =>
        simp only
        split_ifs
        · exact .accept
        · exact .refuse trivial

theorem updateThreshold_move {session : Option Session} {body : Option ThresholdBody}
    (h : Uncounted (.updateThreshold session body)) :
    Move s (.updateThreshold session body) .idle (updateThreshold session body, s) := by
  cases session with
  | none => exact .refuse trivial
  | some session =>
    cases body with
    | none => exact .refuse trivial
    | some body =>
      unfold updateThreshold
      simp only
      split_ifs with hpos
      · exact .refuse trivial
      · rw [show body.signerCount = none from h]
        exact .wait (by omega)

theorem checkThreshold_move {session : Session} {threshold : ℤ} :
    Move s (.list true) (.listing session threshold)
      (checkThreshold session threshold (netSigners (auditList s.log session.contractId)), s) := by
  unfold checkThreshold
  split_ifs with hover
  · exact .refuse trivial
  · exact .check (by omega)

/-- **What a request does** up to its next await. -/
theorem exec_move {x : Input} (h : Uncounted x) : Move s x r (exec x r s) := by
  cases x with
  | manage session body =>
    cases r with
    | idle => exact manage_move s session body
    | listing | recording | answered => exact .stay
  | updateThreshold session body =>
    cases r with
    | idle => exact updateThreshold_move h
    | listing | recording | answered => exact .stay
  | list answered =>
    cases r with
    | listing session threshold =>
      cases answered with
      | true => exact checkThreshold_move
      | false => exact .refuse trivial
    | idle | recording | answered => exact .stay
  | record write =>
    cases r with
    | recording event reply =>
      cases write with
      | stored => exact .stored
      | refused => exact .refused
      | unconfirmed => exact .unconfirmed
    | idle | listing | answered => exact .stay

end Moves

/-! ## The log -/

section Log

variable {log : List Event} {contractId network : String}

theorem signerEvents_signer (e : SignerEvent) :
    signerEvents (log ++ [.signer e]) contractId =
      if e.contractId = contractId then signerEvents log contractId ++ [e] else signerEvents log contractId := by
  unfold signerEvents
  rw [List.filterMap_append]
  split_ifs with hc <;> simp [hc]

theorem signerEvents_threshold (e : ThresholdEvent) :
    signerEvents (log ++ [.threshold e]) contractId = signerEvents log contractId := by
  unfold signerEvents
  rw [List.filterMap_append]
  simp

theorem eventsOn_signer (e : SignerEvent) :
    eventsOn (log ++ [.signer e]) contractId network =
      if e.contractId = contractId ∧ e.network = network then eventsOn log contractId network ++ [e]
      else eventsOn log contractId network := by
  unfold eventsOn
  rw [signerEvents_signer]
  by_cases hc : e.contractId = contractId
  · rw [if_pos hc, List.filter_append]
    by_cases hn : e.network = network <;> simp [hc, hn]
  · simp [hc]

theorem eventsOn_threshold (e : ThresholdEvent) :
    eventsOn (log ++ [.threshold e]) contractId network = eventsOn log contractId network := by
  unfold eventsOn
  rw [signerEvents_threshold]

theorem lastThreshold_signer (e : SignerEvent) :
    lastThreshold (log ++ [.signer e]) contractId network = lastThreshold log contractId network := by
  unfold lastThreshold
  rw [List.filterMap_append]
  simp

theorem lastThreshold_threshold (e : ThresholdEvent) :
    lastThreshold (log ++ [.threshold e]) contractId network =
      if e.contractId = contractId ∧ e.network = network then some e.threshold
      else lastThreshold log contractId network := by
  unfold lastThreshold
  rw [List.filterMap_append]
  split_ifs with hc <;> simp [hc]

/-- The loop of the route looks at the signer events only. -/
theorem netSigners_auditList :
    netSigners (auditList log contractId) =
      ((signerEvents log contractId).map Event.signer).foldl countStep 1 := by
  unfold netSigners auditList signerEvents
  induction log using List.reverseRecOn with
  | nil => rfl
  | append_singleton log event ih =>
    rw [List.filter_append, List.filterMap_append, List.map_append, List.foldl_append, List.foldl_append, ih]
    cases event with
    | signer e =>
      by_cases hc : e.contractId = contractId <;> simp [Event.actor, hc]
    | threshold e =>
      by_cases hc : e.contractId = contractId <;> simp [Event.actor, hc, countStep]

end Log

/-! ## Versions -/

/-- How many signer events of the wallet are recorded. -/
def recorded (c : World) (contractId : String) : ℕ := (signerEvents c.shared.log contractId).length

/-- The recorded versions are the first ones, those in flight are the others up to the counter, each once. -/
structure Numbered (c : World) : Prop where
  versions : ∀ contractId,
    (signerEvents c.shared.log contractId).map SignerEvent.version = List.range' 1 (recorded c contractId)
  le_version : ∀ contractId, recorded c contractId ≤ c.shared.version contractId
  flight : ∀ p e, (c.procs p).inFlight = some e →
    recorded c e.contractId < e.version ∧ e.version ≤ c.shared.version e.contractId
  apart : ∀ p q e e', p ≠ q → (c.procs p).inFlight = some e → (c.procs q).inFlight = some e' →
    e.contractId = e'.contractId → e.version ≠ e'.version
  filled : ∀ contractId v, recorded c contractId < v → v ≤ c.shared.version contractId →
    ∃ p e, (c.procs p).inFlight = some e ∧ e.contractId = contractId ∧ e.version = v

section Versions

variable {c : World} {p : ℕ}

theorem inFlight_update {r : Request} {q : ℕ} {e : SignerEvent} (h : (Function.update c.procs p r q).inFlight = some e) :
    q = p ∧ r.inFlight = some e ∨ q ≠ p ∧ (c.procs q).inFlight = some e := by
  by_cases hq : q = p
  · rw [hq, Function.update_self] at h
    exact .inl ⟨hq, h⟩
  · rw [Function.update_of_ne hq] at h
    exact .inr ⟨hq, h⟩

/-- The others keep what they are about to write. -/
theorem inFlight_other {r : Request} {q : ℕ} {e : SignerEvent} (hne : q ≠ p) (h : (c.procs q).inFlight = some e) :
    (Function.update c.procs p r q).inFlight = some e := by
  rwa [Function.update_of_ne hne]

/-- A move that neither takes a version nor records a signer event. -/
theorem Numbered.keep (h : Numbered c) {r : Request} {s' : Store} (hversion : s'.signerVersions = c.shared.signerVersions)
    (hevents : ∀ contractId, signerEvents s'.log contractId = signerEvents c.shared.log contractId)
    (hflight : r.inFlight = (c.procs p).inFlight) : Numbered ⟨s', Function.update c.procs p r⟩ := by
  have hsame : ∀ q, (Function.update c.procs p r q).inFlight = (c.procs q).inFlight := by
    intro q
    by_cases hq : q = p
    · rw [hq, Function.update_self, hflight]
    · rw [Function.update_of_ne hq]
  have hrec : ∀ contractId, recorded ⟨s', Function.update c.procs p r⟩ contractId = recorded c contractId :=
    fun contractId => congrArg List.length (hevents contractId)
  have hver : ∀ contractId, s'.version contractId = c.shared.version contractId := by
    intro contractId
    unfold Store.version
    rw [hversion]
  refine ⟨fun contractId => ?_, fun contractId => ?_, fun q e hq => ?_, fun q q' e e' hne hq hq' => ?_,
    fun contractId v hlt hle => ?_⟩
  · rw [hrec, ← h.versions]
    exact congrArg _ (hevents contractId)
  · rw [hrec]
    exact (h.le_version contractId).trans_eq (hver _).symm
  · rw [hrec]
    have hold := h.flight q e ((hsame q).symm.trans hq)
    exact ⟨hold.1, hold.2.trans_eq (hver _).symm⟩
  · exact h.apart q q' e e' hne ((hsame q).symm.trans hq) ((hsame q').symm.trans hq')
  · rw [hrec] at hlt
    obtain ⟨q, e, hq, hid, hv⟩ := h.filled contractId v hlt (hle.trans_eq (hver _))
    exact ⟨q, e, (hsame q).trans hq, hid, hv⟩

theorem version_bump (s : Store) (contractId id : String) :
    (bump s contractId).version id = if id = contractId then s.version contractId + 1 else s.version id := by
  show (Function.update s.signerVersions contractId (some (s.version contractId + 1)) id).getD 0 = _
  by_cases hid : id = contractId
  · rw [if_pos hid, hid, Function.update_self]
    rfl
  · rw [if_neg hid, Function.update_of_ne hid]
    rfl

theorem version_le_bump (s : Store) (contractId id : String) : s.version id ≤ (bump s contractId).version id := by
  rw [version_bump]
  split_ifs with hid
  · rw [hid]
    omega
  · exact le_rfl

/-- An accepted change takes the next version. -/
theorem Numbered.accept (h : Numbered c) (hidle : (c.procs p).inFlight = none) {e : SignerEvent} {reply : Reply}
    (hv : e.version = c.shared.version e.contractId + 1) :
    Numbered ⟨bump c.shared e.contractId, Function.update c.procs p (.recording (.signer e) reply)⟩ := by
  have hnew : ∀ e', (Request.recording (.signer e) reply).inFlight = some e' → e = e' := fun e' h => Option.some.inj h
  have hold : ∀ {contractId v}, recorded c contractId < v → v ≤ c.shared.version contractId →
      ∃ q e', (Function.update c.procs p (.recording (.signer e) reply) q).inFlight = some e' ∧
        e'.contractId = contractId ∧ e'.version = v := by
    intro contractId v hlt hle
    obtain ⟨q, e', hq, hid, hve⟩ := h.filled contractId v hlt hle
    refine ⟨q, e', inFlight_other ?_ hq, hid, hve⟩
    rintro rfl
    rw [hidle] at hq
    cases hq
  refine ⟨h.versions, fun contractId => (h.le_version contractId).trans (version_le_bump ..), fun q e' hq => ?_,
    fun q q' e₁ e₂ hne hq hq' hid => ?_, fun contractId v hlt hle => ?_⟩
  · show recorded c e'.contractId < e'.version ∧ e'.version ≤ (bump c.shared e.contractId).version e'.contractId
    rcases inFlight_update hq with ⟨-, hmine⟩ | ⟨-, hother⟩
    · obtain rfl := hnew e' hmine
      have hle := h.le_version e.contractId
      rw [version_bump, if_pos rfl, hv]
      omega
    · obtain ⟨h1, h2⟩ := h.flight q e' hother
      exact ⟨h1, h2.trans (version_le_bump ..)⟩
  · rcases inFlight_update hq with ⟨hqp, hmine⟩ | ⟨-, hother⟩
    · obtain rfl := hnew e₁ hmine
      rcases inFlight_update hq' with ⟨hqp', -⟩ | ⟨-, hother'⟩
      · exact absurd (hqp.trans hqp'.symm) hne
      · have hle := (h.flight q' e₂ hother').2
        rw [← hid] at hle
        omega
    · rcases inFlight_update hq' with ⟨-, hmine'⟩ | ⟨-, hother'⟩
      · obtain rfl := hnew e₂ hmine'
        have hle := (h.flight q e₁ hother).2
        rw [hid] at hle
        omega
      · exact h.apart q q' e₁ e₂ hne hother hother' hid
  · have hle' : v ≤ (bump c.shared e.contractId).version contractId := hle
    rw [version_bump] at hle'
    split_ifs at hle' with hid
    · rcases Nat.lt_or_ge (c.shared.version contractId) v with hgt | hle
      · refine ⟨p, e, ?_, hid.symm, ?_⟩
        · show (Function.update c.procs p _ p).inFlight = _
          rw [Function.update_self]
          rfl
        · rw [hid] at hgt
          omega
      · exact hold hlt hle
    · exact hold hlt hle'

/-- The event in turn is the next one to be recorded. -/
theorem Numbered.land (h : Numbered c) {e : SignerEvent} {r : Request} (hp : (c.procs p).inFlight = some e)
    (hturn : InTurn c e) (hr : r.inFlight = none) :
    Numbered ⟨append c.shared (.signer e), Function.update c.procs p r⟩ := by
  have hflight := h.flight p e hp
  have hnext : e.version = recorded c e.contractId + 1 := by
    obtain ⟨q, e', hq, hid, hv⟩ := h.filled e.contractId (recorded c e.contractId + 1) (by omega) (by omega)
    have hle := hturn q e' hq hid
    omega
  have hrec : ∀ contractId, recorded ⟨append c.shared (.signer e), Function.update c.procs p r⟩ contractId =
      if e.contractId = contractId then recorded c contractId + 1 else recorded c contractId := by
    intro contractId
    show (signerEvents (c.shared.log ++ [.signer e]) contractId).length = _
    rw [signerEvents_signer]
    split_ifs
    · exact List.length_append
    · rfl
  have hstill : ∀ q e', (Function.update c.procs p r q).inFlight = some e' → q ≠ p ∧ (c.procs q).inFlight = some e' := by
    intro q e' hq
    rcases inFlight_update hq with ⟨-, hq⟩ | hq
    · rw [hr] at hq
      cases hq
    · exact hq
  refine ⟨fun contractId => ?_, fun contractId => ?_, fun q e' hq => ?_, fun q q' e₁ e₂ hne hq hq' => ?_,
    fun contractId v hlt hle => ?_⟩
  · rw [hrec]
    show (signerEvents (c.shared.log ++ [.signer e]) contractId).map _ = _
    rw [signerEvents_signer]
    split_ifs with hid
    · rw [List.map_append, h.versions, ← hid, List.range'_1_concat, List.map_singleton, hnext, Nat.add_comm 1]
    · exact h.versions contractId
  · rw [hrec]
    show _ ≤ c.shared.version contractId
    have hle := h.le_version contractId
    split_ifs with hid
    · rw [← hid]
      omega
    · exact hle
  · obtain ⟨hne, hq⟩ := hstill q e' hq
    obtain ⟨h1, h2⟩ := h.flight q e' hq
    rw [hrec]
    refine ⟨?_, h2⟩
    split_ifs with hid
    · have hother := h.apart p q e e' (Ne.symm hne) hp hq hid
      have hle := hturn q e' hq hid.symm
      rw [← hid]
      omega
    · exact h1
  · exact h.apart q q' e₁ e₂ hne (hstill q e₁ hq).2 (hstill q' e₂ hq').2
  · rw [hrec] at hlt
    have hlt' : recorded c contractId < v := by
      split_ifs at hlt <;> omega
    obtain ⟨q, e', hq, hid, hv⟩ := h.filled contractId v hlt' hle
    refine ⟨q, e', ?_, hid, hv⟩
    show (Function.update c.procs p r q).inFlight = some e'
    rw [Function.update_of_ne]
    · exact hq
    · rintro rfl
      obtain rfl : e = e' := Option.some.inj (hp.symm.trans hq)
      rw [if_pos hid, ← hid, ← hv] at hlt
      omega

end Versions

/-! ## Thresholds -/

/-- The loop counts the signer set, and the thresholds that are recorded or about to be are within it. -/
structure Sound (owner : String → String → String) (c : World) : Prop where
  counted : ∀ contractId network, ((eventsOn c.shared.log contractId network).map Event.signer).foldl countStep 1 =
    (signerSet owner c.shared.log contractId network).card
  last : ∀ contractId network threshold, lastThreshold c.shared.log contractId network = some threshold →
    1 ≤ threshold ∧ threshold ≤ (signerSet owner c.shared.log contractId network).card
  promised : ∀ p e, (c.procs p).promised = some e →
    1 ≤ e.threshold ∧ e.threshold ≤ (signerSet owner c.shared.log e.contractId e.network).card
  waiting : ∀ p session threshold, c.procs p = .listing session threshold → 0 < threshold

section Thresholds

variable {owner : String → String → String} {c : World} {p : ℕ} {log : List Event} {contractId network : String}

theorem signerSet_signer (e : SignerEvent) :
    signerSet owner (log ++ [.signer e]) contractId network =
      if e.contractId = contractId ∧ e.network = network then change (signerSet owner log contractId network) e
      else signerSet owner log contractId network := by
  unfold signerSet
  rw [eventsOn_signer]
  split_ifs
  · rw [List.foldl_append]
    rfl
  · rfl

theorem signerSet_threshold (e : ThresholdEvent) :
    signerSet owner (log ++ [.threshold e]) contractId network = signerSet owner log contractId network := by
  unfold signerSet
  rw [eventsOn_threshold]

theorem promised_update {r : Request} {q : ℕ} {e : ThresholdEvent} (h : (Function.update c.procs p r q).promised = some e) :
    r.promised = some e ∨ (c.procs q).promised = some e := by
  by_cases hq : q = p
  · rw [hq, Function.update_self] at h
    exact .inl h
  · rw [Function.update_of_ne hq] at h
    exact .inr h

theorem listing_update {r : Request} {q : ℕ} {session : Session} {threshold : ℤ}
    (h : Function.update c.procs p r q = .listing session threshold) :
    r = .listing session threshold ∨ c.procs q = .listing session threshold := by
  by_cases hq : q = p
  · rw [hq, Function.update_self] at h
    exact .inl h
  · rw [Function.update_of_ne hq] at h
    exact .inr h

/-- A move that records nothing. -/
theorem Sound.keep (h : Sound owner c) {r : Request} {s' : Store} (hlog : s'.log = c.shared.log)
    (hpromised : ∀ e, r.promised = some e →
      1 ≤ e.threshold ∧ e.threshold ≤ (signerSet owner c.shared.log e.contractId e.network).card)
    (hwaiting : ∀ session threshold, r = .listing session threshold → 0 < threshold) :
    Sound owner ⟨s', Function.update c.procs p r⟩ := by
  refine ⟨?_, ?_, fun q e hq => ?_, fun q session threshold hq => ?_⟩
  · rw [hlog]
    exact h.counted
  · rw [hlog]
    exact h.last
  · rw [hlog]
    rcases promised_update hq with hmine | hother
    · exact hpromised e hmine
    · exact h.promised q e hother
  · rcases listing_update hq with hmine | hother
    · exact hwaiting session threshold hmine
    · exact h.waiting q session threshold hother

/-- What an event that fits makes of the size of the signer set, and of the count. -/
theorem change_fits {e : SignerEvent} (hfits : Fits owner c e)
    (hlast : ∀ threshold, lastThreshold c.shared.log e.contractId e.network = some threshold → 1 ≤ threshold) :
    (change (signerSet owner c.shared.log e.contractId e.network) e).card =
        countStep (signerSet owner c.shared.log e.contractId e.network).card (.signer e) ∧
      (e.action = .add ∧ (change (signerSet owner c.shared.log e.contractId e.network) e).card =
        (signerSet owner c.shared.log e.contractId e.network).card + 1 ∨
      e.action = .remove ∧ (change (signerSet owner c.shared.log e.contractId e.network) e).card + 1 =
        (signerSet owner c.shared.log e.contractId e.network).card) := by
  obtain ⟨action, id, signerKey, weight, network, version, actor⟩ := e
  cases action with
  | add =>
    have hcard := Finset.card_insert_of_notMem hfits
    exact ⟨hcard, .inl ⟨rfl, hcard⟩⟩
  | remove =>
    obtain ⟨hmem, hlt, -⟩ := hfits
    have hcard := Finset.card_erase_add_one hmem
    have hpos : 1 ≤ (lastThreshold c.shared.log id network).getD 1 := by
      cases hl : lastThreshold c.shared.log id network with
      | none => exact le_rfl
      | some threshold => exact hlast threshold hl
    refine ⟨?_, .inr ⟨rfl, hcard⟩⟩
    show ((signerSet owner c.shared.log id network).erase signerKey).card =
      max 1 ((signerSet owner c.shared.log id network).card - 1)
    simp only at hcard hlt
    omega

/-- A signer event that fits is recorded. -/
theorem Sound.land_signer (h : Sound owner c) {e : SignerEvent} (hfits : Fits owner c e) {reply : Reply} :
    Sound owner ⟨append c.shared (.signer e), Function.update c.procs p (.answered reply)⟩ := by
  obtain ⟨hstep, hsize⟩ := change_fits hfits fun threshold hl => (h.last _ _ threshold hl).1
  refine ⟨fun contractId network => ?_, fun contractId network threshold hl => ?_, fun q e' hq => ?_,
    fun q session threshold hq => ?_⟩
  · show ((eventsOn (c.shared.log ++ [.signer e]) contractId network).map Event.signer).foldl countStep 1 =
      (signerSet owner (c.shared.log ++ [.signer e]) contractId network).card
    rw [eventsOn_signer, signerSet_signer]
    split_ifs with hsame
    · obtain ⟨rfl, rfl⟩ := hsame
      rw [List.map_append, List.foldl_append, h.counted, hstep]
      rfl
    · exact h.counted contractId network
  · have hl' : lastThreshold (c.shared.log ++ [.signer e]) contractId network = some threshold := hl
    rw [lastThreshold_signer] at hl'
    obtain ⟨hpos, hle⟩ := h.last contractId network threshold hl'
    refine ⟨hpos, ?_⟩
    show threshold ≤ (signerSet owner (c.shared.log ++ [.signer e]) contractId network).card
    rw [signerSet_signer]
    split_ifs with hsame
    · obtain ⟨rfl, rfl⟩ := hsame
      rcases hsize with ⟨-, hadd⟩ | ⟨hremove, hdown⟩
      · omega
      · unfold Fits at hfits
        rw [hremove] at hfits
        have hlt := hfits.2.1
        rw [hl', Option.getD_some] at hlt
        omega
    · exact hle
  · rcases promised_update hq with hmine | hother
    · cases hmine
    · obtain ⟨hpos, hle⟩ := h.promised q e' hother
      refine ⟨hpos, ?_⟩
      show e'.threshold ≤ (signerSet owner (c.shared.log ++ [.signer e]) e'.contractId e'.network).card
      rw [signerSet_signer]
      split_ifs with hsame
      · rcases hsize with ⟨-, hadd⟩ | ⟨hremove, -⟩
        · obtain ⟨hid, hnet⟩ := hsame
          rw [← hid, ← hnet] at hle ⊢
          omega
        · unfold Fits at hfits
          rw [hremove] at hfits
          exact absurd ⟨hsame.1.symm, hsame.2.symm⟩ (hfits.2.2 q e' hother)
      · exact hle
  · rcases listing_update hq with hmine | hother
    · cases hmine
    · exact h.waiting q session threshold hother

/-- A threshold that was checked is recorded. -/
theorem Sound.land_threshold (h : Sound owner c) {e : ThresholdEvent} (hp : (c.procs p).promised = some e) {reply : Reply} :
    Sound owner ⟨append c.shared (.threshold e), Function.update c.procs p (.answered reply)⟩ := by
  have hset : ∀ contractId network, signerSet owner (append c.shared (.threshold e)).log contractId network =
      signerSet owner c.shared.log contractId network := fun _ _ => signerSet_threshold e
  refine ⟨fun contractId network => ?_, fun contractId network threshold hl => ?_, fun q e' hq => ?_,
    fun q session threshold hq => ?_⟩
  · rw [hset]
    show ((eventsOn (c.shared.log ++ [.threshold e]) contractId network).map Event.signer).foldl countStep 1 = _
    rw [eventsOn_threshold]
    exact h.counted contractId network
  · rw [hset]
    have hl' : lastThreshold (c.shared.log ++ [.threshold e]) contractId network = some threshold := hl
    rw [lastThreshold_threshold] at hl'
    split_ifs at hl' with hsame
    · obtain ⟨rfl, rfl⟩ := hsame
      rw [← Option.some.inj hl']
      exact h.promised p e hp
    · exact h.last contractId network threshold hl'
  · rw [hset]
    rcases promised_update hq with hmine | hother
    · cases hmine
    · exact h.promised q e' hother
  · rcases listing_update hq with hmine | hother
    · cases hmine
    · exact h.waiting q session threshold hother

/-- Where all recorded signer events of the wallet are on one network, the loop counts that signer set. -/
theorem Sound.netSigners_eq (h : Sound owner c)
    (hall : ∀ e ∈ signerEvents c.shared.log contractId, e.network = network) :
    netSigners (auditList c.shared.log contractId) = (signerSet owner c.shared.log contractId network).card := by
  rw [netSigners_auditList, ← h.counted]
  unfold eventsOn
  rw [List.filter_eq_self.mpr fun e he => decide_eq_true (hall e he)]

end Thresholds

/-! ## Runs -/

structure Inv (owner : String → String → String) (c : World) : Prop where
  numbered : Numbered c
  sound : Sound owner c
  replies : ∀ p event reply, c.procs p = .recording event reply → reply.code = 200

section Runs

variable {owner : String → String → String} {c : World} {p : ℕ} {op : ℕ × Input}

theorem Orderly.signer {e : SignerEvent} {reply : Reply} {write : Write} (h : Orderly owner c (p, .record write))
    (hr : c.procs p = .recording (.signer e) reply) : write = .stored ∧ InTurn c e ∧ Fits owner c e := by
  simpa only [Orderly, hr] using h

theorem Orderly.threshold {e : ThresholdEvent} {reply : Reply} {write : Write} (h : Orderly owner c (p, .record write))
    (hr : c.procs p = .recording (.threshold e) reply) : write ≠ .unconfirmed := by
  simpa only [Orderly, hr] using h

theorem Orderly.listing {session : Session} {threshold : ℤ} {answered : Bool} (h : Orderly owner c (p, .list answered))
    (hr : c.procs p = .listing session threshold) :
    ∀ e ∈ signerEvents c.shared.log session.contractId, e.network = session.network := by
  simpa only [Orderly, hr] using h

theorem Request.Fresh.inFlight {r : Request} (h : r.Fresh) : r.inFlight = none := by
  cases r with
  | idle | listing => rfl
  | recording | answered => exact h.elim

theorem replies_update (h : Inv owner c) {r : Request} (hr : ∀ event reply, r = .recording event reply → reply.code = 200) :
    ∀ q event reply, Function.update c.procs p r q = .recording event reply → reply.code = 200 := by
  intro q event reply hq
  by_cases hqp : q = p
  · rw [hqp, Function.update_self] at hq
    exact hr event reply hq
  · rw [Function.update_of_ne hqp] at hq
    exact h.replies q event reply hq

/-- A move that records nothing and takes no version. -/
theorem Inv.keep (h : Inv owner c) {r : Request} (hflight : r.inFlight = (c.procs p).inFlight)
    (hpromised : ∀ e, r.promised = some e →
      1 ≤ e.threshold ∧ e.threshold ≤ (signerSet owner c.shared.log e.contractId e.network).card)
    (hwaiting : ∀ session threshold, r = .listing session threshold → 0 < threshold)
    (hr : ∀ event reply, r = .recording event reply → reply.code = 200) :
    Inv owner ⟨c.shared, Function.update c.procs p r⟩ :=
  ⟨h.numbered.keep rfl (fun _ => rfl) hflight, h.sound.keep rfl hpromised hwaiting, replies_update h hr⟩

/-- **Step**: an orderly move keeps the invariant. -/
theorem inv_next (h : Inv owner c) (hun : Uncounted op.2) (hord : Orderly owner c op) : Inv owner (next c op) := by
  obtain ⟨p, x⟩ := op
  have hmove := exec_move (s := c.shared) (r := c.procs p) hun
  show Inv owner ⟨(exec x (c.procs p) c.shared).2, Function.update c.procs p (exec x (c.procs p) c.shared).1⟩
  generalize exec x (c.procs p) c.shared = res at hmove ⊢
  generalize hr : c.procs p = r at hmove
  cases hmove with
  | stay =>
    refine h.keep (by rw [hr]) (fun e he => h.sound.promised p e (by rw [hr]; exact he))
      (fun session threshold hl => h.sound.waiting p session threshold (hr.trans hl))
      fun event reply hrec => h.replies p event reply (hr.trans hrec)
  | refuse hfresh =>
    exact h.keep (by rw [hr, hfresh.inFlight]; rfl) (by rintro _ ⟨⟩) (by rintro _ _ ⟨⟩) (by rintro _ _ ⟨⟩)
  | wait hpos =>
    exact h.keep (by rw [hr]; rfl) (by rintro _ ⟨⟩) (by rintro _ _ ⟨⟩; exact hpos) (by rintro _ _ ⟨⟩)
  | @check session threshold hle =>
    rw [h.sound.netSigners_eq (hord.listing hr)] at hle
    have hpos := h.sound.waiting p session threshold hr
    refine h.keep (by rw [hr]; rfl) ?_ (by rintro _ _ ⟨⟩) (by rintro _ _ ⟨⟩; rfl)
    rintro _ ⟨⟩
    exact ⟨hpos, hle⟩
  | @accept x session body =>
    let e := signerEvent session body (c.shared.version session.contractId + 1)
    refine ⟨h.numbered.accept (e := e) (by rw [hr]; rfl) rfl, h.sound.keep rfl (by rintro _ ⟨⟩) (by rintro _ _ ⟨⟩),
      replies_update h ?_⟩
    rintro _ _ ⟨⟩
    rfl
  | @stored event reply =>
    cases event with
    | signer e =>
      obtain ⟨-, hturn, hfits⟩ := hord.signer hr
      exact ⟨h.numbered.land (by rw [hr]; rfl) hturn rfl, h.sound.land_signer hfits,
        replies_update h (by rintro _ _ ⟨⟩)⟩
    | threshold e =>
      exact ⟨h.numbered.keep rfl (fun _ => signerEvents_threshold e) (by rw [hr]; rfl),
        h.sound.land_threshold (by rw [hr]; rfl), replies_update h (by rintro _ _ ⟨⟩)⟩
  | @refused event reply =>
    cases event with
    | signer e => exact absurd (hord.signer hr).1 (by decide)
    | threshold e =>
      exact h.keep (by rw [hr]; rfl) (by rintro _ ⟨⟩) (by rintro _ _ ⟨⟩) (by rintro _ _ ⟨⟩)
  | @unconfirmed event reply =>
    cases event with
    | signer e => exact absurd (hord.signer hr).1 (by decide)
    | threshold e => exact absurd rfl (hord.threshold hr)

theorem inv_start : Inv owner start := by
  refine ⟨⟨fun _ => rfl, fun _ => le_rfl, by rintro _ _ ⟨⟩, by rintro _ _ _ _ _ ⟨⟩, fun contractId v hlt hle => ?_⟩,
    ⟨fun contractId network => rfl, by rintro _ _ _ ⟨⟩, by rintro _ _ ⟨⟩, by rintro _ _ _ ⟨⟩⟩, by rintro _ _ _ ⟨⟩⟩
  have h0 : v ≤ 0 := hle
  have h1 : 0 < v := hlt
  omega

theorem Inv.consistent (h : Inv owner c) : Consistent owner c.shared.log := ⟨h.numbered.versions, h.sound.last⟩

/-- A step that accepts under an expected version takes the next one. -/
theorem accepted_cases (c : World) (op : ℕ × Input) :
    accepted c op = [] ∨
    ∃ contractId, accepted c op = [(contractId, c.shared.version contractId)] ∧ (next c op).shared = bump c.shared contractId := by
  obtain ⟨p, x⟩ := op
  match x with
  | .manage (some session) (some body) =>
    cases hr : c.procs p with
    | listing | recording | answered => exact .inl (by simp only [accepted, hr])
    | idle =>
      cases hexp : body.expected with
      | none => exact .inl (by simp only [accepted, hr, hexp])
      | some expected =>
        by_cases heq : expected = c.shared.version session.contractId
        · refine .inr ⟨session.contractId, by simp only [accepted, hr, hexp, heq, if_true], ?_⟩
          show (exec (.manage (some session) (some body)) (c.procs p) c.shared).2 = _
          rw [hr]
          show (manage c.shared (some session) (some body)).2 = _
          unfold manage
          simp only [hexp, if_pos heq]
          rfl
        · exact .inl (by simp only [accepted, hr, hexp, if_neg heq])
  | .manage none _ | .manage (some _) none => exact .inl rfl
  | .updateThreshold _ _ | .list _ | .record _ => exact .inl rfl

/-- Versions only go up. -/
theorem version_le_next (hun : Uncounted op.2) (contractId : String) :
    c.shared.version contractId ≤ (next c op).shared.version contractId := by
  obtain ⟨p, x⟩ := op
  have hmove := exec_move (s := c.shared) (r := c.procs p) hun
  show _ ≤ (exec x (c.procs p) c.shared).2.version contractId
  generalize exec x (c.procs p) c.shared = res at hmove ⊢
  generalize c.procs p = r at hmove
  cases hmove with
  | accept => exact version_le_bump ..
  | stay | refuse | wait | check | stored | refused | unconfirmed => exact le_rfl

/-- An accepted expected version lies behind the wallet for good. -/
def Passed (c : World) (log : List (String × ℕ)) : Prop := log.Nodup ∧ ∀ x ∈ log, x.2 < c.shared.version x.1

theorem passed_next {log : List (String × ℕ)} (h : Passed c log) (hun : Uncounted op.2) :
    Passed (next c op) (log ++ accepted c op) := by
  obtain ⟨hnodup, hlt⟩ := h
  have hold : ∀ x ∈ log, x.2 < (next c op).shared.version x.1 :=
    fun x hx => (hlt x hx).trans_le (version_le_next hun x.1)
  rcases accepted_cases c op with hnone | ⟨contractId, hacc, hshared⟩
  · rw [hnone, List.append_nil]
    exact ⟨hnodup, hold⟩
  · rw [hacc]
    refine ⟨?_, fun x hx => ?_⟩
    · rw [← List.concat_eq_append]
      exact hnodup.concat fun hmem => lt_irrefl _ (hlt _ hmem)
    · rcases List.mem_append.mp hx with hx | hx
      · exact hold x hx
      · rw [List.mem_singleton.mp hx, hshared, version_bump, if_pos rfl]
        exact Nat.lt_succ_self _

/-- The request will be answered with 200. -/
def Fine (c : World) (p : ℕ) : Prop :=
  (∃ e reply, c.procs p = .recording (.signer e) reply) ∨ ∃ reply, c.procs p = .answered reply ∧ reply.code = 200

theorem fine_next (h : Inv owner c) (hun : Uncounted op.2) (hord : Orderly owner c op) (hfine : Fine c p) :
    Fine (next c op) p := by
  obtain ⟨q, x⟩ := op
  by_cases hq : p = q
  · subst hq
    have hmove := exec_move (s := c.shared) (r := c.procs p) hun
    have hself : (next c (p, x)).procs p = (exec x (c.procs p) c.shared).1 := procs_step_self
    unfold Fine
    rw [hself]
    generalize exec x (c.procs p) c.shared = res at hmove ⊢
    rcases hfine with ⟨e, reply, hr⟩ | ⟨reply, hr, hcode⟩
    · have hok := h.replies p _ reply hr
      rw [hr] at hmove
      cases hmove with
      | stay => exact .inl ⟨e, reply, rfl⟩
      | refuse hfresh => exact hfresh.elim
      | stored => exact .inr ⟨reply, rfl, hok⟩
      | refused => exact absurd (hord.signer hr).1 (by decide)
      | unconfirmed => exact absurd (hord.signer hr).1 (by decide)
    · rw [hr] at hmove
      cases hmove with
      | stay => exact .inr ⟨reply, rfl, hcode⟩
      | refuse hfresh => exact hfresh.elim
  · have hother : (next c (q, x)).procs p = c.procs p := procs_step_other hq
    unfold Fine
    rwa [hother]

/-- A request that changes the store is fine from then on. -/
theorem fine_of_changed (h : Inv owner c) (hun : Uncounted op.2) (hord : Orderly owner c op)
    (hchanged : (next c op).shared ≠ c.shared) : Fine (next c op) op.1 := by
  obtain ⟨p, x⟩ := op
  have hmove := exec_move (s := c.shared) (r := c.procs p) hun
  have hself : (next c (p, x)).procs p = (exec x (c.procs p) c.shared).1 := procs_step_self
  have hshared : (exec x (c.procs p) c.shared).2 ≠ c.shared := hchanged
  unfold Fine
  rw [hself]
  generalize exec x (c.procs p) c.shared = res at hmove hshared ⊢
  generalize hr : c.procs p = r at hmove
  cases hmove with
  | stay | refuse | wait | check | refused => exact absurd rfl hshared
  | accept => exact .inl ⟨_, _, rfl⟩
  | stored => exact .inr ⟨_, rfl, h.replies p _ _ hr⟩
  | @unconfirmed event reply =>
    cases event with
    | signer e => exact absurd (hord.signer hr).1 (by decide)
    | threshold e => exact absurd rfl (hord.threshold hr)

/-- **Signer sets and thresholds stay consistent in orderly runs**: when signer events are stored in the order of
their versions and fit the signer set, no threshold is stored and reported as failed, and thresholds are set on the
network of the signer events, the versions of a wallet have no gap, its last threshold is within its signer set, no
expected version is accepted twice, and an error answer changed nothing. -/
theorem signers_consistent {ops : List (ℕ × Input)} (hun : ∀ op ∈ ops, Uncounted op.2)
    (hord : Along next (Orderly owner) start ops) : Lawful owner ops := by
  have hall : Along next (fun c op => Uncounted op.2 ∧ Orderly owner c op) start ops := by
    rw [along_iff] at hord ⊢
    exact fun pre op post heq => ⟨hun op (by rw [heq]; simp), hord pre op post heq⟩
  have hinv := inv_prefix (P := Inv owner) (fun c op h hop => inv_next h hop.1 hop.2) inv_start hall
  refine ⟨fun pre hpre => (hinv pre hpre).consistent, ?_, ?_⟩
  · have hpassed := inv_log (P := Passed) (fun c log op h hop => passed_next h hop.1)
      (h := []) ⟨List.nodup_nil, by simp⟩ hall
    rw [List.nil_append] at hpassed
    exact hpassed.1
  · rintro pre op mid ⟨post, heq⟩ hchanged reply hreply
    rw [← heq] at hall
    have hhead := (along_append.mp (along_append.mp hall).1)
    have hpre := hinv pre ⟨op :: mid ++ post, by rw [← heq]; simp⟩
    have hfine := fine_of_changed hpre hhead.2.1.1 hhead.2.1.2 hchanged
    have hlast := inv_run (P := fun c => Inv owner c ∧ Fine c op.1)
      (fun c op' h hop => ⟨inv_next h.1 hop.1 hop.2, fine_next h.1 hop.1 hop.2 h.2⟩)
      ⟨inv_next hpre hhead.2.1.1 hhead.2.1.2, hfine⟩ hhead.2.2
    rw [run_append, run_cons] at hreply
    rcases hlast.2 with ⟨e, reply', hrec⟩ | ⟨reply', hans, hcode⟩
    · rw [hrec] at hreply
      cases hreply
    · rw [hans] at hreply
      cases hreply
      exact hcode

end Runs

/-! A wallet whose first owner is `GOWNER`. -/

def firstOwner : String → String → String := fun _ _ => "GOWNER"

def ownSession : Session := ⟨"CWALLET", "testnet"⟩

def manageInput (action : Action) (signerKey : String) (expectedVersion : Option ℕ) : Input :=
  .manage (some ownSession) (some ⟨action, signerKey, none, none, expectedVersion, none, none, none⟩)

def thresholdInput (threshold : ℤ) : Input := .updateThreshold (some ownSession) (some ⟨threshold, none⟩)

/-- A signer is added, and then both sign. -/
def bothOps : List (ℕ × Input) :=
  [(1, manageInput .add "GDEVICE" (some 0)), (1, .record .stored), (2, thresholdInput 2), (2, .list true),
    (2, .record .stored)]

theorem signers_consistent_both : Lawful firstOwner bothOps := by
  refine signers_consistent (fun op hop => ?_) ⟨trivial, ⟨rfl, fun q e' hq _ => ?_, ?_⟩, trivial, ?_, ?_, trivial⟩
  · simp only [bothOps, List.mem_cons, List.not_mem_nil, or_false] at hop
    rcases hop with rfl | rfl | rfl | rfl | rfl <;> trivial
  · have hsigner : (run next start (bothOps.take 1)).procs = Function.update (start).procs 1
        (.recording (.signer ⟨.add, "CWALLET", "GDEVICE", none, "testnet", 1, .device⟩) (.signerUpdated .add 1)) := rfl
    have hq' : ((run next start (bothOps.take 1)).procs q).inFlight = some e' := hq
    rw [hsigner] at hq'
    rcases inFlight_update hq' with ⟨-, hmine⟩ | ⟨-, hother⟩
    · cases hmine
      exact le_rfl
    · cases hother
  · show "GDEVICE" ∉ ({"GOWNER"} : Finset String)
    decide
  · show ∀ e ∈ signerEvents [.signer ⟨.add, "CWALLET", "GDEVICE", none, "testnet", 1, .device⟩] "CWALLET",
      e.network = "testnet"
    decide
  · exact fun h => by cases h

/-- The audit store refuses the event of the first change; the next change is recorded. -/
def refusedOps : List (ℕ × Input) :=
  [(1, manageInput .add "GDEVICE" (some 0)), (1, .record .refused), (2, manageInput .add "GDEVICE" none),
    (2, .record .stored)]

/-- The second of two signers is removed while both must sign. -/
def removedOps : List (ℕ × Input) := bothOps ++ [(3, manageInput .remove "GDEVICE" none), (3, .record .stored)]

/-- One signer is added twice, and three must sign. -/
def twiceOps : List (ℕ × Input) :=
  [(1, manageInput .add "GDEVICE" none), (1, .record .stored), (2, manageInput .add "GDEVICE" none),
    (2, .record .stored), (3, thresholdInput 3), (3, .list true), (3, .record .stored)]

theorem versions_skip :
    (∀ op ∈ refusedOps ++ removedOps ++ twiceOps, Uncounted op.2) ∧ ¬ Lawful firstOwner refusedOps ∧
    ¬ Lawful firstOwner removedOps ∧ ¬ Lawful firstOwner twiceOps := by
  refine ⟨fun op hop => ?_, fun h => ?_, fun h => ?_, fun h => ?_⟩
  · simp only [refusedOps, removedOps, bothOps, twiceOps, List.cons_append, List.nil_append, List.mem_cons,
      List.not_mem_nil, or_false] at hop
    rcases hop with rfl | rfl | rfl | rfl | rfl | rfl | rfl | rfl | rfl | rfl | rfl | rfl | rfl | rfl | rfl | rfl | rfl |
      rfl <;> trivial
  · have hversions := (h.consistent refusedOps (List.prefix_refl _)).versions "CWALLET"
    exact absurd hversions (by decide)
  · have hlast := (h.consistent removedOps (List.prefix_refl _)).threshold "CWALLET" "testnet" 2 (by decide)
    exact absurd hlast.2 (by decide)
  · have hlast := (h.consistent twiceOps (List.prefix_refl _)).threshold "CWALLET" "testnet" 3 (by decide)
    exact absurd hlast.2 (by decide)

end Vellar.Wallet.SignerRuns
