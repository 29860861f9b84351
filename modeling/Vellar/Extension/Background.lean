import Vellar.Extension.TabManager
import Vellar.Lib.Processes

/-!
# Vellar.Extension.Background — the background worker

`apps/extension/entrypoints/background.ts`: provider requests, approvals, and what the popup and the browser send, each a task
over the stored state and the request manager, interleaved at their awaits.  `Names` tells how `pending` and `tabId` are read
in `handleProviderRequest`, which declares neither.
-/

set_option autoImplicit false

namespace Vellar.Extension

/-! ## Tasks -/

/-- The names that `handleProviderRequest` does not declare. -/
inductive Names where
  /-- Undefined, as the file has them: their use throws. -/
  | unbound
  /-- The manager's queue, and the sender's tab. -/
  | bound
deriving DecidableEq

structure Sender where
  origin : Option String
  url : Option String
  /-- The tab, which may have no id. -/
  tab : Option (Option ℕ)

inductive Job where
  | providerRequest (envelopeId : String) (request : ProviderRequest) (sender : Sender)
  | listPending
  | resolvePending (id : String) (approved : Bool)
  /-- A revocation in the popup. -/
  | revoke (origin network : String)
  | tabRemoved (tabId : ℕ)
  | windowRemoved (windowId : ℕ)

/-- Who calls the stored state. -/
inductive Caller where
  /-- A page, by its normalized origin, on the wallet's network. -/
  | disconnect (origin : String) (network : Network)
  | revocation
  | pair (entry : Entry)
  | connect (entry : Entry) (wallet : PairedWallet)

inductive Stage where
  | loading
  | ensuring
  | exporting
  | keying (wallet : PairedWallet)
  | hexing (wallet : PairedWallet)
  | signing (wallet : PairedWallet)

inductive Task where
  | begun (i : ℕ) (job : Job)
  | opening (i : ℕ) (creating : Bool)
  | calling (i : ℕ) (caller : Caller) (call : StateCall)
  /-- `seen` counts the writes at the read. -/
  | writing (i : ℕ) (caller : Caller) (call : StateCall) (raw : Stored) (seen : ℕ)
  | resolving (i : ℕ) (entry : Entry) (stage : Stage)
  | done (i : ℕ)

def Task.id : Task → ℕ
  | .begun i _ | .opening i _ | .calling i _ _ | .writing i _ _ _ _ | .resolving i _ _ | .done i => i

/-- What an await is answered. -/
inductive Reply where
  /-- With a text where one is expected: a time, a key, a signature. -/
  | succeeds (text : String)
  | absent
  /-- Signed, and to be signed again. -/
  | more
  | window (id : Option ℕ)
  /-- With the message of an `Error`. -/
  | fails (message : Option String)

def Reply.message (x : Reply) (default : String) : String :=
  match x with
  | .fails (some message) => message
  | _ => default

inductive Event where
  /-- Routed to approval. -/
  | routed (i : ℕ)
  | queued (entry : Entry)
  | settled (s : Settlement)
  | threw (i : ℕ)
  | listed (shown : List (String × String × ProviderRequest))
  | approved (i : ℕ) (entry : Entry)
  /-- The approval is over. -/
  | finished (i : ℕ)
  | signed (entry : Entry)
  | disconnected (origin : String) (network : Network)

structure Background where
  storage : Stored
  writes : ℕ
  manager : TabManager
  log : List Event

namespace Background

variable (b : Background)

def add (events : List Event) : Background := { b with log := b.log ++ events }

/-- The manager goes on, and promises are settled. -/
def settle (r : TabManager × List Settlement) : Background :=
  { b with manager := r.1, log := b.log ++ r.2.map .settled }

/-- What a read of the storage gives. -/
def readStorage (x : Reply) : Stored :=
  match x with
  | .succeeds _ => b.storage
  | _ => none

end Background

/-! ## Approvals -/

section Approvals

variable (i : ℕ) (entry : Entry) (b : Background)

def finish (payload : Option ResponsePayload) : Task × Background :=
  (.done i, (b.settle (b.manager.finishResolving entry.id payload)).add [.finished i])

def finishInternal (x : Reply) (message : String) : Task × Background :=
  finish i entry b (some (.error .internal (x.message message)))

/-- `entry.resolve(payload)` -/
def resolveEntry (payload : ResponsePayload) : Background :=
  b.add [.settled ⟨entry.promise, payload, .resolved entry.id⟩]

def CONNECT_GRANT_CAPABILITIES : List Capability := [.connect, .view_address, .sign]

def pairCall (params : PairParams) : StateCall :=
  .setPairedWallet
    { address := params.address
      network := params.network
      rpcUrl := params.rpcUrl
      keyId := params.keyId
      walletWasmHash := params.walletWasmHash
      webAppOrigin := some entry.origin }

def connectCall (wallet : PairedWallet) (now : String) : StateCall :=
  .addGrant
    { origin := entry.origin
      accountId := wallet.address
      network := wallet.network
      capabilities := CONNECT_GRANT_CAPABILITIES
      grantedAt := now }

/-- `handleResolvePending`, up to its first await. -/
def handleResolvePending (id : String) (approved : Bool) : Task × Background :=
  match b.manager.startResolving id with
  | none => (.done i, b)
  | some (entry, manager) =>
    let b := { b with manager := manager }
    if approved then
      match entry.request with
      | .pair params => (.calling i (.pair entry) (pairCall entry params), b.add [.approved i entry])
      | _ => (.resolving i entry .loading, b.add [.approved i entry])
    else finish i entry b (some (.error .rejected "The user declined the request"))

/-- The wallet is loaded. -/
def resolveLoaded (x : Reply) : Task × Background :=
  match (loadState (b.readStorage x)).pairedWallet with
  | none => finish i entry b (some (.error .disconnected "No wallet is paired"))
  | some wallet =>
    match entry.request with
    | .connect _ =>
      let now := match x with
        | .succeeds now => now
        | _ => ""
      (.calling i (.connect entry wallet) (connectCall entry wallet now), b)
    | .sign_transaction _ _ | .sign_auth_entry _ _ | .sign_message _ _ => (.resolving i entry (.keying wallet), b)
    | request =>
      finish i entry b (some (.error .internal ("Unexpected approval for " ++ request.method.text)))

def signedPayload (request : ProviderRequest) (text : String) : ResponsePayload :=
  match request with
  | .sign_auth_entry _ _ => .sign_auth_entry text
  | .sign_message _ _ => .sign_message text
  | _ => .sign_transaction text

/-- The stages of an approval, each an await. -/
def resolveStage (stage : Stage) (x : Reply) : Task × Background :=
  match stage, x with
  | .loading, x => resolveLoaded i entry b x
  | .ensuring, .succeeds _ => (.resolving i entry .exporting, b)
  | .ensuring, x => finishInternal i entry b x "Pairing failed"
  | .exporting, .succeeds hex => finish i entry (resolveEntry entry b (.pair hex)) none
  | .exporting, x => finishInternal i entry b x "Pairing failed"
  | .keying wallet, .succeeds _ =>
    if entry.request.method = .sign_message then (.resolving i entry (.signing wallet), b)
    else (.resolving i entry (.hexing wallet), b)
  | .keying _, .absent => finish i entry b (some (.error .disconnected "No device signer — re-pair the extension"))
  | .keying _, x => finishInternal i entry b x "Signing failed"
  | .hexing wallet, .succeeds _ => (.resolving i entry (.signing wallet), b)
  | .hexing _, x => finishInternal i entry b x "Signing failed"
  | .signing _, .succeeds text =>
    finish i entry (b.add [.signed entry]) (some (signedPayload entry.request text))
  | .signing wallet, .more => (.resolving i entry (.signing wallet), b.add [.signed entry])
  | .signing _, x => finishInternal i entry b x "Signing failed"

end Approvals

/-! ## Calls of the stored state -/

section Calls

variable (i : ℕ) (caller : Caller) (b : Background)

def limitMessage : String :=
  "This wallet already has " ++ MAX_PAIRED_ORIGINS.repr ++ " paired dApp origins, the maximum allowed. " ++
    "Unpair (revoke) an origin you no longer use before connecting a new one."

/-- The call has returned. -/
def afterCall : Task × Background :=
  match caller with
  | .disconnect origin network => (.done i, b.add [.settled ⟨i, .disconnect, .answered⟩, .disconnected origin network])
  | .revocation => (.done i, b)
  | .pair entry => (.resolving i entry .ensuring, b)
  -- Not taken out of the requests in flight.
  | .connect entry wallet => (.done i, (resolveEntry entry b (.connect wallet.address wallet.network)).add [.finished i])

/-- The call has thrown `PairedOriginLimitError`. -/
def refusedCall : Task × Background :=
  match caller with
  | .connect entry _ =>
    (.done i, (resolveEntry entry b (.error .paired_origin_limit_reached limitMessage)).add [.finished i])
  | .disconnect _ _ => (.done i, b.add [.threw i])
  | .revocation => (.done i, b)
  | .pair entry => finish i entry b (some (.error .internal limitMessage))

/-- The write of the call has failed. -/
def failedCall (x : Reply) : Task × Background :=
  match caller with
  | .disconnect _ _ => (.done i, b.add [.threw i])
  | .revocation => (.done i, b)
  | .pair entry => finishInternal i entry b x "Pairing failed"
  -- `throw err`: the page is not answered.
  | .connect _ _ => (.done i, b.add [.finished i])

def callRead (call : StateCall) (x : Reply) : Task × Background :=
  match call.effect (loadState (b.readStorage x)) with
  | .writes raw => (.writing i caller call raw b.writes, b)
  | .keeps => afterCall i caller b
  | .refuses => refusedCall i caller b

def callWrite (raw : Stored) (x : Reply) : Task × Background :=
  match x with
  | .succeeds _ => afterCall i caller { b with storage := raw, writes := b.writes + 1 }
  | x => failedCall i caller b x

end Calls

/-! ## Provider requests -/

section Requests

variable (urls : Urls) (pairOrigins : PairOriginPolicy) (names : Names)

/-- `sender.origin ?? (sender.url ? new URL(sender.url).origin : undefined)`; none where the URL does not parse. -/
def senderOrigin (sender : Sender) : Option (Option String) :=
  match sender.origin with
  | some origin => some (some origin)
  | none =>
    match sender.url.filter (· ≠ "") with
    | none => some none
    | some url => (urls.parse url).map fun url => some url.origin

/-- The origin of a page. -/
def pageOrigin (sender : Sender) : Option String :=
  ((senderOrigin urls sender).getD none).filter fun origin => origin ≠ "" ∧ sender.tab.isSome

/-- The request waits for approval. -/
def requestApproval (i : ℕ) (envelopeId : String) (request : ProviderRequest) (tabId : Option ℕ) (origin : String)
    (b : Background) : Task × Background :=
  match names with
  | .unbound => (.done i, b.add [.routed i, .threw i])
  | .bound =>
    let b := (b.add [.routed i]).settle (b.manager.supersede origin request)
    let entry : Entry := ⟨envelopeId, origin, request, tabId, i⟩
    (.opening i b.manager.approvalWindowId.isNone, { b with manager := b.manager.addPending entry }.add [.queued entry])

/-- `handleProviderRequest`, with its read of the state. -/
def handleProviderRequest (i : ℕ) (envelopeId : String) (request : ProviderRequest) (sender : Sender) (x : Reply)
    (b : Background) : Task × Background :=
  match senderOrigin urls sender, pageOrigin urls sender with
  | none, _ => (.done i, b.add [.threw i])
  | some _, none =>
    (.done i, b.add [.settled ⟨i, .error .invalid_request "Request did not come from a page context", .answered⟩])
  | some _, some origin =>
    let state := loadState (b.readStorage x)
    match routeProviderRequest urls request origin state pairOrigins with
    | .needsApproval normalized =>
      requestApproval names i envelopeId request (sender.tab.getD none) normalized b
    | .respond payload revoke =>
      match revoke, state.pairedWallet with
      | true, some wallet =>
        (.calling i (.disconnect ((normalizeOrigin urls origin).getD origin) wallet.network)
          (.revokeGrant origin wallet.network.text), b)
      | _, _ => (.done i, b.add [.settled ⟨i, payload, .answered⟩])

/-- `openApprovalWindow`, at its awaits. -/
def openApprovalWindow (i : ℕ) (creating : Bool) (x : Reply) (b : Background) : Task × Background :=
  match creating, x with
  | false, .fails _ => (.opening i true, { b with manager := { b.manager with approvalWindowId := none } })
  | false, _ => (.done i, b)
  | true, .window id => (.done i, { b with manager := { b.manager with approvalWindowId := id } })
  | true, _ => (.done i, b)

def beginJob (i : ℕ) (job : Job) (x : Reply) (b : Background) : Task × Background :=
  match job with
  | .providerRequest envelopeId request sender =>
    handleProviderRequest urls pairOrigins names i envelopeId request sender x b
  | .listPending => (.done i, b.add [.listed b.manager.listPending])
  | .resolvePending id approved => handleResolvePending i b id approved
  | .revoke origin network => (.calling i .revocation (.revokeGrant origin network), b)
  | .tabRemoved tabId => (.done i, b.settle (b.manager.handleTabRemoved tabId))
  | .windowRemoved windowId => (.done i, { b with manager := b.manager.handleWindowRemoved windowId })

/-- The next step of a task. -/
def runTask (x : Reply) (t : Task) (b : Background) : Task × Background :=
  match t with
  | .begun i job => beginJob urls pairOrigins names i job x b
  | .opening i creating => openApprovalWindow i creating x b
  | .calling i caller call => callRead i caller b call x
  | .writing i caller _ raw _ => callWrite i caller b raw x
  | .resolving i entry stage => resolveStage i entry b stage x
  | .done _ => (t, b)

end Requests

end Vellar.Extension
