import Vellar.Extension.Router
import Vellar.Lib.Json

/-!
# Vellar.Extension.Wire — the messages between a page and the extension

The schemas of `packages/provider-sdk/src/protocol.ts`, as readers of a message that may be anything.  `wire_faithful`: whatever is
read is valid and reads the same again when it is written back, every valid value is read as it was written, and no message is both
a request and a response.
-/

set_option autoImplicit false

namespace Vellar.Extension.Wire

open Json

/-! ## Fields -/

/-- `z.string().url()`: the text of a URL as the schema passes it on. -/
structure UrlSchema where
  read : String → Option String
  read_read : ∀ s t, read s = some t → read t = some t

/-- `z.string().min(1)` -/
def text : Option Json → Option String
  | some (.str s) => if s = "" then none else some s
  | _ => none

def anyText : Option Json → Option String
  | some (.str s) => some s
  | _ => none

/-- `z.string().regex(/^[0-9a-f]{64}$/)` -/
def isHex64 (s : String) : Bool := s.toList.length = 64 && s.toList.all fun c => ('0' ≤ c && c ≤ '9') || ('a' ≤ c && c ≤ 'f')

def hex64 : Option Json → Option String
  | some (.str s) => if isHex64 s then some s else none
  | _ => none

def url (U : UrlSchema) : Option Json → Option String
  | some (.str s) => U.read s
  | _ => none

def flag : Option Json → Option Bool
  | some (.bool b) => some b
  | _ => none

/-- `z.object`, of which the keys are read one by one; others are dropped. -/
def object : Option Json → Option Json
  | some (.obj fields) => some (.obj fields)
  | _ => none

/-- `.optional()` -/
def optional {α : Type} (read : Option Json → Option α) : Option Json → Option (Option α)
  | none => some none
  | some v => (read (some v)).map some

/-- A text of a list of texts, told by what it stands for. -/
def oneOf {α : Type} (all : List α) (name : α → String) : Option Json → Option α
  | some (.str s) => all.find? fun a => name a = s
  | _ => none

def literal (s : String) : Option Json → Option Unit
  | some (.str t) => if t = s then some () else none
  | _ => none

def networkSchema : Option Json → Option Network := oneOf [.testnet, .mainnet] Network.text

/-! ## Requests -/

def methods : List ProviderMethod :=
  [.connect, .sign_transaction, .get_address, .disconnect, .pair, .pair_status, .sign_auth_entry, .sign_message, .get_network]

section Requests

variable (U : UrlSchema)

/-- The `params` of a request. -/
def readParams (method : ProviderMethod) (params : Json) : Option ProviderRequest :=
  match method with
  | .connect => do
    let network ← networkSchema (params.get? "network")
    pure (.connect network)
  | .sign_transaction => do
    let xdr ← text (params.get? "xdr")
    let network ← networkSchema (params.get? "network")
    pure (.sign_transaction xdr network)
  | .get_address => do
    let network ← networkSchema (params.get? "network")
    pure (.get_address network)
  | .disconnect => pure .disconnect
  | .pair => do
    let address ← text (params.get? "address")
    let network ← networkSchema (params.get? "network")
    let rpcUrl ← url U (params.get? "rpcUrl")
    let keyId ← text (params.get? "keyId")
    let walletWasmHash ← hex64 (params.get? "walletWasmHash")
    pure (.pair ⟨address, network, rpcUrl, keyId, walletWasmHash⟩)
  | .pair_status => do
    let address ← text (params.get? "address")
    let network ← networkSchema (params.get? "network")
    pure (.pair_status address network)
  | .sign_auth_entry => do
    let authEntry ← text (params.get? "authEntry")
    let network ← networkSchema (params.get? "network")
    pure (.sign_auth_entry authEntry network)
  | .sign_message => do
    let message ← text (params.get? "message")
    let network ← networkSchema (params.get? "network")
    pure (.sign_message message network)
  | .get_network => pure .get_network

/-- The params of `get_network` may be left out. -/
def paramsOf (method : ProviderMethod) (params : Option Json) : Option Json :=
  if method = .get_network ∧ params.isNone then some (.obj []) else object params

def providerRequestSchema (v : Option Json) : Option ProviderRequest := do
  let request ← object v
  let method ← oneOf methods ProviderMethod.text (request.get? "method")
  let params ← paramsOf method (request.get? "params")
  readParams U method params

end Requests

def paramsJson : ProviderRequest → List (String × Json)
  | .connect network | .get_address network => [("network", .str network.text)]
  | .sign_transaction xdr network => [("xdr", .str xdr), ("network", .str network.text)]
  | .disconnect | .get_network => []
  | .pair params =>
    [("address", .str params.address), ("network", .str params.network.text), ("rpcUrl", .str params.rpcUrl),
      ("keyId", .str params.keyId), ("walletWasmHash", .str params.walletWasmHash)]
  | .pair_status address network => [("address", .str address), ("network", .str network.text)]
  | .sign_auth_entry authEntry network => [("authEntry", .str authEntry), ("network", .str network.text)]
  | .sign_message message network => [("message", .str message), ("network", .str network.text)]

def requestJson (request : ProviderRequest) : Json :=
  .obj [("method", .str request.method.text), ("params", .obj (paramsJson request))]

/-! ## Responses -/

inductive ProviderResult where
  | connect (address : String) (network : Network)
  | sign_transaction (signedXdr : String) (signedTxXdr signerAddress : Option String)
  | get_address (address : String) (network : Network)
  | disconnect
  | pair (devicePublicKeyHex : String)
  | pair_status (paired : Bool)
  | sign_auth_entry (signedAuthEntry : String) (signerAddress : Option String)
  | sign_message (signedMessage : String) (signerAddress : Option String)
  | get_network (network networkPassphrase : String)
deriving DecidableEq

def ProviderResult.method : ProviderResult → ProviderMethod
  | .connect _ _ => .connect
  | .sign_transaction _ _ _ => .sign_transaction
  | .get_address _ _ => .get_address
  | .disconnect => .disconnect
  | .pair _ => .pair
  | .pair_status _ => .pair_status
  | .sign_auth_entry _ _ => .sign_auth_entry
  | .sign_message _ _ => .sign_message
  | .get_network _ _ => .get_network

inductive Payload where
  | result (result : ProviderResult)
  | error (code : ProviderErrorCode) (message : String)
deriving DecidableEq

def errorCodeText : ProviderErrorCode → String
  | .rejected => "rejected"
  | .unauthorized => "unauthorized"
  | .disconnected => "disconnected"
  | .invalid_request => "invalid_request"
  | .internal => "internal"
  | .paired_origin_limit_reached => "paired_origin_limit_reached"

def providerErrorCodeSchema : Option Json → Option ProviderErrorCode :=
  oneOf [.rejected, .unauthorized, .disconnected, .invalid_request, .internal, .paired_origin_limit_reached] errorCodeText

/-- The `result` of a response. -/
def readResult (method : ProviderMethod) (result : Json) : Option ProviderResult :=
  match method with
  | .connect => do
    let address ← text (result.get? "address")
    let network ← networkSchema (result.get? "network")
    pure (.connect address network)
  | .sign_transaction => do
    let signedXdr ← text (result.get? "signedXdr")
    let signedTxXdr ← optional text (result.get? "signedTxXdr")
    let signerAddress ← optional anyText (result.get? "signerAddress")
    pure (.sign_transaction signedXdr signedTxXdr signerAddress)
  | .get_address => do
    let address ← text (result.get? "address")
    let network ← networkSchema (result.get? "network")
    pure (.get_address address network)
  | .disconnect => pure .disconnect
  | .pair => do
    let devicePublicKeyHex ← hex64 (result.get? "devicePublicKeyHex")
    pure (.pair devicePublicKeyHex)
  | .pair_status => do
    let paired ← flag (result.get? "paired")
    pure (.pair_status paired)
  | .sign_auth_entry => do
    let signedAuthEntry ← text (result.get? "signedAuthEntry")
    let signerAddress ← optional anyText (result.get? "signerAddress")
    pure (.sign_auth_entry signedAuthEntry signerAddress)
  | .sign_message => do
    let signedMessage ← text (result.get? "signedMessage")
    let signerAddress ← optional anyText (result.get? "signerAddress")
    pure (.sign_message signedMessage signerAddress)
  | .get_network => do
    let network ← text (result.get? "network")
    let networkPassphrase ← text (result.get? "networkPassphrase")
    pure (.get_network network networkPassphrase)

def providerResultSchema (v : Option Json) : Option ProviderResult := do
  let response ← object v
  let method ← oneOf methods ProviderMethod.text (response.get? "method")
  let result ← object (response.get? "result")
  readResult method result

def providerErrorSchema (v : Option Json) : Option (ProviderErrorCode × String) := do
  let response ← object v
  let error ← object (response.get? "error")
  let code ← providerErrorCodeSchema (error.get? "code")
  let message ← anyText (error.get? "message")
  pure (code, message)

/-- A result, or else an error. -/
def payloadSchema (v : Option Json) : Option Payload :=
  match providerResultSchema v with
  | some result => some (.result result)
  | none => (providerErrorSchema v).map fun e => .error e.1 e.2

def optionalField (key : String) (value : Option String) : List (String × Json) := (value.map fun s => (key, Json.str s)).toList

def resultFields : ProviderResult → List (String × Json)
  | .connect address network | .get_address address network => [("address", .str address), ("network", .str network.text)]
  | .sign_transaction signedXdr signedTxXdr signerAddress =>
    ("signedXdr", .str signedXdr) :: (optionalField "signedTxXdr" signedTxXdr ++ optionalField "signerAddress" signerAddress)
  | .disconnect => []
  | .pair devicePublicKeyHex => [("devicePublicKeyHex", .str devicePublicKeyHex)]
  | .pair_status paired => [("paired", .bool paired)]
  | .sign_auth_entry signedAuthEntry signerAddress =>
    ("signedAuthEntry", .str signedAuthEntry) :: optionalField "signerAddress" signerAddress
  | .sign_message signedMessage signerAddress =>
    ("signedMessage", .str signedMessage) :: optionalField "signerAddress" signerAddress
  | .get_network network networkPassphrase => [("network", .str network), ("networkPassphrase", .str networkPassphrase)]

def payloadJson : Payload → Json
  | .result result => .obj [("method", .str result.method.text), ("result", .obj (resultFields result))]
  | .error code message => .obj [("error", .obj [("code", .str (errorCodeText code)), ("message", .str message)])]

/-! ## Envelopes -/

def PROVIDER_CHANNEL : String := "vela-provider"

def PROTOCOL_VERSION : ℤ := 1

/-- `z.number().int().default(PROTOCOL_VERSION)` -/
def version : Option Json → Option ℤ
  | none => some PROTOCOL_VERSION
  | some (.num q) => if q.isInt ∧ |q.num| < 2 ^ 53 then some q.num else none
  | some _ => none

structure RequestEnvelope where
  id : String
  version : ℤ
  request : ProviderRequest
deriving DecidableEq

structure ResponseEnvelope where
  id : String
  version : ℤ
  payload : Payload
deriving DecidableEq

def parseRequestEnvelope (U : UrlSchema) (data : Json) : Option RequestEnvelope := do
  let envelope ← object (some data)
  literal PROVIDER_CHANNEL (envelope.get? "channel")
  literal "request" (envelope.get? "kind")
  let id ← text (envelope.get? "id")
  let version ← version (envelope.get? "version")
  let request ← providerRequestSchema U (envelope.get? "request")
  pure ⟨id, version, request⟩

def parseResponseEnvelope (data : Json) : Option ResponseEnvelope := do
  let envelope ← object (some data)
  literal PROVIDER_CHANNEL (envelope.get? "channel")
  literal "response" (envelope.get? "kind")
  let id ← text (envelope.get? "id")
  let version ← version (envelope.get? "version")
  let payload ← payloadSchema (envelope.get? "payload")
  pure ⟨id, version, payload⟩

/-- `requestEnvelope`, without a version. -/
def requestEnvelope (id : String) (request : ProviderRequest) : Json :=
  .obj [("channel", .str PROVIDER_CHANNEL), ("kind", .str "request"), ("id", .str id), ("request", requestJson request)]

/-- `responseEnvelope`, of a payload that may be undefined. -/
def responseEnvelope (id : String) (payload : Option Json) : Json :=
  .obj ([("channel", .str PROVIDER_CHANNEL), ("kind", .str "response"), ("id", .str id)] ++
    (payload.map fun payload => ("payload", payload)).toList)

/-- An envelope as it is passed on once it is parsed. -/
def RequestEnvelope.json (e : RequestEnvelope) : Json :=
  .obj [("channel", .str PROVIDER_CHANNEL), ("kind", .str "request"), ("id", .str e.id), ("version", .num e.version),
    ("request", requestJson e.request)]

def ResponseEnvelope.json (e : ResponseEnvelope) : Json :=
  .obj [("channel", .str PROVIDER_CHANNEL), ("kind", .str "response"), ("id", .str e.id), ("version", .num e.version),
    ("payload", payloadJson e.payload)]

/-! ## What is valid -/

/-- The request has what its schema asks for. -/
def ValidRequest (U : UrlSchema) : ProviderRequest → Prop
  | .connect _ | .get_address _ | .disconnect | .get_network => True
  | .sign_transaction s _ | .pair_status s _ | .sign_auth_entry s _ | .sign_message s _ => s ≠ ""
  | .pair params =>
    params.address ≠ "" ∧ U.read params.rpcUrl = some params.rpcUrl ∧ params.keyId ≠ "" ∧ isHex64 params.walletWasmHash = true

def ValidPayload : Payload → Prop
  | .error _ _ => True
  | .result result =>
    match result with
    | .connect s _ | .get_address s _ | .sign_auth_entry s _ | .sign_message s _ => s ≠ ""
    | .sign_transaction s signedTxXdr _ => s ≠ "" ∧ signedTxXdr ≠ some ""
    | .disconnect | .pair_status _ => True
    | .pair s => isHex64 s = true
    | .get_network s t => s ≠ "" ∧ t ≠ ""

/-- An integer that a number holds exactly. -/
def SafeInteger (n : ℤ) : Prop := |n| < 2 ^ 53

structure Faithful (U : UrlSchema) : Prop where
  request_valid : ∀ data e, parseRequestEnvelope U data = some e → e.id ≠ "" ∧ SafeInteger e.version ∧ ValidRequest U e.request
  request_kept : ∀ e : RequestEnvelope, e.id ≠ "" → SafeInteger e.version → ValidRequest U e.request →
    parseRequestEnvelope U e.json = some e
  response_valid : ∀ data e, parseResponseEnvelope data = some e → e.id ≠ "" ∧ SafeInteger e.version ∧ ValidPayload e.payload
  response_kept : ∀ e : ResponseEnvelope, e.id ≠ "" → SafeInteger e.version → ValidPayload e.payload →
    parseResponseEnvelope e.json = some e
  /-- What the providers and the bridge send has the version of the protocol. -/
  sent : ∀ id request, parseRequestEnvelope U (requestEnvelope id request) =
    if id = "" then none else (providerRequestSchema U (some (requestJson request))).map fun request => ⟨id, PROTOCOL_VERSION, request⟩
  answered : ∀ id payload, parseResponseEnvelope (responseEnvelope id payload) =
    if id = "" then none else (payloadSchema payload).map fun payload => ⟨id, PROTOCOL_VERSION, payload⟩
  apart : ∀ data, parseRequestEnvelope U data = none ∨ parseResponseEnvelope data = none

/-! ## Reading fields -/

section Fields

variable {U : UrlSchema} {v : Option Json} {s : String}

theorem text_eq_some : text v = some s ↔ v = some (.str s) ∧ s ≠ "" := by
  unfold text
  split
  · next t =>
    by_cases ht : t = ""
    · simp only [if_pos ht, Option.some.injEq, Json.str.injEq, reduceCtorEq, false_iff]
      rintro ⟨rfl, hs⟩
      exact hs ht
    · simp only [if_neg ht, Option.some.injEq, Json.str.injEq]
      exact ⟨fun h => ⟨h, h ▸ ht⟩, fun h => h.1⟩
  · next hother =>
    constructor
    · intro h
      cases h
    · intro h
      exact absurd h.1 (hother s)

@[simp] theorem text_str : text (some (.str s)) = if s = "" then none else some s := rfl

@[simp] theorem anyText_str : anyText (some (.str s)) = some s := rfl

@[simp] theorem hex64_str : hex64 (some (.str s)) = if isHex64 s then some s else none := rfl

@[simp] theorem url_str : url U (some (.str s)) = U.read s := rfl

@[simp] theorem flag_bool {b : Bool} : flag (some (.bool b)) = some b := rfl

@[simp] theorem object_obj {fields : List (String × Json)} : object (some (.obj fields)) = some (.obj fields) := rfl

@[simp] theorem literal_str {t : String} : literal s (some (.str t)) = if t = s then some () else none := rfl

@[simp] theorem get?_obj {fields : List (String × Json)} : (Json.obj fields).get? s = fields.lookup s := rfl

@[simp] theorem networkSchema_text (network : Network) : networkSchema (some (.str network.text)) = some network := by
  cases network <;> rfl

@[simp] theorem oneOf_methods (method : ProviderMethod) :
    oneOf methods ProviderMethod.text (some (.str method.text)) = some method := by
  cases method <;> rfl

@[simp] theorem providerErrorCodeSchema_text (code : ProviderErrorCode) :
    providerErrorCodeSchema (some (.str (errorCodeText code))) = some code := by
  cases code <;> rfl

theorem hex64_eq_some (h : hex64 v = some s) : isHex64 s = true := by
  unfold hex64 at h
  split at h
  · obtain ⟨hex, hs⟩ := Option.ite_none_right_eq_some.mp h
    exact Option.some.inj hs ▸ hex
  · cases h

theorem url_eq_some (h : url U v = some s) : U.read s = some s := by
  unfold url at h
  split at h
  · next t => exact U.read_read t s h
  · cases h

theorem ne_of_text (h : text v = some s) : s ≠ "" := (text_eq_some.mp h).2

theorem optional_text {t : Option String} (h : optional text v = some t) : t ≠ some "" := by
  unfold optional at h
  split at h
  · obtain rfl := Option.some.inj h
    simp
  · obtain ⟨s, hs, rfl⟩ := Option.map_eq_some_iff.mp h
    intro hempty
    exact ne_of_text hs (Option.some.inj hempty)

theorem literal_eq_some {a : Unit} (h : literal s v = some a) : v = some (.str s) := by
  unfold literal at h
  split at h
  · obtain ⟨rfl, -⟩ := Option.ite_none_right_eq_some.mp h
    rfl
  · cases h

theorem version_safe {n : ℤ} (h : version v = some n) : SafeInteger n := by
  unfold version at h
  split at h
  · obtain rfl := Option.some.inj h
    simp [SafeInteger, PROTOCOL_VERSION]
  · obtain ⟨⟨-, hsafe⟩, hn⟩ := Option.ite_none_right_eq_some.mp h
    exact Option.some.inj hn ▸ hsafe
  · cases h

theorem version_num {n : ℤ} (h : SafeInteger n) : version (some (.num n)) = some n := by
  have hint : (n : ℚ).isInt = true := by simp [Rat.isInt]
  show (if (n : ℚ).isInt = true ∧ |(n : ℚ).num| < 2 ^ 53 then some (n : ℚ).num else none) = some n
  rw [if_pos ⟨hint, by simpa [SafeInteger] using h⟩, Rat.num_intCast]

end Fields

/-! ## Requests and responses -/

section Messages

variable {U : UrlSchema}

theorem readParams_valid {method : ProviderMethod} {params : Json} {request : ProviderRequest}
    (h : readParams U method params = some request) : ValidRequest U request := by
  cases method <;> simp only [readParams, Option.bind_eq_bind, Option.bind_eq_some_iff, Option.pure_def, Option.some.injEq] at h
  case connect | get_address =>
    obtain ⟨network, -, rfl⟩ := h
    trivial
  case disconnect | get_network =>
    subst h
    trivial
  case sign_transaction | pair_status | sign_auth_entry | sign_message =>
    obtain ⟨s, hs, network, -, rfl⟩ := h
    exact ne_of_text hs
  case pair =>
    obtain ⟨address, haddress, network, -, rpcUrl, hurl, keyId, hkey, hash, hhash, rfl⟩ := h
    exact ⟨ne_of_text haddress, url_eq_some hurl, ne_of_text hkey, hex64_eq_some hhash⟩

theorem providerRequestSchema_valid {v : Option Json} {request : ProviderRequest}
    (h : providerRequestSchema U v = some request) : ValidRequest U request := by
  unfold providerRequestSchema at h
  simp only [Option.bind_eq_bind, Option.bind_eq_some_iff] at h
  obtain ⟨_, -, method, -, params, -, hparams⟩ := h
  exact readParams_valid hparams

/-- **A valid request** is read as it was written. -/
theorem providerRequestSchema_json {request : ProviderRequest} (h : ValidRequest U request) :
    providerRequestSchema U (some (requestJson request)) = some request := by
  have hparams : readParams U request.method (.obj (paramsJson request)) = some request := by
    cases request with
    | connect network | get_address network => simp [ProviderRequest.method, readParams, paramsJson, List.lookup]
    | disconnect | get_network => rfl
    | sign_transaction s network | pair_status s network | sign_auth_entry s network | sign_message s network =>
      have hs : s ≠ "" := h
      simp [ProviderRequest.method, readParams, paramsJson, List.lookup, hs]
    | pair params =>
      obtain ⟨haddress, hurl, hkey, hhash⟩ := h
      simp [ProviderRequest.method, readParams, paramsJson, List.lookup, haddress, hurl, hkey, hhash]
  have hobject : paramsOf request.method (some (.obj (paramsJson request))) = some (.obj (paramsJson request)) := by
    simp [paramsOf]
  simp [providerRequestSchema, requestJson, List.lookup, hobject, hparams]

theorem readResult_valid {method : ProviderMethod} {result : Json} {r : ProviderResult}
    (h : readResult method result = some r) : ValidPayload (.result r) := by
  cases method <;> simp only [readResult, Option.bind_eq_bind, Option.bind_eq_some_iff, Option.pure_def, Option.some.injEq] at h
  case connect | get_address =>
    obtain ⟨s, hs, network, -, rfl⟩ := h
    exact ne_of_text hs
  case sign_transaction =>
    obtain ⟨s, hs, signed, hsigned, signer, -, rfl⟩ := h
    exact ⟨ne_of_text hs, optional_text hsigned⟩
  case disconnect =>
    subst h
    trivial
  case pair =>
    obtain ⟨s, hs, rfl⟩ := h
    exact hex64_eq_some hs
  case pair_status =>
    obtain ⟨paired, -, rfl⟩ := h
    trivial
  case sign_auth_entry | sign_message =>
    obtain ⟨s, hs, signer, -, rfl⟩ := h
    exact ne_of_text hs
  case get_network =>
    obtain ⟨s, hs, t, ht, rfl⟩ := h
    exact ⟨ne_of_text hs, ne_of_text ht⟩

theorem payloadSchema_valid {v : Option Json} {payload : Payload} (h : payloadSchema v = some payload) : ValidPayload payload := by
  unfold payloadSchema at h
  split at h
  · next r hresult =>
    obtain rfl := Option.some.inj h
    unfold providerResultSchema at hresult
    simp only [Option.bind_eq_bind, Option.bind_eq_some_iff] at hresult
    obtain ⟨_, -, method, -, result, -, hr⟩ := hresult
    exact readResult_valid hr
  · obtain ⟨e, -, rfl⟩ := Option.map_eq_some_iff.mp h
    trivial

theorem lookup_optionalField (key : String) (value : Option String) :
    (optionalField key value).lookup key = value.map Json.str := by
  cases value <;> simp [optionalField]

theorem lookup_optionalField_other {key key' : String} (h : key' ≠ key) (value : Option String) :
    (optionalField key value).lookup key' = none := by
  cases value <;> simp [optionalField, h]

theorem optional_anyText (value : Option String) : optional anyText (value.map Json.str) = some value := by
  cases value <;> rfl

theorem optional_text_map {value : Option String} (h : value ≠ some "") : optional text (value.map Json.str) = some value := by
  cases value with
  | none => rfl
  | some s =>
    have hs : s ≠ "" := fun hempty => h (congrArg some hempty)
    simp [optional, hs]

/-- **A valid payload** is read as it was written. -/
theorem payloadSchema_json {payload : Payload} (h : ValidPayload payload) : payloadSchema (some (payloadJson payload)) = some payload := by
  cases payload with
  | error code message =>
    simp [payloadSchema, payloadJson, providerResultSchema, providerErrorSchema, List.lookup, oneOf]
  | result r =>
    have hresult : readResult r.method (.obj (resultFields r)) = some r := by
      cases r with
      | connect s network | get_address s network =>
        have hs : s ≠ "" := h
        simp [ProviderResult.method, readResult, resultFields, List.lookup, hs]
      | sign_transaction s signedTxXdr signerAddress =>
        obtain ⟨hs, hsigned⟩ := h
        have hfirst : (optionalField "signedTxXdr" signedTxXdr ++ optionalField "signerAddress" signerAddress).lookup "signedTxXdr" =
            signedTxXdr.map Json.str := by
          rw [List.lookup_append, lookup_optionalField, lookup_optionalField_other (by decide), Option.or_none]
        have hsecond : (optionalField "signedTxXdr" signedTxXdr ++ optionalField "signerAddress" signerAddress).lookup "signerAddress" =
            signerAddress.map Json.str := by
          rw [List.lookup_append, lookup_optionalField, lookup_optionalField_other (by decide), Option.none_or]
        simp [ProviderResult.method, readResult, resultFields, List.lookup, hs, hfirst, hsecond, optional_anyText,
          optional_text_map hsigned]
      | disconnect => rfl
      | pair s =>
        have hs : isHex64 s = true := h
        simp [ProviderResult.method, readResult, resultFields, List.lookup, hs]
      | pair_status paired => simp [ProviderResult.method, readResult, resultFields, List.lookup]
      | sign_auth_entry s signerAddress | sign_message s signerAddress =>
        have hs : s ≠ "" := h
        simp [ProviderResult.method, readResult, resultFields, List.lookup, hs, lookup_optionalField, optional_anyText]
      | get_network s t =>
        obtain ⟨hs, ht⟩ := h
        simp [ProviderResult.method, readResult, resultFields, List.lookup, hs, ht]
    simp [payloadSchema, payloadJson, providerResultSchema, List.lookup, hresult]

/-! ## Envelopes -/

theorem parseRequestEnvelope_valid {data : Json} {e : RequestEnvelope} (h : parseRequestEnvelope U data = some e) :
    e.id ≠ "" ∧ SafeInteger e.version ∧ ValidRequest U e.request := by
  unfold parseRequestEnvelope at h
  simp only [Option.bind_eq_bind, Option.bind_eq_some_iff, Option.pure_def, Option.some.injEq] at h
  obtain ⟨_, -, _, -, _, -, id, hid, version, hversion, request, hrequest, rfl⟩ := h
  exact ⟨ne_of_text hid, version_safe hversion, providerRequestSchema_valid hrequest⟩

theorem parseResponseEnvelope_valid {data : Json} {e : ResponseEnvelope} (h : parseResponseEnvelope data = some e) :
    e.id ≠ "" ∧ SafeInteger e.version ∧ ValidPayload e.payload := by
  unfold parseResponseEnvelope at h
  simp only [Option.bind_eq_bind, Option.bind_eq_some_iff, Option.pure_def, Option.some.injEq] at h
  obtain ⟨_, -, _, -, _, -, id, hid, version, hversion, payload, hpayload, rfl⟩ := h
  exact ⟨ne_of_text hid, version_safe hversion, payloadSchema_valid hpayload⟩

theorem parseRequestEnvelope_json {e : RequestEnvelope} (hid : e.id ≠ "") (hversion : SafeInteger e.version)
    (hrequest : ValidRequest U e.request) : parseRequestEnvelope U e.json = some e := by
  simp [parseRequestEnvelope, RequestEnvelope.json, List.lookup, hid, version_num hversion, providerRequestSchema_json hrequest]

theorem parseResponseEnvelope_json {e : ResponseEnvelope} (hid : e.id ≠ "") (hversion : SafeInteger e.version)
    (hpayload : ValidPayload e.payload) : parseResponseEnvelope e.json = some e := by
  simp [parseResponseEnvelope, ResponseEnvelope.json, List.lookup, hid, version_num hversion, payloadSchema_json hpayload]

theorem parseRequestEnvelope_requestEnvelope (id : String) (request : ProviderRequest) :
    parseRequestEnvelope U (requestEnvelope id request) =
      if id = "" then none
      else (providerRequestSchema U (some (requestJson request))).map fun request => ⟨id, PROTOCOL_VERSION, request⟩ := by
  by_cases hid : id = ""
  · simp [parseRequestEnvelope, requestEnvelope, List.lookup, hid]
  · simp [parseRequestEnvelope, requestEnvelope, List.lookup, hid, version, Option.map_eq_bind]

theorem parseResponseEnvelope_responseEnvelope (id : String) (payload : Option Json) :
    parseResponseEnvelope (responseEnvelope id payload) =
      if id = "" then none else (payloadSchema payload).map fun payload => ⟨id, PROTOCOL_VERSION, payload⟩ := by
  cases payload <;> by_cases hid : id = "" <;>
    simp [parseResponseEnvelope, responseEnvelope, List.lookup, hid, version, Option.map_eq_bind]

/-- No message has both kinds. -/
theorem parse_apart (data : Json) : parseRequestEnvelope U data = none ∨ parseResponseEnvelope data = none := by
  rw [or_iff_not_imp_left]
  intro hrequest
  obtain ⟨e, he⟩ := Option.ne_none_iff_exists'.mp hrequest
  by_contra hresponse
  obtain ⟨r, hr⟩ := Option.ne_none_iff_exists'.mp hresponse
  simp only [parseRequestEnvelope, parseResponseEnvelope, Option.bind_eq_bind, Option.bind_eq_some_iff] at he hr
  obtain ⟨fields, hfields, _, -, _, hkind, -⟩ := he
  obtain ⟨fields', hfields', _, -, _, hkind', -⟩ := hr
  obtain rfl := Option.some.inj (hfields.symm.trans hfields')
  have hsame := (literal_eq_some hkind).symm.trans (literal_eq_some hkind')
  simp at hsame

/-- **What a message is read as** is valid, a valid value is read as it was written, and a message is at most one of the two. -/
theorem wire_faithful (U : UrlSchema) : Faithful U where
  request_valid _ _ := parseRequestEnvelope_valid
  request_kept _ := parseRequestEnvelope_json
  response_valid _ _ := parseResponseEnvelope_valid
  response_kept _ := parseResponseEnvelope_json
  sent := parseRequestEnvelope_requestEnvelope
  answered := parseResponseEnvelope_responseEnvelope
  apart := parse_apart

end Messages

end Vellar.Extension.Wire
