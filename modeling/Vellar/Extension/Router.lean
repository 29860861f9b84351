import Vellar.Extension.State

/-!
# Vellar.Extension.Router — what is answered at once and what is approved

`packages/provider-sdk` (the requests, the payloads, `normalizeOrigin`, `hasCapability`) and `apps/extension/lib/router.ts`.
The URL parser is a parameter.
-/

set_option autoImplicit false

namespace Vellar.Extension

/-! ## Requests and payloads -/

inductive ProviderMethod where
  | connect
  | sign_transaction
  | get_address
  | disconnect
  | pair
  | pair_status
  | sign_auth_entry
  | sign_message
  | get_network
deriving DecidableEq, Repr

def ProviderMethod.text : ProviderMethod → String
  | .connect => "connect"
  | .sign_transaction => "sign_transaction"
  | .get_address => "get_address"
  | .disconnect => "disconnect"
  | .pair => "pair"
  | .pair_status => "pair_status"
  | .sign_auth_entry => "sign_auth_entry"
  | .sign_message => "sign_message"
  | .get_network => "get_network"

structure PairParams where
  address : String
  network : Network
  rpcUrl : String
  keyId : String
  walletWasmHash : String
deriving DecidableEq, Repr

inductive ProviderRequest where
  | connect (network : Network)
  | sign_transaction (xdr : String) (network : Network)
  | get_address (network : Network)
  | disconnect
  | pair (params : PairParams)
  | pair_status (address : String) (network : Network)
  | sign_auth_entry (authEntry : String) (network : Network)
  | sign_message (message : String) (network : Network)
  | get_network
deriving DecidableEq, Repr

def ProviderRequest.method : ProviderRequest → ProviderMethod
  | .connect _ => .connect
  | .sign_transaction _ _ => .sign_transaction
  | .get_address _ => .get_address
  | .disconnect => .disconnect
  | .pair _ => .pair
  | .pair_status _ _ => .pair_status
  | .sign_auth_entry _ _ => .sign_auth_entry
  | .sign_message _ _ => .sign_message
  | .get_network => .get_network

/-- `request.params.network`, where there is one. -/
def ProviderRequest.network? : ProviderRequest → Option Network
  | .connect network | .sign_transaction _ network | .get_address network | .pair_status _ network
  | .sign_auth_entry _ network | .sign_message _ network => some network
  | .pair params => some params.network
  | .disconnect | .get_network => none

inductive ProviderErrorCode where
  | rejected
  | unauthorized
  | disconnected
  | invalid_request
  | internal
  | paired_origin_limit_reached
deriving DecidableEq, Repr

inductive ResponsePayload where
  | error (code : ProviderErrorCode) (message : String)
  | connect (address : String) (network : Network)
  | sign_transaction (signedXdr : String)
  | get_address (address : String) (network : Network)
  | disconnect
  | pair (devicePublicKeyHex : String)
  | pair_status (paired : Bool)
  | sign_auth_entry (signedAuthEntry : String)
  | sign_message (signedMessage : String)
  | get_network (network : Network) (networkPassphrase : String)
deriving DecidableEq, Repr

/-! ## Origins -/

structure Url where
  protocol : String
  /-- The serialised origin. -/
  origin : String
  hostname : String

/-- What the runtime knows of URLs. -/
structure Urls where
  parse : String → Option Url
  /-- `url.hostname = hostname`, which changes the origin too. -/
  setHostname : Url → String → Url
  toLowerCase : String → String

def normalizeOrigin (urls : Urls) (value : String) : Option String :=
  match urls.parse value with
  | none => none
  | some url =>
    if url.protocol ≠ "https:" ∧ url.protocol ≠ "http:" then none
    else if url.origin = "null" then none
    else if urls.toLowerCase url.origin ≠ urls.toLowerCase value then none
    else if url.hostname.endsWith "." then some (urls.setHostname url (url.hostname.dropEnd 1).toString).origin
    else some url.origin

def hasCapability (grants : List PermissionGrant) (origin : String) (network : Network) (capability : Capability) : Bool :=
  grants.any fun g => g.origin = origin && g.network = network && g.capabilities.contains capability

inductive PairOriginPolicy where
  | any
  | allowed (origins : List String)

def isPairOriginAllowed (policy : PairOriginPolicy) (origin : String) : Bool :=
  match policy with
  | .any => true
  | .allowed origins => origins.contains origin

/-! ## The decision -/

inductive RouteDecision where
  | respond (payload : ResponsePayload) (revokeGrant : Bool)
  | needsApproval (origin : String)
deriving DecidableEq

def networkPassphrase : Network → String
  | .mainnet => "Public Global Stellar Network ; September 2015"
  | .testnet => "Test SDF Network ; September 2015"

/-- A request that needs a capability and a wallet. -/
def routeSign (state : ExtensionState) (wallet : PairedWallet) (origin : String) : RouteDecision :=
  if hasCapability state.grants origin wallet.network .sign then .needsApproval origin
  else .respond (.error .unauthorized "Connect first to request signing") false

/-- The wallet is paired, and on the network that was asked for. -/
def routePaired (request : ProviderRequest) (origin : String) (state : ExtensionState) (wallet : PairedWallet) :
    RouteDecision :=
  match request with
  | .connect _ =>
    if hasCapability state.grants origin wallet.network .connect then
      .respond (.connect wallet.address wallet.network) false
    else .needsApproval origin
  | .get_address _ =>
    if hasCapability state.grants origin wallet.network .view_address then
      .respond (.get_address wallet.address wallet.network) false
    else .respond (.error .unauthorized "Connect first to view the address") false
  | .sign_transaction _ _ | .sign_auth_entry _ _ | .sign_message _ _ => routeSign state wallet origin
  | .get_network => .respond (.get_network wallet.network (networkPassphrase wallet.network)) false
  | .disconnect => .respond .disconnect true
  -- Answered before a wallet is looked for.
  | .pair _ => .needsApproval origin
  | .pair_status _ _ => .respond (.pair_status false) false

/-- The network asked for, when it is checked, is the wallet's. -/
def OnNetwork (request : ProviderRequest) (wallet : PairedWallet) : Prop :=
  request.method = .disconnect ∨ request.method = .get_network ∨ ∀ network, request.network? = some network → network = wallet.network

instance (request : ProviderRequest) (wallet : PairedWallet) : Decidable (OnNetwork request wallet) :=
  inferInstanceAs (Decidable (_ ∨ _ ∨ _))

def routeProviderRequest (urls : Urls) (request : ProviderRequest) (rawOrigin : String) (state : ExtensionState)
    (pairOrigins : PairOriginPolicy) : RouteDecision :=
  match normalizeOrigin urls rawOrigin with
  | none => .respond (.error .invalid_request "Requests from this origin are not supported") false
  | some origin =>
    match request with
    | .pair _ =>
      if isPairOriginAllowed pairOrigins origin then .needsApproval origin
      else .respond (.error .unauthorized "This origin is not permitted to pair the Vellar extension") false
    | .pair_status address network =>
      .respond (.pair_status
        (decide (state.pairedWallet.map (·.address) = some address ∧ state.pairedWallet.map (·.network) = some network))) false
    | request =>
      match state.pairedWallet with
      | none => .respond (.error .disconnected "No wallet is paired. Open the Vellar web app to pair.") false
      | some wallet =>
        if OnNetwork request wallet then routePaired request origin state wallet
        else
          .respond (.error .disconnected ("The extension is paired on " ++ wallet.network.text ++ ", not " ++
            (request.network?.map Network.text).getD "undefined")) false

end Vellar.Extension
