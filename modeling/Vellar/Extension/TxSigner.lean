import Vellar.Extension.Router
import Vellar.Lib.Effect
import Vellar.Wallet.Submitters
import Vellar.Worker.JsText
import Vellar.Worker.WasmSections

/-!
# Vellar.Extension.TxSigner — signing with the device key

`apps/extension/lib/tx-signer.ts` and `signer-expiration.ts`.  The SDK, `passkey-kit`, the trusted RPC and the device key are
parameters; a call runs over the log of what the device key has signed.  `returns_signOperations` says what the signing loop
of `signTransactionXdr` makes of the operations and `keeps_signOperations` what it signs, also where it throws.
-/

set_option autoImplicit false

namespace Vellar.Extension

open Effect Soroban
open Wasm (Bytes utf8Bytes)
open Wallet (addressCredentials)
open Worker (trim truthy)

/-! ## Transactions -/

structure InvokeContractArgs where
  contractAddress : Address
  functionName : String
  args : List Val

inductive HostFunction where
  | invokeContract (call : InvokeContractArgs)
  | other

/-- A `SorobanAuthorizedInvocation`; no function where it authorizes the creation of a contract. -/
inductive Invocation where
  | node (function : Option InvokeContractArgs) (subInvocations : List Invocation)

/-- The call is the root of an invocation tree, or anywhere below. -/
inductive Contains (call : InvokeContractArgs) : Invocation → Prop where
  | root {subInvocations : List Invocation} : Contains call (.node (some call) subInvocations)
  | sub {function : Option InvokeContractArgs} {subInvocations : List Invocation} {invocation : Invocation}
      (hmem : invocation ∈ subInvocations) (h : Contains call invocation) : Contains call (.node function subInvocations)

abbrev AuthEntry := Wallet.Submitters.AuthEntry Invocation

inductive Operation where
  | invokeHostFunction (func : HostFunction) (auth : Option (List AuthEntry))
  | other (type : Option String)

def Operation.entries : Operation → List AuthEntry
  | .invokeHostFunction _ auth => auth.getD []
  | .other _ => []

/-- What `fromXDR` gives; without operations it is no transaction to sign. -/
structure Transaction (R : Type) where
  operations : Option (List Operation)
  rest : R

/-! ## What the signer is given -/

structure Sdk (R : Type) where
  /-- `TransactionBuilder.fromXDR`; none where it throws. -/
  fromXDR : String → String → Option (Transaction R)
  toXDR : Transaction R → String
  entryFromXDR : String → Option AuthEntry
  entryToXDR : AuthEntry → String
  toBase64 : Bytes → String
  /-- The text of `scValToNative`, of a value of no type named here; none where it throws or gives null. -/
  nativeText : List UInt8 → Option String

/-- Both tagged `Ed25519`. -/
structure DeviceSignature where
  key : Bytes
  value : Bytes

/-- A `PasskeyKit` made for the wallet. -/
structure Kit where
  /-- `contractId` after `connectWallet({ keyId })`; none where that throws. -/
  contractId : PairedWallet → Option (Option String)
  /-- What `signAuthEntry` has the signer sign; none where it throws before. -/
  payload : PairedWallet → AuthEntry → ℕ → Option Bytes
  /-- What `signAuthEntry` returns once it is signed; none where it throws after. -/
  finish : AuthEntry → ℕ → DeviceSignature → Option AuthEntry

structure Signer (R : Type) where
  sdk : Sdk R
  kit : Kit
  /-- `input.mainnetRpcUrl ?? configuredMainnetRpcUrl()` -/
  mainnetRpcUrl : Option String
  getTrustedLatestLedger : String → Option ℚ
  /-- `signWithDeviceKey`; none where it throws. -/
  deviceKey : Bytes → Option Bytes
  deviceRawPublicKey : Bytes

inductive SignError where
  | pairedWalletMismatch (expected : String) (actual : Option String)
  | trustedRpcUnavailable (network : Network)
  | anchor (anchorLedger : ℚ)
  | feeBump
  | noAuthEntries
  /-- By what the signer is given. -/
  | thrown

/-- What the device key has signed. -/
inductive Signature where
  | auth (entry : AuthEntry) (expiration : ℕ) (payload : Bytes)
  | message (bytes : Bytes)

def Signature.bytes : Signature → Bytes
  | .auth _ _ payload => payload
  | .message bytes => bytes

/-! ## The expiration -/

def MAX_EXPIRATION_LEDGERS : ℕ := 60

def U32_MAX : ℕ := 0xffffffff

def TESTNET_TRUSTED_RPC : String := "https://soroban-testnet.stellar.org"

def resolveTrustedRpcUrl (network : Network) (mainnetRpcUrl : Option String) : Except SignError String :=
  match network with
  | .testnet => .ok TESTNET_TRUSTED_RPC
  | .mainnet =>
    match truthy (mainnetRpcUrl.map trim) with
    | some configured => .ok configured
    | none => .error (.trustedRpcUnavailable network)

def boundedExpirationLedger (anchorLedger : ℚ) : Except SignError ℕ :=
  if anchorLedger.den = 1 ∧ 0 ≤ anchorLedger then .ok (min (anchorLedger.num.toNat + MAX_EXPIRATION_LEDGERS) U32_MAX)
  else .error (.anchor anchorLedger)

namespace Signer

variable {R : Type} (s : Signer R) (wallet : PairedWallet)

/-- The ledger of the trusted RPC, and the expiration it leads to. -/
def expirationLedger : Except SignError ℕ := do
  let trustedRpcUrl ← resolveTrustedRpcUrl wallet.network s.mainnetRpcUrl
  match s.getTrustedLatestLedger trustedRpcUrl with
  | none => .error .thrown
  | some anchorLedger => boundedExpirationLedger anchorLedger

/-- How both functions that sign for the wallet begin. -/
def attach : Except SignError ℕ :=
  match s.kit.contractId wallet with
  | none => .error .thrown
  | some contractId =>
    if contractId = some wallet.address then s.expirationLedger wallet
    else .error (.pairedWalletMismatch wallet.address contractId)

/-! ## Signing -/

def sign (x : Signature) : Effect SignError (List Signature) DeviceSignature := do
  let signature ← ofOption .thrown (s.deviceKey x.bytes)
  tell x
  pure ⟨s.deviceRawPublicKey, signature⟩

/-- `kit.signAuthEntry(entry, signer, { expiration })` -/
def kitSignAuthEntry (expiration : ℕ) (entry : AuthEntry) : Effect SignError (List Signature) AuthEntry := do
  let payload ← ofOption .thrown (s.kit.payload wallet entry expiration)
  let signature ← s.sign (.auth entry expiration payload)
  ofOption .thrown (s.kit.finish entry expiration signature)

/-- The address of an entry, in any variant of credentials that has one, is the wallet's. -/
def Subject (entry : AuthEntry) : Prop :=
  (addressCredentials entry.credentials).map (·.address.strkey) = some wallet.address

instance (entry : AuthEntry) : Decidable (Subject wallet entry) := inferInstanceAs (Decidable (_ = _))

/-- The inner loop, with `signedAny` as it stands. -/
def signEntries (expiration : ℕ) : Bool → List AuthEntry → Effect SignError (List Signature) (Bool × List AuthEntry)
  | signedAny, [] => pure (signedAny, [])
  | signedAny, entry :: entries =>
    if Subject wallet entry then do
      let signed ← s.kitSignAuthEntry wallet expiration entry
      let (signedAny, rest) ← signEntries expiration true entries
      pure (signedAny, signed :: rest)
    else do
      let (signedAny, rest) ← signEntries expiration signedAny entries
      pure (signedAny, entry :: rest)

def signOperation (expiration : ℕ) (signedAny : Bool) : Operation → Effect SignError (List Signature) (Bool × Operation)
  | .invokeHostFunction func (some auth) => do
    let (signedAny, auth) ← s.signEntries wallet expiration signedAny auth
    pure (signedAny, .invokeHostFunction func (some auth))
  | operation => pure (signedAny, operation)

def signOperations (expiration : ℕ) : Bool → List Operation → Effect SignError (List Signature) (Bool × List Operation)
  | signedAny, [] => pure (signedAny, [])
  | signedAny, operation :: operations => do
    let (signedAny, operation) ← s.signOperation wallet expiration signedAny operation
    let (signedAny, operations) ← signOperations expiration signedAny operations
    pure (signedAny, operation :: operations)

def signTransactionXdr (xdr : String) : Effect SignError (List Signature) String := do
  let expiration ← ofExcept (s.attach wallet)
  let tx ← ofOption .thrown (s.sdk.fromXDR xdr (networkPassphrase wallet.network))
  let operations ← ofOption .feeBump tx.operations
  let (signedAny, operations) ← s.signOperations wallet expiration false operations
  if signedAny then pure (s.sdk.toXDR { tx with operations := some operations }) else throw .noAuthEntries

def signAuthEntryXdr (authEntry : String) : Effect SignError (List Signature) String := do
  let expiration ← ofExcept (s.attach wallet)
  let entry ← ofOption .thrown (s.sdk.entryFromXDR authEntry)
  let signed ← s.kitSignAuthEntry wallet expiration entry
  pure (s.sdk.entryToXDR signed)

def signMessageBytes (message : String) : Effect SignError (List Signature) String := do
  let signature ← s.sign (.message (utf8Bytes message))
  pure (s.sdk.toBase64 signature.value)

/-! ## What the loop signs -/

/-- The kit makes `signed` of the entry, with the signature `x`. -/
def Signs (expiration : ℕ) (entry signed : AuthEntry) (x : Signature) : Prop :=
  ∃ payload value, s.kit.payload wallet entry expiration = some payload ∧ s.deviceKey payload = some value ∧
    s.kit.finish entry expiration ⟨s.deviceRawPublicKey, value⟩ = some signed ∧ x = .auth entry expiration payload

/-- An entry of the wallet is signed, any other stays. -/
def Replaces (expiration : ℕ) (entry entry' : AuthEntry) : Prop :=
  if Subject wallet entry then ∃ x, s.Signs wallet expiration entry entry' x else entry' = entry

/-- The operation with its entries signed, and nothing else changed. -/
def ReplacesAuth (expiration : ℕ) : Operation → Operation → Prop
  | .invokeHostFunction func (some auth), operation' =>
    ∃ auth', operation' = .invokeHostFunction func (some auth') ∧ List.Forall₂ (s.Replaces wallet expiration) auth auth'
  | operation, operation' => operation' = operation

/-- The wallet's entries, in the order they are signed. -/
def subjects (entries : List AuthEntry) : List AuthEntry := entries.filter fun entry => Subject wallet entry

end Signer

namespace Signer

variable {R : Type} {s : Signer R} {wallet : PairedWallet} {expiration : ℕ} {signedAny signedAny' : Bool}
  {log log' : List Signature} {entry entry' : AuthEntry} {entries entries' : List AuthEntry}
  {operation operation' : Operation} {operations operations' : List Operation}

theorem returns_kitSignAuthEntry : Returns (s.kitSignAuthEntry wallet expiration entry) log entry' log' ↔
    ∃ x, s.Signs wallet expiration entry entry' x ∧ log' = log ++ [x] := by
  unfold kitSignAuthEntry sign Signs
  simp only [returns_bind, returns_ofOption, returns_tell, returns_pure]
  constructor
  · rintro ⟨payload, _, ⟨hpayload, rfl⟩, _, _, ⟨value, _, ⟨hvalue, rfl⟩, _, _, rfl, rfl, rfl⟩, hsigned, rfl⟩
    exact ⟨_, ⟨payload, value, hpayload, hvalue, hsigned, rfl⟩, rfl⟩
  · rintro ⟨_, ⟨payload, value, hpayload, hvalue, hsigned, rfl⟩, rfl⟩
    exact ⟨payload, log, ⟨hpayload, rfl⟩, _, _, ⟨value, log, ⟨hvalue, rfl⟩, (), _, rfl, rfl, rfl⟩, hsigned, rfl⟩

theorem returns_signEntries (h : Returns (s.signEntries wallet expiration signedAny entries) log (signedAny', entries') log') :
    List.Forall₂ (s.Replaces wallet expiration) entries entries' ∧ signedAny' = (signedAny || !(subjects wallet entries).isEmpty) ∧
      ∃ xs, log' = log ++ xs ∧ List.Forall₂ (fun entry x => ∃ entry', s.Signs wallet expiration entry entry' x)
        (subjects wallet entries) xs := by
  induction entries generalizing signedAny entries' log with
  | nil =>
    rw [signEntries, returns_pure, Prod.mk.injEq] at h
    obtain ⟨⟨rfl, rfl⟩, rfl⟩ := h
    exact ⟨.nil, (Bool.or_false _).symm, [], (List.append_nil _).symm, .nil⟩
  | cons entry entries ih =>
    rw [signEntries] at h
    split at h
    · next hsubject =>
      have hsubjects : subjects wallet (entry :: entries) = entry :: subjects wallet entries := List.filter_cons_of_pos (decide_eq_true hsubject)
      simp only [returns_bind, returns_pure, returns_kitSignAuthEntry] at h
      obtain ⟨signed, _, ⟨x, hx, rfl⟩, ⟨_, rest⟩, _, hrest, heq, rfl⟩ := h
      obtain ⟨rfl, rfl⟩ := Prod.mk.inj heq
      obtain ⟨hall, hany, xs, rfl, hxs⟩ := ih hrest
      rw [hsubjects]
      refine ⟨.cons ?_ hall, by simp [hany], x :: xs, by simp, .cons ⟨signed, hx⟩ hxs⟩
      rw [Replaces, if_pos hsubject]
      exact ⟨x, hx⟩
    · next hsubject =>
      have hsubjects : subjects wallet (entry :: entries) = subjects wallet entries := List.filter_cons_of_neg (by simpa using hsubject)
      simp only [returns_bind, returns_pure] at h
      obtain ⟨⟨_, rest⟩, _, hrest, heq, rfl⟩ := h
      obtain ⟨rfl, rfl⟩ := Prod.mk.inj heq
      obtain ⟨hall, hany, hlog⟩ := ih hrest
      rw [hsubjects]
      refine ⟨.cons ?_ hall, hany, hlog⟩
      rw [Replaces, if_neg hsubject]

theorem returns_signOperation (h : Returns (s.signOperation wallet expiration signedAny operation) log (signedAny', operation') log') :
    s.ReplacesAuth wallet expiration operation operation' ∧
      signedAny' = (signedAny || !(subjects wallet operation.entries).isEmpty) ∧
      ∃ xs, log' = log ++ xs ∧ List.Forall₂ (fun entry x => ∃ entry', s.Signs wallet expiration entry entry' x)
        (subjects wallet operation.entries) xs := by
  unfold signOperation at h
  split at h
  · next func auth =>
    simp only [returns_bind, returns_pure] at h
    obtain ⟨⟨_, auth'⟩, _, hauth, heq, rfl⟩ := h
    obtain ⟨rfl, rfl⟩ := Prod.mk.inj heq
    obtain ⟨hall, hany, hlog⟩ := returns_signEntries hauth
    exact ⟨⟨auth', rfl, hall⟩, hany, hlog⟩
  · next hne =>
    rw [returns_pure, Prod.mk.injEq] at h
    obtain ⟨⟨rfl, rfl⟩, rfl⟩ := h
    have hnone : operation'.entries = [] ∧ s.ReplacesAuth wallet expiration operation' operation' := by
      rcases operation' with ⟨func, _ | auth⟩ | type
      · exact ⟨rfl, rfl⟩
      · exact absurd rfl (hne func auth)
      · exact ⟨rfl, rfl⟩
    rw [hnone.1]
    exact ⟨hnone.2, (Bool.or_false _).symm, [], (List.append_nil _).symm, .nil⟩

/-- **What the signing loop makes of the operations**: the wallet's entries signed, in order, and nothing else. -/
theorem returns_signOperations (h : Returns (s.signOperations wallet expiration signedAny operations) log (signedAny', operations') log') :
    List.Forall₂ (s.ReplacesAuth wallet expiration) operations operations' ∧
      signedAny' = (signedAny || !(subjects wallet (operations.flatMap Operation.entries)).isEmpty) ∧
      ∃ xs, log' = log ++ xs ∧ List.Forall₂ (fun entry x => ∃ entry', s.Signs wallet expiration entry entry' x)
        (subjects wallet (operations.flatMap Operation.entries)) xs := by
  induction operations generalizing signedAny operations' log with
  | nil =>
    rw [signOperations, returns_pure, Prod.mk.injEq] at h
    obtain ⟨⟨rfl, rfl⟩, rfl⟩ := h
    exact ⟨.nil, (Bool.or_false _).symm, [], (List.append_nil _).symm, .nil⟩
  | cons operation operations ih =>
    rw [signOperations] at h
    simp only [returns_bind, returns_pure] at h
    obtain ⟨⟨_, first⟩, _, hfirst, ⟨_, rest⟩, _, hrest, heq, rfl⟩ := h
    obtain ⟨rfl, rfl⟩ := Prod.mk.inj heq
    obtain ⟨hreplaces, rfl, xs, rfl, hxs⟩ := returns_signOperation hfirst
    obtain ⟨hall, hany, ys, rfl, hys⟩ := ih hrest
    have hsubjects : subjects wallet ((operation :: operations).flatMap Operation.entries)
        = subjects wallet operation.entries ++ subjects wallet (operations.flatMap Operation.entries) := by
      rw [List.flatMap_cons, subjects, List.filter_append]
      rfl
    rw [hsubjects]
    refine ⟨.cons hreplaces hall, ?_, xs ++ ys, List.append_assoc _ _ _, List.rel_append hxs hys⟩
    have happend : ∀ l₁ l₂ : List AuthEntry, (l₁ ++ l₂).isEmpty = (l₁.isEmpty && l₂.isEmpty) := by rintro (_ | _) _ <;> rfl
    rw [hany, Bool.or_assoc, happend, Bool.not_and]

/-! ## What is signed before a throw -/

section Log

variable {P : Signature → Prop}

theorem keeps_kitSignAuthEntry (h : ∀ payload, s.kit.payload wallet entry expiration = some payload → P (.auth entry expiration payload)) :
    Keeps (fun log => ∀ x ∈ log, P x) (s.kitSignAuthEntry wallet expiration entry) := by
  unfold kitSignAuthEntry sign
  refine keeps_ofOption.bind_of fun payload hpayload => ?_
  obtain ⟨_, _, hpayload⟩ := hpayload
  refine (keeps_ofOption.bind fun value => (keeps_tell ?_).bind fun _ => keeps_pure).bind fun _ => keeps_ofOption
  exact h payload (returns_ofOption.mp hpayload).1

theorem keeps_signEntries (h : ∀ entry ∈ entries, Subject wallet entry → ∀ payload, s.kit.payload wallet entry expiration = some payload →
    P (.auth entry expiration payload)) : Keeps (fun log => ∀ x ∈ log, P x) (s.signEntries wallet expiration signedAny entries) := by
  induction entries generalizing signedAny with
  | nil => exact keeps_pure
  | cons entry entries ih =>
    have hrest : ∀ signedAny, Keeps (fun log => ∀ x ∈ log, P x) (s.signEntries wallet expiration signedAny entries) :=
      fun _ => ih fun e he => h e (List.mem_cons_of_mem _ he)
    rw [signEntries]
    split
    · next hsubject =>
      exact (keeps_kitSignAuthEntry (h entry List.mem_cons_self hsubject)).bind fun _ => (hrest true).bind fun _ => keeps_pure
    · exact (hrest signedAny).bind fun _ => keeps_pure

theorem keeps_signOperations (h : ∀ operation ∈ operations, ∀ entry ∈ operation.entries, Subject wallet entry →
    ∀ payload, s.kit.payload wallet entry expiration = some payload → P (.auth entry expiration payload)) :
    Keeps (fun log => ∀ x ∈ log, P x) (s.signOperations wallet expiration signedAny operations) := by
  induction operations generalizing signedAny with
  | nil => exact keeps_pure
  | cons operation operations ih =>
    have hrest : ∀ signedAny, Keeps (fun log => ∀ x ∈ log, P x) (s.signOperations wallet expiration signedAny operations) :=
      fun _ => ih fun o ho => h o (List.mem_cons_of_mem _ ho)
    have hfirst := h operation List.mem_cons_self
    rw [signOperations]
    refine Keeps.bind ?_ fun _ => (hrest _).bind fun _ => keeps_pure
    unfold signOperation
    split
    · exact (keeps_signEntries hfirst).bind fun _ => keeps_pure
    · exact keeps_pure

/-- **What `signTransactionXdr` signs**, also where it throws. -/
theorem keeps_signTransactionXdr {xdr : String} (h : ∀ expiration tx operations, s.attach wallet = .ok expiration →
    s.sdk.fromXDR xdr (networkPassphrase wallet.network) = some tx → tx.operations = some operations →
    ∀ operation ∈ operations, ∀ entry ∈ operation.entries, Subject wallet entry →
    ∀ payload, s.kit.payload wallet entry expiration = some payload → P (.auth entry expiration payload)) :
    Keeps (fun log => ∀ x ∈ log, P x) (s.signTransactionXdr wallet xdr) := by
  unfold signTransactionXdr
  refine keeps_ofExcept.bind_of fun expiration hattach => keeps_ofOption.bind_of fun tx htx => keeps_ofOption.bind_of fun operations hops => ?_
  obtain ⟨_, _, hattach⟩ := hattach
  obtain ⟨_, _, htx⟩ := htx
  obtain ⟨_, _, hops⟩ := hops
  refine (keeps_signOperations (h expiration tx operations (returns_ofExcept.mp hattach).1 (returns_ofOption.mp htx).1
    (returns_ofOption.mp hops).1)).bind ?_
  rintro ⟨_ | _, signed⟩
  · exact keeps_throw
  · exact keeps_pure

end Log

/-! ## What is signed where nothing throws -/

theorem noThrow_signEntries (h : ∀ entry ∈ subjects wallet entries, ∃ entry' x, s.Signs wallet expiration entry entry' x) :
    NoThrow (s.signEntries wallet expiration signedAny entries) log := by
  induction entries generalizing signedAny log with
  | nil => exact ⟨_, _, returns_pure.mpr ⟨rfl, rfl⟩⟩
  | cons entry entries ih =>
    rw [signEntries]
    split
    · next hsubject =>
      have hsubjects : subjects wallet (entry :: entries) = entry :: subjects wallet entries := List.filter_cons_of_pos (decide_eq_true hsubject)
      rw [hsubjects] at h
      obtain ⟨signed, x, hx⟩ := h entry List.mem_cons_self
      obtain ⟨⟨any, rest⟩, log', hrest⟩ : NoThrow (s.signEntries wallet expiration true entries) (log ++ [x]) :=
        ih fun e he => h e (List.mem_cons_of_mem _ he)
      exact ⟨(any, signed :: rest), log', returns_bind.mpr ⟨signed, _, returns_kitSignAuthEntry.mpr ⟨x, hx, rfl⟩,
        returns_bind.mpr ⟨_, _, hrest, returns_pure.mpr ⟨rfl, rfl⟩⟩⟩⟩
    · next hsubject =>
      have hsubjects : subjects wallet (entry :: entries) = subjects wallet entries := List.filter_cons_of_neg (by simpa using hsubject)
      rw [hsubjects] at h
      obtain ⟨⟨any, rest⟩, log', hrest⟩ : NoThrow (s.signEntries wallet expiration signedAny entries) log := ih h
      exact ⟨(any, entry :: rest), log', returns_bind.mpr ⟨_, _, hrest, returns_pure.mpr ⟨rfl, rfl⟩⟩⟩

theorem noThrow_signOperations (h : ∀ entry ∈ subjects wallet (operations.flatMap Operation.entries), ∃ entry' x,
    s.Signs wallet expiration entry entry' x) : NoThrow (s.signOperations wallet expiration signedAny operations) log := by
  induction operations generalizing signedAny log with
  | nil => exact ⟨_, _, returns_pure.mpr ⟨rfl, rfl⟩⟩
  | cons operation operations ih =>
    rw [List.flatMap_cons, subjects, List.filter_append] at h
    have hfirst : NoThrow (s.signOperation wallet expiration signedAny operation) log := by
      unfold signOperation
      split
      · next func auth =>
        obtain ⟨a, log', hentries⟩ : NoThrow (s.signEntries wallet expiration signedAny auth) log :=
          noThrow_signEntries fun e he => h e (List.mem_append_left _ he)
        exact ⟨_, log', returns_bind.mpr ⟨a, log', hentries, returns_pure.mpr ⟨rfl, rfl⟩⟩⟩
      · exact ⟨_, _, returns_pure.mpr ⟨rfl, rfl⟩⟩
    obtain ⟨⟨any, first⟩, log', hfirst⟩ := hfirst
    obtain ⟨⟨any', rest⟩, log'', hrest⟩ : NoThrow (s.signOperations wallet expiration any operations) log' :=
      ih fun e he => h e (List.mem_append_right _ he)
    rw [signOperations]
    exact ⟨(any', first :: rest), log'', returns_bind.mpr ⟨_, _, hfirst, returns_bind.mpr ⟨_, _, hrest, returns_pure.mpr ⟨rfl, rfl⟩⟩⟩⟩

/-- **Every entry of the wallet is signed** where the kit signs them all. -/
theorem signs_all {xdr : String} {tx : Transaction R} (hattach : s.attach wallet = .ok expiration)
    (htx : s.sdk.fromXDR xdr (networkPassphrase wallet.network) = some tx) (hops : tx.operations = some operations)
    (hsigns : ∀ entry ∈ subjects wallet (operations.flatMap Operation.entries), ∃ entry' x, s.Signs wallet expiration entry entry' x)
    (hentry : entry ∈ subjects wallet (operations.flatMap Operation.entries)) :
    ∃ payload, .auth entry expiration payload ∈ (s.signTransactionXdr wallet xdr).after [] := by
  obtain ⟨⟨any, operations'⟩, log', hrun⟩ : NoThrow (s.signOperations wallet expiration false operations) [] := noThrow_signOperations hsigns
  obtain ⟨-, hany, xs, hlog, hxs⟩ := returns_signOperations hrun
  have hne : (subjects wallet (operations.flatMap Operation.entries)).isEmpty = false := List.isEmpty_eq_false_iff.mpr (List.ne_nil_of_mem hentry)
  rw [hne] at hany
  cases hany
  have hreturns : Returns (s.signTransactionXdr wallet xdr) [] (s.sdk.toXDR { tx with operations := some operations' }) log' := by
    unfold signTransactionXdr
    refine returns_bind.mpr ⟨expiration, [], returns_ofExcept.mpr ⟨hattach, rfl⟩, returns_bind.mpr ⟨tx, [], returns_ofOption.mpr ⟨htx, rfl⟩,
      returns_bind.mpr ⟨operations, [], returns_ofOption.mpr ⟨hops, rfl⟩, returns_bind.mpr ⟨_, _, hrun, ?_⟩⟩⟩⟩
    exact returns_pure.mpr ⟨rfl, rfl⟩
  rw [hreturns.after_eq, hlog, List.nil_append]
  obtain ⟨i, hi, rfl⟩ := List.mem_iff_getElem.mp hentry
  obtain ⟨entry', payload, -, -, -, -, hx⟩ := hxs.get hi (hxs.length_eq ▸ hi)
  exact ⟨payload, hx ▸ List.get_mem _ _⟩

end Signer

end Vellar.Extension
