import Vellar.Extension.TxSummary
import Vellar.Lib.Sha256

/-!
# Vellar.Extension.SigningDomains — what the device key can be made to sign

The three paths of `apps/extension/lib/tx-signer.ts` that sign with the device key.  `confined_iff`: a transaction is signed for the
wallet only, for a bounded time; a single auth entry when it is the wallet's; a message when its bytes are the payload of no entry.
-/

set_option autoImplicit false

namespace Vellar.Extension

open Effect Signer
open Wallet (addressCredentials)
open Wasm (Bytes utf8Bytes)

inductive SignRequest where
  | transaction (xdr : String)
  | authEntry (authEntry : String)
  | message (message : String)

section Domains

variable {R : Type}

/-- How an approved request is carried out. -/
def Signer.carryOut (s : Signer R) (wallet : PairedWallet) : SignRequest → Effect SignError (List Signature) String
  | .transaction xdr => s.signTransactionXdr wallet xdr
  | .authEntry authEntry => s.signAuthEntryXdr wallet authEntry
  | .message message => s.signMessageBytes message

/-- What is hashed for an entry: network, nonce, expiration and invocation. -/
abbrev Preimage := Network → AuthEntry → ℕ → Bytes

/-- The kit has the hash signed, of whatever entry with an address it is given. -/
def KitSigns (preimage : Preimage) (s : Signer R) : Prop :=
  ∀ (wallet : PairedWallet) (entry : AuthEntry) (expiration : ℕ), (addressCredentials entry.credentials).isSome = true →
    s.kit.payload wallet entry expiration = some (Sha256.sha256 (preimage wallet.network entry expiration))

/-- The expiration is at most 60 ledgers after that of the trusted RPC. -/
def Signer.Bounded (s : Signer R) (wallet : PairedWallet) (expiration : ℕ) : Prop :=
  ∃ (url : String) (anchorLedger : ℚ), resolveTrustedRpcUrl wallet.network s.mainnetRpcUrl = .ok url ∧
    s.getTrustedLatestLedger url = some anchorLedger ∧ (expiration : ℚ) ≤ anchorLedger + 60

/-- The payload of an entry of the wallet, for a bounded time. -/
def Signer.ForWallet (s : Signer R) (preimage : Preimage) (wallet : PairedWallet) : Signature → Prop
  | .auth entry expiration payload =>
    Subject wallet entry ∧ payload = Sha256.sha256 (preimage wallet.network entry expiration) ∧ s.Bounded wallet expiration
  | .message _ => False

/-- The bytes are what is signed for some entry. -/
def AuthPayload (preimage : Preimage) (bytes : Bytes) : Prop :=
  ∃ (network : Network) (entry : AuthEntry) (expiration : ℕ), (addressCredentials entry.credentials).isSome = true ∧
    bytes = Sha256.sha256 (preimage network entry expiration)

structure Confined (sdk : Sdk R) (preimage : Preimage) (wallet : PairedWallet) (request : SignRequest) : Prop where
  /-- Also where the request fails. -/
  auth : ∀ s : Signer R, s.sdk = sdk → KitSigns preimage s → (∀ message, request ≠ .message message) →
    ∀ x ∈ (s.carryOut wallet request).after [], s.ForWallet preimage wallet x
  /-- All entries of the wallet are signed, at least one, and nothing else changes. -/
  transaction : ∀ s : Signer R, s.sdk = sdk → KitSigns preimage s → ∀ xdr, request = .transaction xdr → ∀ signed log,
    Returns (s.carryOut wallet request) [] signed log → ∃ expiration tx operations operations',
      sdk.fromXDR xdr (networkPassphrase wallet.network) = some tx ∧ tx.operations = some operations ∧
      List.Forall₂ (s.ReplacesAuth wallet expiration) operations operations' ∧
      signed = sdk.toXDR { tx with operations := some operations' } ∧ subjects wallet (operations.flatMap Operation.entries) ≠ []
  message : ∀ s : Signer R, s.sdk = sdk → KitSigns preimage s → ∀ message, request = .message message →
    ∀ x ∈ (s.carryOut wallet request).after [], ¬ AuthPayload preimage x.bytes

/-- The condition for it: on a single entry that it is the wallet's, on a message that it is no payload. -/
def Separated (sdk : Sdk R) (preimage : Preimage) (wallet : PairedWallet) : SignRequest → Prop
  | .transaction _ => True
  | .authEntry authEntry => ∀ entry, sdk.entryFromXDR authEntry = some entry → Subject wallet entry
  | .message message => ¬ AuthPayload preimage (utf8Bytes message)

variable {s : Signer R} {sdk : Sdk R} {preimage : Preimage} {wallet : PairedWallet} {entry : AuthEntry} {expiration : ℕ}

theorem bounded_of_ok {anchorLedger : ℚ} (h : boundedExpirationLedger anchorLedger = .ok expiration) : (expiration : ℚ) ≤ anchorLedger + 60 := by
  unfold boundedExpirationLedger at h
  split at h
  · next hanchor =>
    obtain ⟨hden, hnonneg⟩ := hanchor
    have hle : expiration ≤ anchorLedger.num.toNat + 60 := Except.ok.inj h ▸ min_le_left _ _
    have hnum : ((anchorLedger.num.toNat : ℕ) : ℚ) = anchorLedger := by
      have htoNat : ((anchorLedger.num.toNat : ℕ) : ℤ) = anchorLedger.num := Int.toNat_of_nonneg (Rat.num_nonneg.mpr hnonneg)
      calc ((anchorLedger.num.toNat : ℕ) : ℚ) = (anchorLedger.num : ℚ) := by exact_mod_cast htoNat
        _ = anchorLedger := Rat.coe_int_num_of_den_eq_one hden
    calc (expiration : ℚ) ≤ (anchorLedger.num.toNat + 60 : ℕ) := by exact_mod_cast hle
      _ = anchorLedger + 60 := by push_cast; rw [hnum]
  · cases h

theorem bounded_of_attach (h : s.attach wallet = .ok expiration) : s.Bounded wallet expiration := by
  unfold attach at h
  split at h
  · cases h
  · split at h
    · unfold expirationLedger at h
      cases hurl : resolveTrustedRpcUrl wallet.network s.mainnetRpcUrl with
      | error e =>
        rw [hurl] at h
        cases h
      | ok url =>
        rw [hurl] at h
        cases hledger : s.getTrustedLatestLedger url with
        | none =>
          simp only [Except.bind, bind, hledger] at h
          cases h
        | some anchorLedger =>
          simp only [Except.bind, bind, hledger] at h
          exact ⟨url, anchorLedger, hurl, hledger, bounded_of_ok h⟩
    · cases h

theorem isSome_of_subject (h : Subject wallet entry) : (addressCredentials entry.credentials).isSome = true := by
  unfold Subject at h
  cases hc : addressCredentials entry.credentials with
  | none =>
    rw [hc] at h
    cases h
  | some c => rfl

theorem forWallet_of_subject (hkit : KitSigns preimage s) (hattach : s.attach wallet = .ok expiration) (hsubject : Subject wallet entry)
    {payload : Bytes} (hpayload : s.kit.payload wallet entry expiration = some payload) :
    s.ForWallet preimage wallet (.auth entry expiration payload) := by
  refine ⟨hsubject, ?_, bounded_of_attach hattach⟩
  rw [hkit wallet entry expiration (isSome_of_subject hsubject)] at hpayload
  exact (Option.some.inj hpayload).symm

/-- **A transaction is signed for the wallet only**. -/
theorem transaction_forWallet (hkit : KitSigns preimage s) (xdr : String) :
    ∀ x ∈ (s.signTransactionXdr wallet xdr).after [], s.ForWallet preimage wallet x := by
  have hkeeps : Keeps (fun log => ∀ x ∈ log, s.ForWallet preimage wallet x) (s.signTransactionXdr wallet xdr) :=
    keeps_signTransactionXdr fun _ _ _ hattach _ _ _ _ _ _ hsubject _ hpayload => forWallet_of_subject hkit hattach hsubject hpayload
  exact hkeeps [] fun _ hx => absurd hx List.not_mem_nil

theorem returns_signTransactionXdr {xdr signed : String} {log log' : List Signature}
    (h : Returns (s.signTransactionXdr wallet xdr) log signed log') : ∃ expiration tx operations operations',
      s.sdk.fromXDR xdr (networkPassphrase wallet.network) = some tx ∧ tx.operations = some operations ∧
      List.Forall₂ (s.ReplacesAuth wallet expiration) operations operations' ∧
      signed = s.sdk.toXDR { tx with operations := some operations' } ∧ subjects wallet (operations.flatMap Operation.entries) ≠ [] := by
  unfold signTransactionXdr at h
  simp only [returns_bind, returns_ofExcept, returns_ofOption] at h
  obtain ⟨expiration, _, ⟨-, rfl⟩, tx, _, ⟨htx, rfl⟩, operations, _, ⟨hops, rfl⟩, ⟨signedAny, operations'⟩, _, hrun, h⟩ := h
  obtain ⟨hall, hany, -⟩ := returns_signOperations hrun
  cases hsigned : signedAny with
  | false =>
    rw [hsigned] at h
    exact absurd h returns_throw
  | true =>
    rw [hsigned] at h hany
    obtain ⟨rfl, -⟩ := returns_pure.mp h
    refine ⟨expiration, tx, operations, operations', htx, hops, hall, rfl, fun hnone => ?_⟩
    rw [hnone] at hany
    cases hany

theorem after_signAuthEntryXdr {authEntry : String} {x : Signature} (hx : x ∈ (s.signAuthEntryXdr wallet authEntry).after []) :
    ∃ entry expiration payload, x = .auth entry expiration payload ∧ s.attach wallet = .ok expiration ∧
      s.sdk.entryFromXDR authEntry = some entry ∧ s.kit.payload wallet entry expiration = some payload := by
  let P : Signature → Prop := fun x => ∃ entry expiration payload, x = .auth entry expiration payload ∧ s.attach wallet = .ok expiration ∧
    s.sdk.entryFromXDR authEntry = some entry ∧ s.kit.payload wallet entry expiration = some payload
  have hkeeps : Keeps (fun log => ∀ x ∈ log, P x) (s.signAuthEntryXdr wallet authEntry) := by
    unfold signAuthEntryXdr
    refine keeps_ofExcept.bind_of fun expiration hattach => keeps_ofOption.bind_of fun entry hentry => ?_
    obtain ⟨_, _, hattach⟩ := hattach
    obtain ⟨_, _, hentry⟩ := hentry
    refine (keeps_kitSignAuthEntry fun payload hpayload => ?_).bind fun _ => keeps_pure
    exact ⟨entry, expiration, payload, rfl, (returns_ofExcept.mp hattach).1, (returns_ofOption.mp hentry).1, hpayload⟩
  exact hkeeps [] (fun _ hx => absurd hx List.not_mem_nil) x hx

theorem after_signMessageBytes {message : String} {x : Signature} (hx : x ∈ (s.signMessageBytes message).after []) :
    x = .message (utf8Bytes message) := by
  have hkeeps : Keeps (fun log => ∀ x ∈ log, x = .message (utf8Bytes message)) (s.signMessageBytes message) :=
    Keeps.bind (keeps_ofOption.bind fun _ => (keeps_tell (P := fun x => x = Signature.message (utf8Bytes message)) rfl).bind fun _ => keeps_pure)
      fun _ => keeps_pure
  exact hkeeps [] (fun _ hx => absurd hx List.not_mem_nil) x hx

/-- A signer that nothing fails, with the kit's payloads. -/
def hashing (sdk : Sdk R) (preimage : Preimage) : Signer R :=
  { willing sdk with
    kit := { (willing sdk).kit with payload := fun wallet entry expiration => some (Sha256.sha256 (preimage wallet.network entry expiration)) } }

theorem kitSigns_hashing : KitSigns preimage (hashing sdk preimage) := fun _ _ _ _ => rfl

theorem attach_hashing : (hashing sdk preimage).attach wallet = .ok 60 := @attach_willing R sdk wallet

/-- **When the device key is confined to its domains.** -/
theorem confined_iff (sdk : Sdk R) (preimage : Preimage) (wallet : PairedWallet) (request : SignRequest) :
    Confined sdk preimage wallet request ↔ Separated sdk preimage wallet request := by
  constructor
  · intro h
    cases request with
    | transaction xdr => trivial
    | authEntry authEntry =>
      intro entry hentry
      have hreturns : Returns ((hashing sdk preimage).signAuthEntryXdr wallet authEntry) [] (sdk.entryToXDR entry)
          [.auth entry 60 (Sha256.sha256 (preimage wallet.network entry 60))] := by
        refine returns_bind.mpr ⟨60, [], returns_ofExcept.mpr ⟨attach_hashing, rfl⟩, returns_bind.mpr ⟨entry, [],
          returns_ofOption.mpr ⟨hentry, rfl⟩, returns_bind.mpr ⟨entry, _, returns_kitSignAuthEntry.mpr ⟨_, ?_, rfl⟩, returns_pure.mpr ⟨rfl, rfl⟩⟩⟩⟩
        exact ⟨_, _, rfl, rfl, rfl, rfl⟩
      have hwallet := h.auth (hashing sdk preimage) rfl kitSigns_hashing (fun _ => nofun) _ (hreturns.after_eq ▸ List.mem_cons_self)
      exact hwallet.1
    | message message =>
      exact h.message (hashing sdk preimage) rfl kitSigns_hashing message rfl (.message (utf8Bytes message)) List.mem_cons_self
  · intro h
    refine ⟨?_, ?_, ?_⟩
    · rintro s rfl hkit hmessage x hx
      cases request with
      | transaction xdr => exact transaction_forWallet hkit xdr x hx
      | authEntry authEntry =>
        obtain ⟨entry, expiration, payload, rfl, hattach, hentry, hpayload⟩ := after_signAuthEntryXdr hx
        exact forWallet_of_subject hkit hattach (h entry hentry) hpayload
      | message message => exact absurd rfl (hmessage message)
    · rintro s rfl - xdr rfl signed log hreturns
      exact returns_signTransactionXdr hreturns
    · rintro s rfl - message rfl x hx
      obtain rfl := after_signMessageBytes hx
      exact h

end Domains

namespace Foreign

/-- An entry that another contract must authorize. -/
def entry : AuthEntry :=
  { credentials := .addressV2 { address := Swap.router, nonce := 1, signatureExpirationLedger := 0 }
    rootInvocation := .node (some Swap.swapCall) [] }

def sdk : Sdk Unit := { Swap.sdk with entryFromXDR := fun _ => some entry }

def preimage : Preimage := fun network _ expiration => utf8Bytes (networkPassphrase network ++ toString expiration)

end Foreign

/-- The entry of another contract is signed. -/
theorem foreign_entry_signed : ¬ Confined Foreign.sdk Foreign.preimage Swap.wallet (.authEntry "AAAAAQAAAAE=") := by
  intro h
  have hlog : ((hashing Foreign.sdk Foreign.preimage).carryOut Swap.wallet (.authEntry "AAAAAQAAAAE=")).after [] =
      [.auth Foreign.entry 60 (Sha256.sha256 (Foreign.preimage .testnet Foreign.entry 60))] := rfl
  have hwallet := h.auth (hashing Foreign.sdk Foreign.preimage) rfl kitSigns_hashing (fun _ => nofun) _ (hlog ▸ List.mem_cons_self)
  exact absurd hwallet.1 (by decide)

end Vellar.Extension
