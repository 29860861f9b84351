import Vellar.Policy.Deploy
import Vellar.ServiceKit.SpendBudget

/-!
# Vellar.Policy.VerifyAttach — the check of an attach transaction

`services/policy-service/src/verify-attach.ts`: a client's transaction hash is looked up, and the transaction must be
one `add_signer` or `update_signer` on the record's wallet whose arguments hold the policy contract.  Decoding an
envelope is the SDK's; an envelope is its operations, of a fee bump those of the inner transaction.  `acceptsAttaches_iff`:
the check takes the policy anywhere in the arguments for the signer.
-/

set_option autoImplicit false

namespace Vellar.Policy

open Soroban ServiceKit Checked

/-! ## Transactions -/

inductive HostFunction where
  | invokeContract (contractAddress : Address) (functionName : String) (args : List ScVal)
  /-- `invokeContract()` throws. -/
  | other

inductive Operation where
  | invokeHostFunction (func : HostFunction)
  | other

inductive TxStatus where
  | success
  | notFound
  | failed
deriving DecidableEq, Repr

structure TxResult where
  status : TxStatus
  envelopeXdr : Option String

/-- What a lookup comes to; `pending` when it does not settle before `timeoutMs`. -/
inductive TxAnswer where
  | result (r : TxResult)
  | threw (message : String)
  | pending

structure AttachTarget where
  txHash : String
  network : BudgetNetwork
  wallet : String
  policyContractId : String
deriving DecidableEq, Repr

structure VerifyAttachOptions where
  networkPassphrase : Option String
  timeoutMs : Option ℕ

/-- By their codes `attach_unconfirmed`, `attach_timeout` and `attach_mismatch`. -/
inductive AttachError where
  | unconfirmed (message : String)
  | timeout (message : String)
  | mismatch (message : String)

def TESTNET_PASSPHRASE : String := "Test SDF Network ; September 2015"

def ADD_POLICY_FNS : List String := ["add_signer", "update_signer"]

/-! ## The check -/

mutual

/-- `collectAddresses`: every address in a value, in order. -/
def collectAddresses : ScVal → List String
  | .address a => [a.strkey]
  | .vec items => collectItems items
  | .map entries => collectEntries entries
  | _ => []

def collectItems : List ScVal → List String
  | [] => []
  | v :: items => collectAddresses v ++ collectItems items

def collectEntries : List (ScVal × ScVal) → List String
  | [] => []
  | (k, v) :: entries => collectAddresses k ++ collectAddresses v ++ collectEntries entries

end

/-- The call of an envelope. -/
def attachCall (operations : List Operation) : Except AttachError (Address × String × List ScVal) :=
  match operations with
  | [.invokeHostFunction (.invokeContract contractAddress functionName args)] => .ok (contractAddress, functionName, args)
  | [.invokeHostFunction .other] => .error (.mismatch "Attach tx host function is not a contract invocation.")
  | [.other] => .error (.mismatch "Attach tx is not an invokeHostFunction.")
  | _ => .error (.mismatch "Attach tx must be a single invokeHostFunction operation.")

/-- The call must be an attach of the target's policy to its wallet. -/
def checkAttach (target : AttachTarget) (operations : List Operation) : Except AttachError Unit := do
  let (contractAddress, functionName, args) ← attachCall operations
  ensure (contractAddress.strkey = target.wallet)
    (.mismatch ("Attach tx invoked " ++ contractAddress.strkey ++ ", not the record's wallet " ++ target.wallet ++ "."))
  ensure (functionName ∈ ADD_POLICY_FNS)
    (.mismatch ("Attach tx called " ++ functionName ++ ", not add_signer/update_signer."))
  ensure (target.policyContractId ∈ collectItems args)
    (.mismatch ("Attach tx does not bind policy " ++ target.policyContractId ++ " (found: " ++
      (if collectItems args = [] then "none" else ", ".intercalate (collectItems args)) ++ ")."))

section Verify

variable (fromXDR : String → String → Except String (List Operation))

/-- What is made of a transaction that was looked up. -/
def checkResult (target : AttachTarget) (networkPassphrase : String) (res : TxResult) : Except AttachError Unit :=
  match res.status, res.envelopeXdr.filter (· ≠ "") with
  | .notFound, _ =>
    .error (.unconfirmed ("Attach tx " ++ target.txHash ++ " not found on the " ++ target.network.text ++ " network."))
  | .success, some envelopeXdr =>
    match fromXDR envelopeXdr networkPassphrase with
    | .ok operations => checkAttach target operations
    | .error message => .error (.mismatch ("Attach tx envelope could not be decoded: " ++ message))
  | _, _ => .error (.mismatch ("Attach tx " ++ target.txHash ++ " did not succeed on-chain."))

/-- `verifyAttachTx`; none while a lookup without a timeout has not settled. -/
def verifyAttachTx (answer : TxAnswer) (target : AttachTarget) (options : VerifyAttachOptions) :
    Option (Except AttachError Unit) :=
  match answer with
  | .result res => some (checkResult fromXDR target (options.networkPassphrase.getD TESTNET_PASSPHRASE) res)
  | .threw message =>
    some (.error (.unconfirmed ("Could not reach the network to verify the attach tx: " ++ message)))
  | .pending =>
    (options.timeoutMs.filter (0 < ·)).map fun timeoutMs =>
      .error (.timeout ("Attach verification timed out for tx " ++ target.txHash ++ " after " ++ timeoutMs.repr ++ "ms"))

variable {fromXDR} {target : AttachTarget} {options : VerifyAttachOptions}

theorem attachCall_ok {operations : List Operation} {contractAddress : Address} {functionName : String} {args : List ScVal} :
    attachCall operations = .ok (contractAddress, functionName, args) ↔
      operations = [.invokeHostFunction (.invokeContract contractAddress functionName args)] := by
  constructor
  · intro h
    unfold attachCall at h
    split at h
    · obtain ⟨rfl, rfl, rfl⟩ := Except.ok.inj h
      rfl
    all_goals cases h
  · rintro rfl
    rfl

theorem checkAttach_ok {operations : List Operation} :
    checkAttach target operations = .ok () ↔ ∃ contractAddress functionName args,
      operations = [.invokeHostFunction (.invokeContract contractAddress functionName args)] ∧
      contractAddress.strkey = target.wallet ∧ functionName ∈ ADD_POLICY_FNS ∧
      target.policyContractId ∈ collectItems args := by
  unfold checkAttach
  rw [bind_ok]
  constructor
  · rintro ⟨⟨contractAddress, functionName, args⟩, hcall, h⟩
    rw [check_bind_ok, check_bind_ok, ensure_ok, ensure_ok, ensure_ok] at h
    exact ⟨contractAddress, functionName, args, attachCall_ok.mp hcall, h⟩
  · rintro ⟨contractAddress, functionName, args, hcall, h⟩
    refine ⟨(contractAddress, functionName, args), attachCall_ok.mpr hcall, ?_⟩
    rw [check_bind_ok, check_bind_ok, ensure_ok, ensure_ok, ensure_ok]
    exact h

/-- **An attach that verifies is a call of an entrypoint for signers on the wallet** that succeeded on the network, with the
policy contract among the addresses of its arguments. -/
theorem verifyAttachTx_ok {answer : TxAnswer} :
    verifyAttachTx fromXDR answer target options = some (.ok ()) ↔
      ∃ envelopeXdr contractAddress functionName args, envelopeXdr ≠ "" ∧
        answer = .result ⟨.success, some envelopeXdr⟩ ∧
        fromXDR envelopeXdr (options.networkPassphrase.getD TESTNET_PASSPHRASE) =
          .ok [.invokeHostFunction (.invokeContract contractAddress functionName args)] ∧
        contractAddress.strkey = target.wallet ∧ functionName ∈ ADD_POLICY_FNS ∧
        target.policyContractId ∈ collectItems args := by
  constructor
  · intro h
    cases answer with
    | threw message => cases h
    | pending =>
      obtain ⟨timeoutMs, -, herror⟩ := Option.map_eq_some_iff.mp h
      cases herror
    | result res =>
      obtain ⟨status, envelope⟩ := res
      have hcheck := Option.some.inj h
      unfold checkResult at hcheck
      split at hcheck
      · cases hcheck
      · rename_i envelopeXdr hstatus henvelope
        obtain ⟨henvelope, hne⟩ := Option.filter_eq_some_iff.mp henvelope
        obtain rfl : status = .success := hstatus
        obtain rfl : envelope = some envelopeXdr := henvelope
        split at hcheck
        · rename_i operations hdecode
          obtain ⟨contractAddress, functionName, args, rfl, hrest⟩ := checkAttach_ok.mp hcheck
          exact ⟨envelopeXdr, contractAddress, functionName, args, by simpa using hne, rfl, hdecode, hrest⟩
        · cases hcheck
      · cases hcheck
  · rintro ⟨envelopeXdr, contractAddress, functionName, args, hne, rfl, hdecode, hrest⟩
    have hfilter : (some envelopeXdr).filter (· ≠ "") = some envelopeXdr := by simp [hne]
    simp only [verifyAttachTx, checkResult, hfilter, hdecode]
    exact congrArg some (checkAttach_ok.mpr ⟨contractAddress, functionName, args, rfl, hrest⟩)

end Verify

/-! ## Which transactions are attaches -/

/-- The variant `Policy` of the wallet's `Signer`, for this contract; the expiration, the limits and the storage follow. -/
def NamesPolicy (policyContractId : String) : ScVal → Prop
  | .vec (.symbol "Policy" :: .address a :: _) => a.strkey = policyContractId
  | _ => False

theorem mem_of_namesPolicy {policyContractId : String} {signer : ScVal} {args : List ScVal} (h : NamesPolicy policyContractId signer) :
    policyContractId ∈ collectItems (signer :: args) := by
  unfold NamesPolicy at h
  split at h
  · rw [← h]
    simp [collectItems, collectAddresses]
  · exact h.elim

/-- The lookup told nothing about the transaction. -/
def TxAnswer.Lost : TxAnswer → Prop
  | .result res => res.status = .notFound
  | .threw _ => True
  | .pending => True

def AttachError.Retryable : AttachError → Prop
  | .unconfirmed _ => True
  | .timeout _ => True
  | .mismatch _ => False

section Attaches

variable (fromXDR : String → String → Except String (List Operation)) (answer : TxAnswer) (target : AttachTarget)
  (options : VerifyAttachOptions)

/-- A transaction that succeeded is this one call of an entrypoint for signers on the wallet. -/
def CallsWallet (args : List ScVal) : Prop :=
  ∃ envelopeXdr contractAddress functionName, envelopeXdr ≠ "" ∧ answer = .result ⟨.success, some envelopeXdr⟩ ∧
    fromXDR envelopeXdr (options.networkPassphrase.getD TESTNET_PASSPHRASE) =
      .ok [.invokeHostFunction (.invokeContract contractAddress functionName args)] ∧
    contractAddress.strkey = target.wallet ∧ functionName ∈ ADD_POLICY_FNS

/-- The signer argument of the call is the policy. -/
def IsAttach : Prop :=
  ∃ signer rest, CallsWallet fromXDR answer target options (signer :: rest) ∧ NamesPolicy target.policyContractId signer

/-- Exactly attaches are accepted, and what is refused for good was looked up. -/
structure AcceptsAttaches : Prop where
  accepts : verifyAttachTx fromXDR answer target options = some (.ok ()) ↔ IsAttach fromXDR answer target options
  lost : answer.Lost → ∀ out, verifyAttachTx fromXDR answer target options = some out → ∃ e, out = .error e ∧ e.Retryable
  found : ¬ answer.Lost → ∀ e, verifyAttachTx fromXDR answer target options = some (.error e) → ¬ e.Retryable

variable {fromXDR answer target options}

theorem verifyAttachTx_iff_calls : verifyAttachTx fromXDR answer target options = some (.ok ()) ↔
    ∃ args, CallsWallet fromXDR answer target options args ∧ target.policyContractId ∈ collectItems args := by
  rw [verifyAttachTx_ok]
  constructor
  · rintro ⟨envelopeXdr, contractAddress, functionName, args, hne, hanswer, hdecode, hwallet, hfn, hmem⟩
    exact ⟨args, ⟨envelopeXdr, contractAddress, functionName, hne, hanswer, hdecode, hwallet, hfn⟩, hmem⟩
  · rintro ⟨args, ⟨envelopeXdr, contractAddress, functionName, hne, hanswer, hdecode, hwallet, hfn⟩, hmem⟩
    exact ⟨envelopeXdr, contractAddress, functionName, args, hne, hanswer, hdecode, hwallet, hfn, hmem⟩

/-- An answer decides the arguments. -/
theorem CallsWallet.unique {args args' : List ScVal} (h : CallsWallet fromXDR answer target options args)
    (h' : CallsWallet fromXDR answer target options args') : args = args' := by
  obtain ⟨envelopeXdr, _, _, -, rfl, hdecode, -⟩ := h
  obtain ⟨envelopeXdr', _, _, -, hanswer, hdecode', -⟩ := h'
  simp only [TxAnswer.result.injEq, TxResult.mk.injEq, Option.some.injEq, true_and] at hanswer
  rw [← hanswer, hdecode] at hdecode'
  simp only [Except.ok.injEq, List.cons.injEq, Operation.invokeHostFunction.injEq, HostFunction.invokeContract.injEq] at hdecode'
  exact hdecode'.1.2.2

theorem attachCall_error {operations : List Operation} {e : AttachError} (h : attachCall operations = .error e) : ¬ e.Retryable := by
  unfold attachCall at h
  split at h
  · cases h
  all_goals exact Except.error.inj h ▸ id

theorem checkAttach_error {operations : List Operation} {e : AttachError} (h : checkAttach target operations = .error e) :
    ¬ e.Retryable := by
  unfold checkAttach at h
  cases hcall : attachCall operations with
  | error e' =>
    rw [hcall] at h
    exact Except.error.inj h ▸ attachCall_error hcall
  | ok call =>
    obtain ⟨contractAddress, functionName, args⟩ := call
    rw [hcall] at h
    simp only [bind, Except.bind, ensure] at h
    split_ifs at h
    all_goals exact Except.error.inj h ▸ id

theorem verifyAttachTx_lost (hlost : answer.Lost) {out : Except AttachError Unit}
    (h : verifyAttachTx fromXDR answer target options = some out) : ∃ e, out = .error e ∧ e.Retryable := by
  cases answer with
  | threw message => exact ⟨_, (Option.some.inj h).symm, trivial⟩
  | pending =>
    obtain ⟨timeoutMs, -, rfl⟩ := Option.map_eq_some_iff.mp h
    exact ⟨_, rfl, trivial⟩
  | result res =>
    obtain ⟨status, envelope⟩ := res
    obtain rfl : status = .notFound := hlost
    exact ⟨_, (Option.some.inj h).symm, trivial⟩

theorem verifyAttachTx_found (hfound : ¬ answer.Lost) {e : AttachError}
    (h : verifyAttachTx fromXDR answer target options = some (.error e)) : ¬ e.Retryable := by
  cases answer with
  | threw message => exact absurd trivial hfound
  | pending => exact absurd trivial hfound
  | result res =>
    have hcheck := Option.some.inj h
    unfold checkResult at hcheck
    split at hcheck
    · rename_i hstatus
      exact absurd hstatus hfound
    · split at hcheck
      · exact checkAttach_error hcheck
      · exact Except.error.inj hcheck ▸ id
    · exact Except.error.inj hcheck ▸ id

/-- **The check is right** exactly when a policy that occurs in the arguments of such a call is the signer. -/
theorem acceptsAttaches_iff : AcceptsAttaches fromXDR answer target options ↔
    ∀ args, CallsWallet fromXDR answer target options args → target.policyContractId ∈ collectItems args →
      ∃ signer rest, args = signer :: rest ∧ NamesPolicy target.policyContractId signer := by
  constructor
  · intro h args hcalls hmem
    obtain ⟨signer, rest, hattach, hnames⟩ := h.accepts.mp (verifyAttachTx_iff_calls.mpr ⟨args, hcalls, hmem⟩)
    exact ⟨signer, rest, hcalls.unique hattach, hnames⟩
  · intro hsigner
    refine ⟨⟨fun h => ?_, fun h => ?_⟩, fun hlost out h => verifyAttachTx_lost hlost h, fun hfound e h => verifyAttachTx_found hfound h⟩
    · obtain ⟨args, hcalls, hmem⟩ := verifyAttachTx_iff_calls.mp h
      obtain ⟨signer, rest, rfl, hnames⟩ := hsigner args hcalls hmem
      exact ⟨signer, rest, hcalls, hnames⟩
    · obtain ⟨signer, rest, hcalls, hnames⟩ := h
      exact verifyAttachTx_iff_calls.mpr ⟨signer :: rest, hcalls, mem_of_namesPolicy hnames⟩

/-- A key for which a token is limited by the policy. -/
def limitedSigner : ScVal :=
  .vec [.symbol "Ed25519", .bytes [1], .void, .vec [.map [(.address ⟨"CTOKEN"⟩, .vec [.address ⟨"CPOLICY"⟩])]],
    .vec [.symbol "Persistent"]]

/-- Adding that key is taken for an attach of the policy. -/
theorem limits_accepted : ¬ AcceptsAttaches
    (fun _ _ => .ok [.invokeHostFunction (.invokeContract ⟨"CWALLET"⟩ "add_signer" [limitedSigner])])
    (.result ⟨.success, some "AAAA"⟩) ⟨"h", .testnet, "CWALLET", "CPOLICY"⟩ ⟨none, none⟩ := by
  intro h
  have hmem : "CPOLICY" ∈ collectItems [limitedSigner] := by
    simp [limitedSigner, collectItems, collectAddresses, collectEntries]
  obtain ⟨_, _, ⟨_, _, _, -, -, hdecode, -⟩, hnames⟩ := h.accepts.mp
    (verifyAttachTx_iff_calls.mpr ⟨[limitedSigner], ⟨"AAAA", ⟨"CWALLET"⟩, "add_signer", by decide, rfl, rfl, rfl, by decide⟩, hmem⟩)
  simp only [Except.ok.injEq, List.cons.injEq, Operation.invokeHostFunction.injEq, HostFunction.invokeContract.injEq] at hdecode
  obtain ⟨rfl, -⟩ := hdecode.1.2.2
  exact hnames

end Attaches

end Vellar.Policy
