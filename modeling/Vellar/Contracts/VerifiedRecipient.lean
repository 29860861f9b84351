import Vellar.Contracts.AttestationRegistry

/-!
# Vellar.Contracts.VerifiedRecipient — the verified-recipient policy

`contracts/policy-templates/verified-recipient/src/lib.rs`: constructor, `install`, `uninstall`,
`parse_context`, `check_provenance` and `policy__`.  Joined with the registry's runs at the end:
`policy_iff_provenance` says that the policy lets a list of contexts through exactly when each of them calls
code whose last registry write is a live upsert, by a trusted publisher where the mode asks for one.
-/

set_option autoImplicit false

namespace Vellar.VerifiedRecipient

open Checked Soroban Machine

inductive PolicyError where
  | notAllowed
  | notInstalled
  | stillInstalled
  | invalidConfig
  | wrongWallet
  | untrustedPublisher
  | contextMismatch
  | tooManyContexts
deriving DecidableEq, Repr

def MAX_CONTEXTS : ℕ := 16
def MAX_TRUSTED_PUBLISHERS : ℕ := 16

inductive ProvenanceMode where
  | strict
  | trustedPublishers (publishers : List (BytesN 32))
deriving DecidableEq

structure Config where
  wallet : Address
  registry : Address
  mode : ProvenanceMode
deriving DecidableEq

structure Storage where
  config : Option Config
  installed : Address → Bool

/-! ## The contract -/

/-- `__constructor`. -/
def constructor (wallet registry : Address) (mode : ProvenanceMode) : Except (Trap PolicyError) Storage := do
  match mode with
  | .trustedPublishers publishers =>
    require (¬ (publishers = [] ∨ publishers.length > MAX_TRUSTED_PUBLISHERS)) .invalidConfig
  | .strict => pure ()
  pure ⟨some ⟨wallet, registry, mode⟩, fun _ => false⟩

/-- `load_config`. -/
def loadConfig (s : Storage) : Except (Trap PolicyError) Config := orPanic s.config .notInstalled

def install (env : Env) (s : Storage) (wallet : Address) : Except (Trap PolicyError) Storage := do
  env.requireAuth wallet
  let config ← loadConfig s
  require (wallet = config.wallet) .wrongWallet
  pure { s with installed := Function.update s.installed wallet true }

/-- `uninstall`; `getSigner` is the wallet's answer, `none` when the cross-contract call traps. -/
def uninstall (s : Storage) (wallet : Address) (getSigner : Option Bool) :
    Except (Trap PolicyError) Storage := do
  let stillSigner ← orStop getSigner .host
  require (¬ stillSigner) .stillInstalled
  pure { s with installed := Function.update s.installed wallet false }

/-- `parse_context`: the contract the context invokes. -/
def parseContext (source : Address) : Context → Except (Trap PolicyError) Address
  | .contract c => do
    require (c.contract ≠ source) .notAllowed
    if c.fnName = "transfer" then
      require (c.args.length = 3) .notAllowed
      let fromAddr ← orPanic (c.args[0]?.bind Val.toAddress) .notAllowed
      require (fromAddr = source) .contextMismatch
    pure c.contract
  | _ => .error (.error .notAllowed)

section Policy

-- The registries deployed on the ledger, by address; a call to any other address traps.
variable (ledger : Address → Option AttestationRegistry.Storage)

/-- `check_provenance`. -/
def checkProvenance (env : Env) (config : Config) (contract : Address) :
    Except (Trap PolicyError) Unit := do
  let registry ← orStop (ledger config.registry) .host
  match config.mode with
  | .strict => require (AttestationRegistry.isVerified env registry contract = true) .notAllowed
  | .trustedPublishers trusted => do
    let publisher ← orPanic (AttestationRegistry.publisherOf env registry contract) .notAllowed
    require (publisher ∈ trusted) .untrustedPublisher

/-- `policy__`. -/
def policy (env : Env) (s : Storage) (source : Address) (_signer : SignerKey) (contexts : List Context) :
    Except (Trap PolicyError) Storage := do
  env.requireAuth source
  let config ← loadConfig s
  require (source = config.wallet) .wrongWallet
  require (s.installed source = true) .notInstalled
  require (contexts ≠ []) .notAllowed
  require (¬ contexts.length > MAX_CONTEXTS) .tooManyContexts
  forM contexts fun context => do
    let contract ← parseContext source context
    checkProvenance ledger env config contract
  pure s

end Policy

/-! ## One spec for each function -/

section Specs

variable {ledger : Address → Option AttestationRegistry.Storage} {env : Env} {source : Address}

theorem constructor_ok {wallet registry : Address} {mode : ProvenanceMode} {s : Storage} :
    constructor wallet registry mode = .ok s ↔
      (∀ publishers, mode = .trustedPublishers publishers →
        publishers ≠ [] ∧ publishers.length ≤ MAX_TRUSTED_PUBLISHERS) ∧
      s = ⟨some ⟨wallet, registry, mode⟩, fun _ => false⟩ := by
  unfold constructor
  cases mode with
  | strict => simp [pure_ok, @eq_comm _ _ s]
  | trustedPublishers publishers =>
    simp only [check_bind_ok, require_ok, pure_ok, not_or, not_lt, @eq_comm _ _ s, ProvenanceMode.trustedPublishers.injEq,
      forall_eq', ne_eq]

/-- A call of other code than the wallet, a transfer only with `from` the wallet. -/
def Permitted (source : Address) (context : Context) (contract : Address) : Prop :=
  ∃ c, context = .contract c ∧ c.contract = contract ∧ contract ≠ source ∧
    (c.fnName = "transfer" → c.args.length = 3 ∧ c.args[0]? = some (.address source))

theorem parseContext_ok {context : Context} {contract : Address} :
    parseContext source context = .ok contract ↔ Permitted source context contract := by
  unfold Permitted
  cases context with
  | contract c =>
    simp only [parseContext, Context.contract.injEq, exists_eq_left']
    by_cases hfn : c.fnName = "transfer"
    · simp only [if_pos hfn, bind_ok, require_ok, orPanic_ok, pure_ok, exists_const,
        Option.bind_eq_some_iff, Val.toAddress_some]
      constructor
      · rintro ⟨h1, h2, _, ⟨_, h3, rfl⟩, rfl, rfl⟩
        exact ⟨rfl, h1, fun _ => ⟨h2, h3⟩⟩
      · rintro ⟨rfl, h1, h⟩
        obtain ⟨h2, h3⟩ := h hfn
        exact ⟨h1, h2, source, ⟨_, h3, rfl⟩, rfl, rfl⟩
    · simp only [if_neg hfn, bind_ok, require_ok, pure_ok, exists_const]
      constructor
      · rintro ⟨h1, rfl⟩
        exact ⟨rfl, h1, fun h => absurd h hfn⟩
      · rintro ⟨rfl, h1, -⟩
        exact ⟨h1, rfl⟩
  | createContractHostFn => simp [parseContext]
  | createContractWithCtorHostFn => simp [parseContext]

/-- The attestation satisfies the mode. -/
def ModeAccepts : ProvenanceMode → AttestationRegistry.Attestation → Prop
  | .strict, _ => True
  | .trustedPublishers trusted, a => ∃ p ∈ trusted, a.publisher = some p

theorem checkProvenance_ok {config : Config} {contract : Address} {registry : AttestationRegistry.Storage}
    (hreg : ledger config.registry = some registry) {u : Unit} :
    checkProvenance ledger env config contract = .ok u ↔
      ∃ a, registry.attestation contract = some a ∧ env.sequence < a.expiresLedger ∧
        ModeAccepts config.mode a := by
  unfold checkProvenance
  rw [hreg]
  cases config.mode with
  | strict =>
    simp only [bind_ok, orStop_ok, Option.some.injEq, exists_eq_left', require_ok,
      AttestationRegistry.isVerified_iff, ModeAccepts, and_true]
  | trustedPublishers trusted =>
    simp only [bind_ok, orStop_ok, Option.some.injEq, exists_eq_left', require_ok, orPanic_ok,
      AttestationRegistry.publisherOf_some, ModeAccepts]
    constructor
    · rintro ⟨p, ⟨a, h1, h2, h3⟩, h4⟩
      exact ⟨a, h1, h2, p, h4, h3⟩
    · rintro ⟨a, h1, h2, p, h4, h3⟩
      exact ⟨p, ⟨a, h1, h2, h3⟩, h4⟩

theorem policy_ok {s s' : Storage} {signer : SignerKey} {contexts : List Context} :
    policy ledger env s source signer contexts = .ok s' ↔
      source ∈ env.auths ∧ ∃ config, s.config = some config ∧ source = config.wallet ∧
        s.installed source = true ∧ contexts ≠ [] ∧ contexts.length ≤ MAX_CONTEXTS ∧ s = s' ∧
        ∀ context ∈ contexts, ∃ contract, Permitted source context contract ∧
          checkProvenance ledger env config contract = .ok () := by
  unfold policy loadConfig
  simp only [bind_ok, requireAuth_ok, require_ok, orPanic_ok, pure_ok, exists_const, not_lt, forM_ok,
    parseContext_ok]
  simp only [and_comm (b := s = s')]

end Specs

/-! ## With the runs of the registry -/

/-- In the run of the registry deployed with `attestor`, the last successful write for `contract` is an
upsert, authorized by the attestor of its moment, still live at ledger `now`, within the lifetime bound of
its own ledger, and accepted by the mode. -/
def LastWriteAttests (attestor : Address) (writes : List AttestationRegistry.Call) (mode : ProvenanceMode)
    (now : ℕ) (contract : Address) : Prop :=
  ∃ s w a, AttestationRegistry.LastWrite (AttestationRegistry.constructor attestor) writes contract s w ∧
    w.record = some a ∧ AttestationRegistry.Authorized w.env s ∧ now < a.expiresLedger ∧
    a.expiresLedger ≤ w.env.sequence + AttestationRegistry.MAX_ATTESTATION_LEDGERS ∧ ModeAccepts mode a

theorem lastWriteAttests_iff {attestor : Address} {writes : List AttestationRegistry.Call}
    {mode : ProvenanceMode} {now : ℕ} {contract : Address} :
    LastWriteAttests attestor writes mode now contract ↔
      ∃ a, (run AttestationRegistry.step (AttestationRegistry.constructor attestor) writes).attestation
          contract = some a ∧ now < a.expiresLedger ∧ ModeAccepts mode a := by
  constructor
  · rintro ⟨s, w, a, hlast, hrec, hauth, hlive, hmax, hmode⟩
    refine ⟨a, ?_, hlive, hmode⟩
    obtain ⟨pre, post, -, -, ⟨-, s', hs'⟩, -⟩ := id hlast
    have hexp := (AttestationRegistry.exec_ok hs').2.1 a hrec
    exact AttestationRegistry.attestation_some_iff.mpr ⟨s, w, hlast, hrec, hauth, hexp⟩
  · rintro ⟨a, ha, hlive, hmode⟩
    obtain ⟨s, w, hlast, hrec, hauth, -, hmax⟩ := AttestationRegistry.attestation_some_iff.mp ha
    exact ⟨s, w, a, hlast, hrec, hauth, hlive, hmax, hmode⟩

/-- **Provenance gate**: for every run of the registry and every policy instance bound to it, `policy__`
succeeds exactly on the authenticated, bound and installed wallet's lists of 1 to `MAX_CONTEXTS` contexts,
each permitted and each calling a contract whose last registry write attests it. -/
theorem policy_iff_provenance {ledger : Address → Option AttestationRegistry.Storage} {attestor : Address}
    {writes : List AttestationRegistry.Call} {env : Env} {s s' : Storage} {config : Config} {source : Address}
    {signer : SignerKey} {contexts : List Context} (hcfg : s.config = some config)
    (hreg : ledger config.registry =
      some (run AttestationRegistry.step (AttestationRegistry.constructor attestor) writes)) :
    policy ledger env s source signer contexts = .ok s' ↔
      source ∈ env.auths ∧ source = config.wallet ∧ s.installed source = true ∧
        1 ≤ contexts.length ∧ contexts.length ≤ 16 ∧ s = s' ∧
        ∀ context ∈ contexts, ∃ contract, Permitted source context contract ∧
          LastWriteAttests attestor writes config.mode env.sequence contract := by
  simp only [policy_ok, hcfg, Option.some.injEq, exists_eq_left', checkProvenance_ok hreg,
    lastWriteAttests_iff, MAX_CONTEXTS, List.length_pos_iff, Nat.succ_le_iff, ne_eq]

/-! ### A trusted publisher's live upsert, after a rotation of the attestor -/

def demoWallet : Address := ⟨"CWALLET"⟩

def demoPublisher : BytesN 32 := ⟨List.replicate 32 7, List.length_replicate⟩

def demoWrites : List AttestationRegistry.Call :=
  [.setAttestor ⟨0, 5, ⟨"CREGISTRY"⟩, [⟨"GFIRST"⟩]⟩ ⟨"GSECOND"⟩,
    .upsertWithPublisher ⟨0, 10, ⟨"CREGISTRY"⟩, [⟨"GSECOND"⟩]⟩ ⟨"CTOKEN"⟩ ⟨List.replicate 32 1, rfl⟩
      demoPublisher 100]

def demoLedger (a : Address) : Option AttestationRegistry.Storage :=
  if a = ⟨"CREGISTRY"⟩ then
    some (run AttestationRegistry.step (AttestationRegistry.constructor ⟨"GFIRST"⟩) demoWrites)
  else none

def demoStorage : Storage :=
  ⟨some ⟨demoWallet, ⟨"CREGISTRY"⟩, .trustedPublishers [demoPublisher]⟩, fun w => w == demoWallet⟩

theorem policy_iff_provenance_rotated :
    policy demoLedger ⟨0, 99, ⟨"CPOLICY"⟩, [demoWallet]⟩ demoStorage demoWallet (.policy ⟨"CPOLICY"⟩)
      [.contract ⟨⟨"CTOKEN"⟩, "transfer", [.address demoWallet, .address ⟨"GPAYEE"⟩, .i128 .zero]⟩] =
        .ok demoStorage := by
  refine (@policy_iff_provenance demoLedger ⟨"GFIRST"⟩ demoWrites _ demoStorage _ _ _ _ _ rfl rfl).mpr
    ⟨by decide, rfl, by decide, by decide, by decide, rfl, ?_⟩
  intro context hmem
  obtain rfl := List.mem_singleton.mp hmem
  exact ⟨⟨"CTOKEN"⟩, ⟨_, rfl, rfl, by decide, fun _ => ⟨rfl, rfl⟩⟩,
    lastWriteAttests_iff.mpr ⟨⟨⟨List.replicate 32 1, rfl⟩, 10, 100, some demoPublisher⟩, rfl, by decide,
      demoPublisher, by simp, rfl⟩⟩

end Vellar.VerifiedRecipient
