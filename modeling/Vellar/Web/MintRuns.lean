import Vellar.Lib.Effect
import Vellar.Lib.Table
import Vellar.Web.AgentMint
import Vellar.Web.PolicySigner

/-!
# Vellar.Web.MintRuns — driving the mint, and what a failure tells

`runMint` of `apps/web/lib/agent-mint.ts` over effects that may each resolve or throw, and `addAgentKey` of
`apps/web/lib/signer-actions.ts`, the effect that hands the agent's signer to the backend.  `reported_iff`: the run ends in
exactly one of success and error, asks for no passkey before the details are confirmed, and its error tells what may be on
the chain, exactly under `Told`.
-/

set_option autoImplicit false

namespace Vellar.Web.AgentMint

open Effect
open PolicySigner (SignerStoreTag)

/-! ## The effects -/

/-- How an effect ends that has a transaction signed and hands it to the backend. -/
inductive Submission (ε : Type) where
  /-- It throws before the backend has the transaction. -/
  | refused (err : ε)
  /-- It throws once the backend has the transaction. -/
  | lost (err : ε)
  | submitted (hash : String)

structure AgentKeyRequest where
  publicKey : String
  token : String
  policyContractId : String
  expiresAtSeconds : Option ℤ
deriving DecidableEq

structure Simulation where
  ok : Bool
  error : Option String

/-- What each effect does when it is called; a generated policy stands for its id. -/
structure MintEffects (ε : Type) where
  generateKey : Except ε AgentKeyMaterial
  generatePolicy : MintConfig → String → Except ε String
  simulateDeploy : String → String → Except ε Simulation
  deployInstance : String → String → Except ε String
  confirmDetails : MintSummary → Except ε Unit
  attachPolicy : String → Submission ε
  recordDeployment : String → String → String → Except ε Unit
  addAgentKey : AgentKeyRequest → Submission ε
  confirm : List String → Except ε Unit

/-- What happens in a run, in order. -/
inductive Act where
  | generateKey
  | generatePolicy (config : MintConfig) (wallet : String)
  | simulateDeploy (policyId wallet : String)
  | deployInstance (policyId wallet : String)
  | deployed (contractId : String)
  | confirmDetails (summary : MintSummary)
  | detailsConfirmed
  | attachPolicy (contractId : String)
  | recordDeployment (policyId txHash contractId : String)
  | addAgentKey (request : AgentKeyRequest)
  | handedOver (prompt : Prompt)
  | confirm (hashes : List String)
deriving DecidableEq

/-- The effects that open a passkey prompt. -/
def Act.IsPasskey : Act → Prop
  | .attachPolicy _ | .addAgentKey _ => True
  | _ => False

/-- What is thrown in a run: by an effect, by `summarizeMintConfig`, or for a failed simulation. -/
inductive Thrown (ε : Type) where
  | effect (err : ε)
  | summary
  | simulation (message : String)

/-- The reducer's state, none once it has thrown; the driver's `stage`; and what has happened. -/
structure Progress where
  machine : Option MintState
  stage : MintStage
  log : List Act

def Progress.initial : Progress := ⟨some .idle, .creatingKey, []⟩

/-! ## The driver -/

section Driver

variable {ε : Type} (toLocaleString : ℤ → String) (effects : MintEffects ε) (describe : Thrown ε → String)
  (wallet : String)

def dispatch (event : MintEvent) : Effect (Thrown ε) Progress Unit :=
  modify fun t => { t with machine := t.machine.bind fun state => mintReducer toLocaleString state event }

def setStage (stage : MintStage) : Effect (Thrown ε) Progress Unit := modify fun t => { t with stage := stage }

def happens (act : Act) : Effect (Thrown ε) Progress Unit := modify fun t => { t with log := t.log ++ [act] }

/-- An effect that resolves or throws. -/
def call {α : Type} (act : Act) (result : Except ε α) : Effect (Thrown ε) Progress α := do
  happens act
  ofExcept (result.mapError .effect)

/-- An effect that submits. -/
def submit (act : Act) (prompt : Prompt) : Submission ε → Effect (Thrown ε) Progress String
  | .refused err => do
    happens act
    throw (.effect err)
  | .lost err => do
    happens act
    happens (.handedOver prompt)
    throw (.effect err)
  | .submitted hash => do
    happens act
    happens (.handedOver prompt)
    pure hash

def requestOf (config : MintConfig) (key : AgentKeyMaterial) (contractId : String) : AgentKeyRequest :=
  ⟨key.publicKey, config.token, contractId, config.expiresAtSeconds⟩

/-- `if (!sim.ok) throw …` -/
def checkSimulation (sim : Simulation) : Effect (Thrown ε) Progress Unit :=
  if sim.ok then pure () else throw (.simulation (sim.error.getD "Policy deploy simulation failed"))

/-- The `try` of `runMint` until the instance is deployed. -/
def deploy (config : MintConfig) : Effect (Thrown ε) Progress (AgentKeyMaterial × String × String) := do
  dispatch toLocaleString (.start config)
  let key ← call .generateKey effects.generateKey
  dispatch toLocaleString (.keyCreated key)
  setStage .policyCreation
  dispatch toLocaleString (.policyProgress "Generating token budget policy…")
  let policyId ← call (.generatePolicy config wallet) (effects.generatePolicy config wallet)
  dispatch toLocaleString (.policyProgress "Checking the deploy will succeed…")
  let sim ← call (.simulateDeploy policyId wallet) (effects.simulateDeploy policyId wallet)
  checkSimulation sim
  dispatch toLocaleString (.policyProgress "Deploying the budget policy to testnet…")
  let contractId ← call (.deployInstance policyId wallet) (effects.deployInstance policyId wallet)
  happens (.deployed contractId)
  pure (key, policyId, contractId)

/-- The rest of it. -/
def grant (config : MintConfig) : AgentKeyMaterial × String × String → Effect (Thrown ε) Progress Unit
  | (key, policyId, contractId) => do
    dispatch toLocaleString (.policyDeployed contractId)
    setStage .awaitingConfirmation
    let summary ← ofOption .summary (summarizeMintConfig toLocaleString config)
    call (.confirmDetails summary) (effects.confirmDetails summary)
    happens .detailsConfirmed
    dispatch toLocaleString .detailsConfirmed
    setStage .attachingPolicy
    dispatch toLocaleString (.passkeyApproved .attachPolicy)
    let attach ← submit (.attachPolicy contractId) .attachPolicy (effects.attachPolicy contractId)
    call (.recordDeployment policyId attach contractId) (effects.recordDeployment policyId attach contractId)
    dispatch toLocaleString (.policyAttached attach)
    setStage .addingSigner
    let added ← submit (.addAgentKey (requestOf config key contractId)) .addSigner
      (effects.addAgentKey (requestOf config key contractId))
    dispatch toLocaleString (.signerAdded added)
    setStage .confirming
    call (.confirm [attach, added]) (effects.confirm [attach, added])
    dispatch toLocaleString .confirmed

def mint (config : MintConfig) : Effect (Thrown ε) Progress Unit :=
  deploy toLocaleString effects wallet config >>= grant toLocaleString effects config

/-- The `catch` of `runMint`. -/
def fail (err : Thrown ε) : Effect (Thrown ε) Progress Unit := do
  let t ← get
  dispatch toLocaleString (.fail t.stage (describe err))

def runMint (config : MintConfig) : Effect (Thrown ε) Progress Unit :=
  attempt (mint toLocaleString effects wallet config) (fail toLocaleString describe)

end Driver

/-! ## What a run must tell -/

/-- No passkey before the details are confirmed. -/
def ConfirmedFirst (log : List Act) : Prop := ∀ act ∈ log.takeWhile (· ≠ .detailsConfirmed), ¬ act.IsPasskey

/-- The machine has ended one way, no passkey was asked for before the details were confirmed, and an error tells what
may be on the chain. -/
structure Reported (t : Progress) : Prop where
  ended : ∃ state, t.machine = some state ∧ Xor (IsSuccess state) (IsError state)
  confirmedFirst : ConfirmedFirst t.log
  signer : ∀ stage message signerMayExist id, t.machine = some (.error stage message signerMayExist id) →
    .handedOver .addSigner ∈ t.log → signerMayExist = true
  policy : ∀ stage message signerMayExist id, t.machine = some (.error stage message signerMayExist id) →
    ∀ contractId, .deployed contractId ∈ t.log → id = some contractId

section Condition

variable {ε : Type} (toLocaleString : ℤ → String) (effects : MintEffects ε) (wallet : String) (config : MintConfig)

/-- An instance gets deployed. -/
structure Deploys (key : AgentKeyMaterial) (policyId contractId : String) : Prop where
  key : effects.generateKey = .ok key
  policy : effects.generatePolicy config wallet = .ok policyId
  simulation : ∃ error, effects.simulateDeploy policyId wallet = .ok ⟨true, error⟩
  deployed : effects.deployInstance policyId wallet = .ok contractId

/-- The user confirms, and the policy is attached and recorded. -/
structure Attaches (summary : MintSummary) (policyId contractId hash : String) : Prop where
  confirmed : effects.confirmDetails summary = .ok ()
  attached : effects.attachPolicy contractId = .submitted hash
  recorded : effects.recordDeployment policyId hash contractId = .ok ()

/-- The config can be summarized, adding the signer does not throw when its transaction is with the backend, and the
instance has an id that is not empty, or nothing fails any more. -/
def ToldAfter (key : AgentKeyMaterial) (policyId contractId : String) : Prop :=
  ∃ summary, summarizeMintConfig toLocaleString config = some summary ∧
    (∀ hash, Attaches effects summary policyId contractId hash →
      ∀ err, effects.addAgentKey (requestOf config key contractId) ≠ .lost err) ∧
    (contractId = "" → ∃ hash added, Attaches effects summary policyId contractId hash ∧
      effects.addAgentKey (requestOf config key contractId) = .submitted added ∧
      effects.confirm [hash, added] = .ok ())

/-- So it is once an instance is deployed. -/
def Told : Prop := ∀ key policyId contractId, Deploys effects wallet config key policyId contractId →
  ToldAfter toLocaleString effects config key policyId contractId

end Condition

/-! ## How the parts of a run end -/

section Ends

variable {ε : Type} {toLocaleString : ℤ → String} {effects : MintEffects ε} {describe : Thrown ε → String}
  {wallet : String} {config : MintConfig} {t : Progress} {Q : Unit → Progress → Prop} {R : Thrown ε → Progress → Prop}

@[simp] theorem ends_dispatch {event : MintEvent} : Ends (dispatch toLocaleString event) Q R t ↔
    Q () { t with machine := t.machine.bind fun state => mintReducer toLocaleString state event } := Iff.rfl

@[simp] theorem ends_setStage {stage : MintStage} : Ends (setStage stage) Q R t ↔ Q () { t with stage := stage } :=
  Iff.rfl

@[simp] theorem ends_happens {act : Act} : Ends (happens act) Q R t ↔ Q () { t with log := t.log ++ [act] } :=
  Iff.rfl

@[simp] theorem ends_call {α : Type} {act : Act} {result : Except ε α} {Q : α → Progress → Prop} :
    Ends (call act result) Q R t ↔ (∀ a, result = .ok a → Q a { t with log := t.log ++ [act] }) ∧
      ∀ err, result = .error err → R (.effect err) { t with log := t.log ++ [act] } := by
  cases result <;> simp [call, Except.mapError]

@[simp] theorem ends_submit {act : Act} {prompt : Prompt} {result : Submission ε} {Q : String → Progress → Prop} :
    Ends (submit act prompt result) Q R t ↔
      (∀ hash, result = .submitted hash → Q hash { t with log := t.log ++ [act, .handedOver prompt] }) ∧
      (∀ err, result = .refused err → R (.effect err) { t with log := t.log ++ [act] }) ∧
      ∀ err, result = .lost err → R (.effect err) { t with log := t.log ++ [act, .handedOver prompt] } := by
  cases result with
  | refused err => simp [submit]
  | lost err => simp [submit]
  | submitted hash =>
    simp only [submit, ends_bind, ends_happens, ends_pure, List.append_assoc]
    simp

@[simp] theorem ends_checkSimulation {sim : Simulation} : Ends (checkSimulation sim) Q R t ↔
    (sim.ok = true → Q () t) ∧
      (sim.ok = false → R (.simulation (sim.error.getD "Policy deploy simulation failed")) t) := by
  unfold checkSimulation
  split_ifs with hok <;> simp [hok]

@[simp] theorem ends_fail {err : Thrown ε} : Ends (fail toLocaleString describe err) Q R t ↔
    Q () { t with machine := t.machine.map fun state => failed state t.stage (describe err) } := by
  rw [Option.map_eq_bind]
  exact Iff.rfl

end Ends

/-! ## What a failure tells -/

section Reports

variable {stage stage' : MintStage} {message : String} {log : List Act}

theorem reported_failed_iff {state : MintState} : Reported ⟨some (failed state stage message), stage', log⟩ ↔
    ConfirmedFirst log ∧ (.handedOver .addSigner ∈ log → isConfirming state = true) ∧
      ∀ contractId, .deployed contractId ∈ log → (policyContractIdOf state).filter (· ≠ "") = some contractId := by
  constructor
  · intro h
    exact ⟨h.confirmedFirst, h.signer _ _ _ _ rfl, h.policy _ _ _ _ rfl⟩
  · rintro ⟨hfirst, hsigner, hpolicy⟩
    refine ⟨⟨_, rfl, .inr ⟨trivial, fun h => h⟩⟩, hfirst, ?_, ?_⟩
    · rintro _ _ _ _ ⟨⟩
      exact hsigner
    · rintro _ _ _ _ ⟨⟩
      exact hpolicy

/-- An act of the stages before an instance is deployed. -/
def Act.isEarly : Act → Bool
  | .generateKey | .generatePolicy _ _ | .simulateDeploy _ _ | .deployInstance _ _ => true
  | _ => false

/-- Before anything is on the chain there is nothing to tell. -/
theorem reported_early {state : MintState} (h : log.all Act.isEarly = true) :
    Reported ⟨some (failed state stage message), stage', log⟩ := by
  rw [List.all_eq_true] at h
  refine reported_failed_iff.mpr ⟨fun act hact hpasskey => ?_, fun hmem => ?_, fun id hmem => ?_⟩
  · have hearly := h act ((List.takeWhile_prefix _).subset hact)
    cases act with
    | attachPolicy | addAgentKey => cases hearly
    | _ => exact hpasskey
  · cases h _ hmem
  · cases h _ hmem

theorem reported_success_iff {config : MintConfig} {publicKey : String} {secret : Option String}
    {policyContractId attachTxHash addSignerTxHash : String} :
    Reported ⟨some (.success config publicKey secret policyContractId attachTxHash addSignerTxHash), stage', log⟩ ↔
      ConfirmedFirst log := by
  refine ⟨fun h => h.confirmedFirst, fun hfirst => ⟨⟨_, rfl, .inl ⟨trivial, fun h => h⟩⟩, hfirst, ?_, ?_⟩⟩
  · rintro _ _ _ _ ⟨⟩
  · rintro _ _ _ _ ⟨⟩

theorem not_reported_none : ¬ Reported ⟨none, stage, log⟩ := by
  rintro ⟨⟨state, hnone, -⟩, -⟩
  cases hnone

end Reports

/-! ## Every run -/

section Runs

variable {ε : Type} {toLocaleString : ℤ → String} {effects : MintEffects ε} {describe : Thrown ε → String}
  {wallet : String} {config : MintConfig}

/-- What the driver goes on with once the instance is deployed. -/
def afterDeploy (wallet : String) (config : MintConfig) (key : AgentKeyMaterial) (policyId contractId : String) :
    Progress where
  machine := some (.policyCreation config key "Deploying the budget policy to testnet…")
  stage := .policyCreation
  log := [.generateKey, .generatePolicy config wallet, .simulateDeploy policyId wallet, .deployInstance policyId wallet,
    .deployed contractId]

/-- What is reported of a run that ends in `t`, thrown or not. -/
def Settled (toLocaleString : ℤ → String) (describe : Thrown ε → String) (err : Thrown ε) (t : Progress) : Prop :=
  Ends (fail toLocaleString describe err) (fun _ => Reported) (fun _ => Reported) t

/-- **Deploying**: what stops before an instance is deployed is reported, so a run is reported just when it is from there
on. -/
theorem ends_deploy {Q : AgentKeyMaterial × String × String → Progress → Prop} :
    Ends (deploy toLocaleString effects wallet config) Q (Settled toLocaleString describe) .initial ↔
      ∀ key policyId contractId, Deploys effects wallet config key policyId contractId →
        Q (key, policyId, contractId) (afterDeploy wallet config key policyId contractId) := by
  simp only [deploy, Settled, ends_bind, ends_dispatch, ends_setStage, ends_happens, ends_call, ends_checkSimulation,
    ends_fail, ends_pure, Progress.initial, List.nil_append, Option.bind_some, mintReducer, advance, Option.map_some,
    List.append_assoc, List.cons_append, reported_early, Act.isEarly, List.all_cons, List.all_nil, Bool.and_self,
    implies_true, and_true]
  constructor
  · rintro h key policyId contractId ⟨hkey, hpolicy, ⟨error, hsim⟩, hdeployed⟩
    exact h key hkey policyId hpolicy ⟨true, error⟩ hsim rfl contractId hdeployed
  · rintro h key hkey policyId hpolicy ⟨ok, error⟩ hsim rfl contractId hdeployed
    exact h key policyId contractId ⟨hkey, hpolicy, ⟨error, hsim⟩, hdeployed⟩

/-- **After the deploy**. -/
theorem ends_grant {key : AgentKeyMaterial} {policyId contractId : String} {summary : MintSummary}
    (hsummary : summarizeMintConfig toLocaleString config = some summary) :
    Ends (grant toLocaleString effects config (key, policyId, contractId)) (fun _ => Reported)
      (Settled toLocaleString describe) (afterDeploy wallet config key policyId contractId) ↔
      ToldAfter toLocaleString effects config key policyId contractId := by
  simp only [grant, Settled, afterDeploy, ends_bind, ends_dispatch, ends_setStage, ends_happens, ends_call, ends_submit,
    ends_ofOption, ends_fail, Option.bind_some, mintReducer, advance, Option.map_some, hsummary,
    List.append_assoc, List.cons_append, List.nil_append, reported_failed_iff, reported_success_iff]
  -- the reports at the ends: a signer handed over is told while confirming only, an empty id is told nowhere
  simp only [Option.some.injEq, ConfirmedFirst, ne_eq, decide_not, reduceCtorEq, decide_false, Bool.not_false,
    List.takeWhile_cons_of_pos, decide_true, Bool.not_true, Bool.false_eq_true, not_false_eq_true,
    List.takeWhile_cons_of_neg, List.mem_cons, List.not_mem_nil, or_false, Act.IsPasskey, forall_eq_or_imp, forall_eq,
    and_self, implies_true, Act.handedOver.injEq, or_self, or_true, isConfirming, imp_self, Act.deployed.injEq,
    false_or, Option.filter, policyContractIdOf, Bool.not_eq_eq_eq_not, decide_eq_false_iff_not, ite_not,
    Option.ite_none_left_eq_some, and_true, true_and, imp_false, not_true_eq_false, false_and, and_false,
    List.takeWhile_nil, forall_eq', IsEmpty.forall_iff]
  constructor
  · rintro ⟨hconfirmed, hunconfirmed⟩
    refine ⟨summary, hsummary, fun hash hattaches => ?_, fun hempty => ?_⟩
    · exact (((hconfirmed () hattaches.confirmed).1 hash hattaches.attached).1 () hattaches.recorded).2.2
    · -- with an empty id every failure after the deploy is told wrongly
      cases hc : effects.confirmDetails summary with
      | error err => exact absurd hempty (hunconfirmed err hc)
      | ok =>
        obtain ⟨hsubmitted, hrefused, hlost⟩ := hconfirmed () hc
        cases ha : effects.attachPolicy contractId with
        | refused err => exact absurd hempty (hrefused err ha)
        | lost err => exact absurd hempty (hlost err ha)
        | submitted hash =>
          obtain ⟨hrecorded, hunrecorded⟩ := hsubmitted hash ha
          cases hr : effects.recordDeployment policyId hash contractId with
          | error err => exact absurd hempty (hunrecorded err hr)
          | ok =>
            obtain ⟨hadded, hunadded, hnever⟩ := hrecorded () hr
            cases hk : effects.addAgentKey (requestOf config key contractId) with
            | refused err => exact absurd hempty (hunadded err hk)
            | lost err => exact absurd hk (hnever err)
            | submitted added =>
              refine ⟨hash, added, ⟨hc, ha, hr⟩, rfl, ?_⟩
              cases hf : effects.confirm [hash, added] with
              | error err => exact absurd hempty (hadded added hk err hf)
              | ok => rfl
  · rintro ⟨summary', hsummary', hnever, hempty⟩
    obtain rfl : summary = summary' := Option.some.inj (hsummary.symm.trans hsummary')
    refine ⟨fun _ hc => ⟨fun hash ha => ⟨fun _ hr => ⟨fun added hk err hf he => ?_, fun err hk he => ?_, ?_⟩,
      fun err hr he => ?_⟩, fun err ha he => ?_, fun err ha he => ?_⟩, fun err hc he => ?_⟩
    · obtain ⟨hash', added', hattaches, hadded, hfinal⟩ := hempty he
      obtain rfl : hash = hash' := Submission.submitted.inj (ha.symm.trans hattaches.attached)
      obtain rfl : added = added' := Submission.submitted.inj (hk.symm.trans hadded)
      cases hf.symm.trans hfinal
    · obtain ⟨_, added', -, hadded, -⟩ := hempty he
      cases hk.symm.trans hadded
    · exact hnever hash ⟨hc, ha, hr⟩
    · obtain ⟨hash', _, hattaches, -⟩ := hempty he
      obtain rfl : hash = hash' := Submission.submitted.inj (ha.symm.trans hattaches.attached)
      cases hr.symm.trans hattaches.recorded
    · obtain ⟨_, _, hattaches, -⟩ := hempty he
      cases ha.symm.trans hattaches.attached
    · obtain ⟨_, _, hattaches, -⟩ := hempty he
      cases ha.symm.trans hattaches.attached
    · obtain ⟨_, _, hattaches, -⟩ := hempty he
      cases hc.symm.trans hattaches.confirmed

/-- A config that cannot be summarized stops the reducer at the deployed policy. -/
theorem ends_grant_none {key : AgentKeyMaterial} {policyId contractId : String}
    (hsummary : summarizeMintConfig toLocaleString config = none) :
    ¬ Ends (grant toLocaleString effects config (key, policyId, contractId)) (fun _ => Reported)
      (Settled toLocaleString describe) (afterDeploy wallet config key policyId contractId) := by
  simp only [grant, Settled, afterDeploy, ends_bind, ends_dispatch, ends_setStage, ends_ofOption, ends_fail,
    Option.bind_some, mintReducer, advance, hsummary, Option.map_none]
  exact fun h => not_reported_none (h.2 trivial)

/-- **What a mint tells**: whatever the effects do, the run ends in exactly one of success and error, opens no passkey
prompt before the details are confirmed, and its error says that the signer may exist once its transaction was handed over
and which instance was deployed, exactly under `Told`. -/
theorem reported_iff (toLocaleString : ℤ → String) (effects : MintEffects ε) (describe : Thrown ε → String)
    (wallet : String) (config : MintConfig) : Reported ((runMint toLocaleString effects describe wallet config).after .initial) ↔
      Told toLocaleString effects wallet config := by
  refine (ends_after (P := Reported)).trans ?_
  rw [runMint, ends_attempt, mint, ends_bind]
  refine ends_deploy.trans (forall₄_congr fun key policyId contractId _ => ?_)
  cases hsummary : summarizeMintConfig toLocaleString config with
  | some summary => exact ends_grant hsummary
  | none =>
    refine iff_of_false (ends_grant_none hsummary) ?_
    rintro ⟨summary, hsome, -⟩
    exact absurd (hsome.symm.trans hsummary) (Option.some_ne_none summary)

end Runs

/-! ## Adding the agent's signer -/

section SignerActions

structure AgentPolicyGrant where
  token : String
  policies : List String

structure AddAgentKeyInput where
  publicKey : String
  grants : List AgentPolicyGrant
  expirationSeconds : Option ℤ
  store : SignerStoreTag

/-- The limits of a signer, by contract: a policy stands for its `SignerKey.Policy`. -/
abbrev SignerLimits := Table fun limit : String × List String => limit.1

/-- The kit and the backend of `createSignerActions`, and `Error`. -/
structure SignerActionDeps (ε τ : Type) where
  addEd25519 : String → SignerLimits → SignerStoreTag → Option ℤ → Except ε τ
  sign : τ → Except ε (Option τ)
  /-- A text as it is, or what `toXDR()` returns. -/
  xdr : τ → Except ε String
  submitTransaction : String → String → Except ε String
  network : String
  error : String → ε

variable {ε τ : Type} (d : SignerActionDeps ε τ)

def agentLimits (grants : List AgentPolicyGrant) : Except String SignerLimits :=
  if grants = [] then .error "An agent key needs at least one token grant."
  else grants.foldlM (fun limits grant =>
    if grant.policies = [] then
      .error ("The grant for " ++ grant.token ++ " has no policy — refusing an unbounded agent key.")
    else .ok (limits.put (grant.token, grant.policies))) Table.empty

/-- `toXdr` -/
def toXdr (signed : Option τ) (fallback : τ) : Except ε String := d.xdr (signed.getD fallback)

/-- What is signed and made a text, before the backend gets it. -/
def signedXdr (tx : τ) : Except ε String := (d.sign tx).bind fun signed => toXdr d signed tx

def signAndSubmit (tx : τ) : Submission ε :=
  match signedXdr d tx with
  | .error err => .refused err
  | .ok signedXdr =>
    match d.submitTransaction signedXdr d.network with
    | .ok hash => .submitted hash
    | .error err => .lost err

def addAgentKey (input : AddAgentKeyInput) : Submission ε :=
  match (agentLimits input.grants).mapError d.error with
  | .error err => .refused err
  | .ok limits =>
    match d.addEd25519 input.publicKey limits input.store input.expirationSeconds with
    | .error err => .refused err
    | .ok tx => signAndSubmit d tx

/-- The effect of `AgentKeysCard`, with the provenance policy of the account as a second co-signer. -/
def addAgentKeyEffect (provenancePolicy : Option String) (request : AgentKeyRequest) : Submission ε :=
  addAgentKey d ⟨request.publicKey, [⟨request.token, request.policyContractId :: provenancePolicy.toList⟩],
    request.expiresAtSeconds, .persistent⟩

/-- The limits of an effect's grant: the budget policy is always among the co-signers. -/
theorem agentLimits_effect (token : String) (policies : List String) (policy : String) :
    agentLimits [⟨token, policy :: policies⟩] = .ok (Table.empty.put (token, policy :: policies)) := rfl

/-- **A signer that is lost**: the transaction was built, signed and handed over, and the backend rejects. -/
theorem addAgentKeyEffect_lost_iff {provenancePolicy : Option String} {request : AgentKeyRequest} {err : ε} :
    addAgentKeyEffect d provenancePolicy request = .lost err ↔ ∃ tx xdr,
      d.addEd25519 request.publicKey
        (Table.empty.put (request.token, request.policyContractId :: provenancePolicy.toList)) .persistent
          request.expiresAtSeconds = .ok tx ∧
      signedXdr d tx = .ok xdr ∧ d.submitTransaction xdr d.network = .error err := by
  simp only [addAgentKeyEffect, addAgentKey, agentLimits_effect, Except.mapError]
  constructor
  · intro h
    split at h
    · cases h
    · next tx htx =>
      unfold signAndSubmit at h
      split at h
      · cases h
      · next xdr hxdr =>
        split at h
        · cases h
        · next err' herr =>
          obtain rfl : err' = err := Submission.lost.inj h
          exact ⟨tx, xdr, htx, hxdr, herr⟩
  · rintro ⟨tx, xdr, htx, hxdr, herr⟩
    simp only [htx, signAndSubmit, hxdr, herr]

end SignerActions

/-! ## A backend that does not answer -/

section Lost

variable {ε : Type} {toLocaleString : ℤ → String} {effects : MintEffects ε} {describe : Thrown ε → String}
  {wallet : String} {config : MintConfig} {key : AgentKeyMaterial} {policyId contractId hash : String}
  {summary : MintSummary} {err : ε}

/-- A run that deploys goes on with the instance. -/
theorem ends_deploy_of {Q : AgentKeyMaterial × String × String → Progress → Prop} {R : Thrown ε → Progress → Prop}
    (h : Deploys effects wallet config key policyId contractId)
    (hQ : Q (key, policyId, contractId) (afterDeploy wallet config key policyId contractId)) :
    Ends (deploy toLocaleString effects wallet config) Q R .initial := by
  obtain ⟨hkey, hpolicy, ⟨error, hsim⟩, hdeployed⟩ := h
  simp only [deploy, ends_bind, ends_dispatch, ends_setStage, ends_happens, ends_call, ends_checkSimulation, ends_pure,
    Progress.initial, Option.bind_some, mintReducer, advance, List.append_assoc, List.cons_append, List.nil_append]
  simp only [hkey, hpolicy, hsim, hdeployed, Except.ok.injEq, forall_eq', reduceCtorEq, false_implies, implies_true,
    and_true]
  exact fun _ => hQ

theorem ends_grant_lost {P : Progress → Prop}
    (hsummary : summarizeMintConfig toLocaleString config = some summary)
    (hattaches : Attaches effects summary policyId contractId hash)
    (hlost : effects.addAgentKey (requestOf config key contractId) = .lost err)
    (hP : ∀ stage log, .handedOver .addSigner ∈ log →
      P ⟨some (failed (.addingSigner config key contractId hash) .addingSigner (describe (.effect err))), stage, log⟩) :
    Ends (grant toLocaleString effects config (key, policyId, contractId)) (fun _ => P)
      (fun err => Ends (fail toLocaleString describe err) (fun _ => P) (fun _ => P))
      (afterDeploy wallet config key policyId contractId) := by
  simp only [grant, afterDeploy, ends_bind, ends_dispatch, ends_setStage, ends_happens, ends_call, ends_submit,
    ends_ofOption, ends_fail, Option.bind_some, mintReducer, advance, Option.map_some, hsummary,
    List.append_assoc, List.cons_append, List.nil_append]
  simp only [Option.some.injEq, forall_eq', hattaches.confirmed, hattaches.attached, hattaches.recorded, hlost,
    Submission.submitted.injEq, Submission.lost.injEq, reduceCtorEq, false_implies, implies_true, and_true, true_and]
  exact fun _ _ _ _ => hP _ _ (by simp)

/-- A signer that is lost is hidden: its transaction is with the backend, and the run fails as if no signer existed. -/
theorem after_lost (hdeploys : Deploys effects wallet config key policyId contractId)
    (hsummary : summarizeMintConfig toLocaleString config = some summary)
    (hattaches : Attaches effects summary policyId contractId hash)
    (hlost : effects.addAgentKey (requestOf config key contractId) = .lost err) {t : Progress}
    (ht : (runMint toLocaleString effects describe wallet config).after .initial = t) :
    .handedOver .addSigner ∈ t.log ∧
      t.machine = some (failed (.addingSigner config key contractId hash) .addingSigner (describe (.effect err))) := by
  subst ht
  refine (ends_after (P := fun t : Progress => .handedOver .addSigner ∈ t.log ∧
    t.machine = some (failed (.addingSigner config key contractId hash) .addingSigner (describe (.effect err))))).mpr ?_
  rw [runMint, ends_attempt, mint, ends_bind]
  refine ends_deploy_of hdeploys ?_
  exact ends_grant_lost hsummary hattaches hlost fun _ _ hlog => ⟨hlog, rfl⟩

end Lost

/-- The kit signs, and the backend takes the transaction without an answer. -/
def unanswered : SignerActionDeps String String where
  addEd25519 := fun _ _ _ _ => .ok "tx"
  sign := fun _ => .ok none
  xdr := .ok
  submitTransaction := fun _ _ => .error "timeout"
  network := "testnet"
  error := id

def unansweredEffects : MintEffects String where
  generateKey := .ok firstKey
  generatePolicy := fun _ _ => .ok "policy"
  simulateDeploy := fun _ _ => .ok ⟨true, none⟩
  deployInstance := fun _ _ => .ok "CPOLICY"
  confirmDetails := fun _ => .ok ()
  attachPolicy := fun _ => .submitted "attach"
  recordDeployment := fun _ _ _ => .ok ()
  addAgentKey := addAgentKeyEffect unanswered none
  confirm := fun _ => .ok ()

/-- The signer's transaction is with the backend, and the error says that no signer exists. -/
theorem signer_hidden :
    let t := (runMint (fun _ => "") unansweredEffects (fun _ => "timeout") "CWALLET" weekly).after .initial
    .handedOver .addSigner ∈ t.log ∧ t.machine = some (.error .addingSigner "timeout" false (some "CPOLICY")) ∧
      ¬ Reported t := by
  intro t
  have hdeploys : Deploys unansweredEffects "CWALLET" weekly firstKey "policy" "CPOLICY" :=
    ⟨rfl, rfl, ⟨none, rfl⟩, rfl⟩
  have hattaches (summary : MintSummary) : Attaches unansweredEffects summary "policy" "CPOLICY" "attach" :=
    ⟨rfl, rfl, rfl⟩
  have hlost : unansweredEffects.addAgentKey (requestOf weekly firstKey "CPOLICY") = .lost "timeout" := rfl
  have hfailed : failed (.addingSigner weekly firstKey "CPOLICY" "attach") .addingSigner "timeout" =
      .error .addingSigner "timeout" false (some "CPOLICY") := by
    simp [failed, isConfirming, policyContractIdOf, Option.filter]
  obtain ⟨hhanded, hmachine⟩ := after_lost hdeploys (summarize_weekly _) (hattaches _) hlost (t := t) rfl
  rw [hfailed] at hmachine
  exact ⟨hhanded, hmachine, fun hreported => Bool.false_ne_true (hreported.signer _ _ _ _ hmachine hhanded)⟩

end Vellar.Web.AgentMint
