import Vellar.Policy.Deployable
import Vellar.ServiceKit.SpendBudget

/-!
# Vellar.Policy.DeployRoutes — the two deploy-instance routes

`POST /policies/:id/deploy-instance` with `deployPolicyInstance`, and `POST /admin/policies/:id/deploy-instance`
(`services/policy-service/src/server.ts`, `deployment.ts`), for one policy.  A request moves from one await to the next:
find, budget, deploy, update; any number of requests interleave.  `deploys_held`: deploys are single and metered as long
as no request passes the check while another is past it or a deploy is unrecorded, and none passes it unmetered.
-/

set_option autoImplicit false

namespace Vellar.Policy

open Machine Processes ServiceKit

/-! ## Records and the repository -/

inductive PolicyStatus where
  | generated
  | instanceDeployed
  | deployed
deriving DecidableEq, Repr

/-- The `instance` of a record. -/
structure PolicyInstance where
  contractId : String
  wallet : String
  txHash : String
  deployedAt : String

structure PolicyRecord extends GeneratedPolicy where
  id : String
  createdAt : String
  status : PolicyStatus
  policyInstance : Option PolicyInstance

def PolicyRecord.instanceId (record : PolicyRecord) : Option String := record.policyInstance.map (·.contractId)

/-- `record.status = "instance_deployed"; record.instance = …`. -/
def PolicyRecord.withInstance (record : PolicyRecord) (i : PolicyInstance) : PolicyRecord :=
  { record with status := .instanceDeployed, policyInstance := some i }

/-- `memory` hands out the stored object itself, `postgres` a copy of the row. -/
inductive Repository where
  | memory
  | postgres
deriving DecidableEq, Repr

/-- What the stored record becomes when a request assigns to the record it found. -/
def Repository.assign (repository : Repository) (i : PolicyInstance) (row : Option PolicyRecord) : Option PolicyRecord :=
  match repository with
  | .memory => row.map (·.withInstance i)
  | .postgres => row

/-- What `update(record)` stores: the object already there, or the request's copy over the row. -/
def Repository.update (repository : Repository) (record : PolicyRecord) (row : Option PolicyRecord) :
    Option PolicyRecord :=
  match repository with
  | .memory => row
  | .postgres => row.map fun _ => record

/-- The request's record as it is by now. -/
def Repository.current (repository : Repository) (record : PolicyRecord) (row : Option PolicyRecord) : PolicyRecord :=
  match repository with
  | .memory => row.getD record
  | .postgres => record

/-! ## Requests -/

inductive Route where
  | policies
  | admin
deriving DecidableEq, Repr

/-- A request past its CSRF check, for the policy. -/
structure Request where
  id : ℕ
  route : Route
  body : Json

structure DeploymentDeps where
  repository : Repository
  /-- Whether there is one. -/
  deployer : Bool
  budget : Bool
  budgetNetwork : Option BudgetNetwork

/-- `deps.budget && deps.budgetNetwork` -/
def DeploymentDeps.meter (deps : DeploymentDeps) : Option BudgetNetwork :=
  if deps.budget then deps.budgetNetwork else none

def DEPLOY_FEE : ℤ := 10000000

/-- `deployInstanceBodySchema`. -/
def deployInstanceBody (body : Json) : Option String := ((body.get? "wallet").bind Json.str?).filter isContractAddress

/-- `validatePolicyForDeployment`. -/
def validatePolicyForDeployment (record : PolicyRecord) : Except String ConstructorArgs :=
  match record.manifest.enforcement with
  | .policyContract _ (some args) => .ok args
  | .policyContract _ none => .error "policy contract enforcement is missing constructor args"
  | _ => .error "this policy is enforced without a deployed contract instance"

/-- The check of the admin route, which has one message. -/
def adminDeployCheck (record : PolicyRecord) : Except String ConstructorArgs :=
  match record.manifest.enforcement with
  | .policyContract _ (some args) => .ok args
  | _ => .error "this policy is enforced without a deployed contract instance"

def deployCheck : Route → PolicyRecord → Except String ConstructorArgs
  | .policies => validatePolicyForDeployment
  | .admin => adminDeployCheck

inductive Response where
  | sent (policy : PolicyRecord) (contractId : String)
  | refused (code : ℕ) (error reason : String)
  /-- The handler threw. -/
  | thrown

/-- What happened for the policy, by request. -/
inductive Event where
  | checked (request : ℕ)
  | tryConsume (request : ℕ) (req : ConsumeRequest) (ok : Bool)
  /-- `deployInstance` was called. -/
  | deployInstance (request : ℕ)
  /-- The call succeeded. -/
  | deployed (request : ℕ) (contractId : String)
  /-- The update was written. -/
  | committed (request : ℕ)
  | answered (request : ℕ)
deriving DecidableEq, Repr

def Event.request : Event → ℕ
  | .checked i | .tryConsume i _ _ | .deployInstance i | .deployed i _ | .committed i | .answered i => i

structure World where
  row : Option PolicyRecord
  log : List Event

def World.add (w : World) (events : List Event) : World := { w with log := w.log ++ events }

/-- What a request awaits. -/
inductive Phase where
  | received (r : Request)
  | finding (r : Request) (wallet : String)
  | consuming (r : Request) (wallet : String) (record : PolicyRecord) (args : ConstructorArgs) (network : BudgetNetwork)
  | deploying (r : Request) (wallet : String) (record : PolicyRecord) (args : ConstructorArgs)
  | updating (r : Request) (record : PolicyRecord) (contractId : String)
  | done (r : Request) (response : Response)

def Phase.request : Phase → Request
  | .received r | .finding r _ | .consuming r _ _ _ _ | .deploying r _ _ _ | .updating r _ _ | .done r _ => r

/-- Past the check and not answered. -/
def Phase.InFlight : Phase → Prop
  | .consuming .. | .deploying .. | .updating .. => True
  | _ => False

/-- The answer to what is awaited; a `lost` update is written and throws. -/
inductive Reply where
  | succeeds
  | fails
  | lost
  | consumed (answer : SpendBudget.Answer)
  | deployed (contractId txHash deployedAt : String)
  /-- `deployInstance` threw, a `PolicyDeployError` with its code or another error. -/
  | deployError (code : Option String)

/-- A `Map` does not throw. -/
def Repository.answer : Repository → Reply → Reply
  | .memory, .fails => .succeeds
  | .memory, .lost => .succeeds
  | _, x => x

/-- The handler has answered. -/
def World.respond (w : World) (r : Request) (response : Response) : Phase × World :=
  (.done r response, w.add [.answered r.id])

def failed (route : Route) : Response :=
  match route with
  | .policies => .refused 500 "deploy_failed" ""
  | .admin => .thrown

section Handler

variable (deps : DeploymentDeps)

/-- From the record to the next await: the instance, the deployability, then the budget or the deploy. -/
def afterFind (r : Request) (wallet : String) (record : PolicyRecord) (w : World) : Phase × World :=
  match record.policyInstance with
  | some i => w.respond r (.sent record i.contractId)
  | none =>
    match deployCheck r.route record with
    | .error reason => w.respond r (.refused 422 "not_deployable" reason)
    | .ok args =>
      match r.route, deps.meter with
      | .policies, some network => (.consuming r wallet record args network, w.add [.checked r.id])
      | _, _ => (.deploying r wallet record args, w.add [.checked r.id, .deployInstance r.id])

/-- The request to the budget. -/
def deployRequest (network : BudgetNetwork) : ConsumeRequest := ⟨.deploy, network, DEPLOY_FEE, none⟩

/-- One step of either route. -/
def handle (x : Reply) (p : Phase) (w : World) : Phase × World :=
  match p with
  | .received r =>
    if deps.deployer then
      match deployInstanceBody r.body with
      | some wallet => (.finding r wallet, w)
      | none => w.respond r (.refused 400 "invalid_body" "")
    else w.respond r (.refused 503 "deploy_unavailable" "no sponsor configured")
  | .finding r wallet =>
    match deps.repository.answer x with
    | .succeeds =>
      match w.row with
      | some record => afterFind deps r wallet record w
      | none => w.respond r (.refused 404 "policy_not_found" "")
    | .fails => w.respond r .thrown
    | _ => (.finding r wallet, w)
  | .consuming r wallet record args network =>
    match x with
    | .consumed .ok =>
      (.deploying r wallet record args,
        w.add [.tryConsume r.id (deployRequest network) true, .deployInstance r.id])
    | .consumed _ =>
      (.done r (.refused 503 "deploy_budget_exceeded" "Policy-deploy budget reached; try again later."),
        w.add [.tryConsume r.id (deployRequest network) false, .answered r.id])
    | _ => (.consuming r wallet record args network, w)
  | .deploying r wallet record args =>
    match x with
    | .deployed contractId txHash deployedAt =>
      let i : PolicyInstance := ⟨contractId, wallet, txHash, deployedAt⟩
      (.updating r (record.withInstance i) contractId,
        World.add { w with row := deps.repository.assign i w.row } [.deployed r.id contractId])
    | .deployError (some code) => w.respond r (.refused 502 "deploy_failed" code)
    | .deployError none => w.respond r (failed r.route)
    | _ => (.deploying r wallet record args, w)
  | .updating r record contractId =>
    let written := { w with row := deps.repository.update record w.row }
    match deps.repository.answer x with
    | .succeeds =>
      (.done r (.sent (deps.repository.current record w.row) contractId), written.add [.committed r.id, .answered r.id])
    | .lost => (.done r (failed r.route), written.add [.committed r.id, .answered r.id])
    | .fails => w.respond r (failed r.route)
    | _ => (.updating r record contractId, w)
  | .done r response => (.done r response, w)

end Handler

/-! ## What is promised -/

/-- The successful deploys of a log. -/
def successes (log : List Event) : List (ℕ × String) :=
  log.filterMap fun e =>
    match e with
    | .deployed i contractId => some (i, contractId)
    | _ => none

/-- Every deploy is one of a request of its own that the budget accepted before. -/
def Metered (log : List Event) : Prop :=
  ∀ (before : List Event) i (after : List Event), log = before ++ .deployInstance i :: after →
    .deployInstance i ∉ before ∧ ∃ network, .tryConsume i (deployRequest network) true ∈ before

/-- The id of the persisted instance. -/
def World.instanceId (w : World) : Option String := w.row.bind (·.instanceId)

/-- All requests received, none begun. -/
def start (row : Option PolicyRecord) (requests : ℕ → Route × Json) : Config World Phase where
  shared := ⟨row, []⟩
  procs i := .received ⟨i, (requests i).1, (requests i).2⟩

/-- The state a schedule of steps and answers leads to. -/
def reached (deps : DeploymentDeps) (row : Option PolicyRecord) (requests : ℕ → Route × Json)
    (schedule : List (ℕ × Reply)) : Config World Phase :=
  run (step (handle deps)) (start row requests) schedule

/-- Deploys of the policy are single and metered in a run. -/
structure DeploysHeld (deps : DeploymentDeps) (row : Option PolicyRecord) (requests : ℕ → Route × Json)
    (schedule : List (ℕ × Reply)) : Prop where
  single : (successes (reached deps row requests schedule).shared.log).length ≤ 1
  kept : ∀ earlier later, earlier <+: later → later <+: schedule → ∀ contractId,
    (reached deps row requests earlier).shared.instanceId = some contractId →
      (reached deps row requests later).shared.instanceId = some contractId
  metered : deps.budget = true → Metered (reached deps row requests schedule).shared.log

/-- The request passes the check at the record as it is stored. -/
def Passes (r : Request) (w : World) : Prop :=
  ∃ record args, w.row = some record ∧ record.policyInstance = none ∧ deployCheck r.route record = .ok args

/-- No request is past its check, and every deploy is recorded. -/
structure Clear (w : World) : Prop where
  answered : ∀ i, .checked i ∈ w.log → .answered i ∈ w.log
  recorded : ∀ s ∈ successes w.log, .committed s.1 ∈ w.log

/-- Where a budget is configured, the request is metered. -/
def IsMetered (deps : DeploymentDeps) (r : Request) : Prop :=
  deps.budget = true → r.route = .policies ∧ deps.budgetNetwork.isSome = true

/-- A request passes the check only when no other is past it and no deploy is unrecorded, and only metered. -/
def Orderly (deps : DeploymentDeps) (x : Reply) (p : Phase) (w : World) : Prop :=
  ∀ r wallet, p = .finding r wallet → deps.repository.answer x = .succeeds → Passes r w → Clear w ∧ IsMetered deps r

/-! ## Logs -/

section Logs

variable {log : List Event}

theorem successes_append (log log' : List Event) : successes (log ++ log') = successes log ++ successes log' :=
  List.filterMap_append

theorem Metered.snoc (h : Metered log) {e : Event}
    (he : ∀ i, e = .deployInstance i →
      .deployInstance i ∉ log ∧ ∃ network, .tryConsume i (deployRequest network) true ∈ log) : Metered (log ++ [e]) := by
  intro before i after heq
  rcases List.eq_nil_or_concat after with rfl | ⟨rest, last, rfl⟩
  · obtain ⟨rfl, hlast⟩ := List.append_inj' heq rfl
    exact he i (List.cons.inj hlast).1
  · have hsplit : log ++ [e] = (before ++ .deployInstance i :: rest) ++ [last] := by
      rw [heq]
      simp
    exact h before i rest (List.append_inj' hsplit rfl).1

/-- Events that are no deploys are metered. -/
theorem Metered.append (h : Metered log) {events : List Event} (hevents : ∀ i, .deployInstance i ∉ events) :
    Metered (log ++ events) := by
  induction events generalizing log with
  | nil => rwa [List.append_nil]
  | cons e events ih =>
    rw [List.append_cons]
    refine ih (h.snoc fun i hi => ?_) fun i hi => hevents i (List.mem_cons_of_mem _ hi)
    exact absurd (hi ▸ List.mem_cons_self) (hevents i)

end Logs

/-! ## What a step can do -/

section Steps

variable {deps : DeploymentDeps} {w w' : World} {p p' : Phase}

inductive Move (deps : DeploymentDeps) (w : World) : Phase → Phase → World → Prop where
  | stay (p : Phase) : Move deps w p p w
  | begin (r : Request) (wallet : String) : Move deps w (.received r) (.finding r wallet) w
  | respond (p : Phase) (response : Response) : Move deps w p (.done p.request response) (w.add [.answered p.request.id])
  | budget (r : Request) (wallet : String) (record : PolicyRecord) (args : ConstructorArgs) (network : BudgetNetwork)
      (hpass : Passes r w) (hclear : Clear w) :
      Move deps w (.finding r wallet) (.consuming r wallet record args network) (w.add [.checked r.id])
  | unmetered (r : Request) (wallet : String) (record : PolicyRecord) (args : ConstructorArgs) (hpass : Passes r w)
      (hclear : Clear w) (hbudget : deps.budget = false) :
      Move deps w (.finding r wallet) (.deploying r wallet record args) (w.add [.checked r.id, .deployInstance r.id])
  | accepted (r : Request) (wallet : String) (record : PolicyRecord) (args : ConstructorArgs) (network : BudgetNetwork) :
      Move deps w (.consuming r wallet record args network) (.deploying r wallet record args)
        (w.add [.tryConsume r.id (deployRequest network) true, .deployInstance r.id])
  | refused (r : Request) (wallet : String) (record : PolicyRecord) (args : ConstructorArgs) (network : BudgetNetwork)
      (response : Response) :
      Move deps w (.consuming r wallet record args network) (.done r response)
        (w.add [.tryConsume r.id (deployRequest network) false, .answered r.id])
  | deploy (r : Request) (wallet : String) (record : PolicyRecord) (args : ConstructorArgs) (i : PolicyInstance) :
      Move deps w (.deploying r wallet record args) (.updating r (record.withInstance i) i.contractId)
        (World.add { w with row := deps.repository.assign i w.row } [.deployed r.id i.contractId])
  | commit (r : Request) (record : PolicyRecord) (contractId : String) (response : Response) :
      Move deps w (.updating r record contractId) (.done r response)
        (World.add { w with row := deps.repository.update record w.row } [.committed r.id, .answered r.id])

theorem afterFind_move {r : Request} {wallet : String} {record : PolicyRecord} (hrow : w.row = some record)
    (hG : Passes r w → Clear w ∧ IsMetered deps r) :
    Move deps w (.finding r wallet) (afterFind deps r wallet record w).1 (afterFind deps r wallet record w).2 := by
  cases hinstance : record.policyInstance with
  | some i =>
    simp only [afterFind, hinstance]
    exact .respond (.finding r wallet) _
  | none =>
    cases hcheck : deployCheck r.route record with
    | error reason =>
      simp only [afterFind, hinstance, hcheck]
      exact .respond (.finding r wallet) _
    | ok args =>
      have hpass : Passes r w := ⟨record, args, hrow, hinstance, hcheck⟩
      obtain ⟨hclear, hmetered⟩ := hG hpass
      by_cases hbudget : deps.budget = true
      · obtain ⟨hroute, hnetwork⟩ := hmetered hbudget
        obtain ⟨network, hnetwork⟩ := Option.isSome_iff_exists.mp hnetwork
        have hmeter : deps.meter = some network := by rw [DeploymentDeps.meter, if_pos hbudget, hnetwork]
        simp only [afterFind, hinstance, hcheck]
        simp only [hroute, hmeter]
        exact .budget r wallet record args network hpass hclear
      · have hmeter : deps.meter = none := if_neg hbudget
        simp only [afterFind, hinstance, hcheck, hmeter]
        cases r.route <;> exact .unmetered r wallet record args hpass hclear (Bool.eq_false_iff.mpr hbudget)

theorem handle_move {x : Reply} (hG : Orderly deps x p w) : Move deps w p (handle deps x p w).1 (handle deps x p w).2 := by
  cases p with
  | received r =>
    by_cases hdeployer : deps.deployer = true
    · cases hbody : deployInstanceBody r.body with
      | some wallet =>
        simp only [handle, if_pos hdeployer, hbody]
        exact .begin r wallet
      | none =>
        simp only [handle, if_pos hdeployer, hbody]
        exact .respond (.received r) _
    · simp only [handle, if_neg hdeployer]
      exact .respond (.received r) _
  | finding r wallet =>
    cases hx : deps.repository.answer x with
    | succeeds =>
      cases hrow : w.row with
      | some record =>
        simp only [handle, hx, hrow]
        exact afterFind_move hrow (hG r wallet rfl hx)
      | none =>
        simp only [handle, hx, hrow]
        exact .respond (.finding r wallet) _
    | fails =>
      simp only [handle, hx]
      exact .respond (.finding r wallet) _
    | lost | consumed | deployed | deployError =>
      simp only [handle, hx]
      exact .stay _
  | consuming r wallet record args network =>
    cases x with
    | consumed answer =>
      cases answer with
      | ok => exact .accepted r wallet record args network
      | refused | threw => exact .refused r wallet record args network _
    | succeeds | fails | lost | deployed | deployError => exact .stay _
  | deploying r wallet record args =>
    cases x with
    | deployed contractId txHash deployedAt => exact .deploy r wallet record args ⟨contractId, wallet, txHash, deployedAt⟩
    | deployError code => cases code <;> exact .respond (.deploying r wallet record args) _
    | succeeds | fails | lost | consumed => exact .stay _
  | updating r record contractId =>
    cases hx : deps.repository.answer x with
    | succeeds | lost =>
      simp only [handle, hx]
      exact .commit r record contractId _
    | fails =>
      simp only [handle, hx]
      exact .respond (.updating r record contractId) _
    | consumed | deployed | deployError =>
      simp only [handle, hx]
      exact .stay _
  | done r response => exact .stay _

theorem Move.request_eq (h : Move deps w p p' w') : p'.request = p.request := by
  cases h <;> rfl

/-- A step logs events of its own request. -/
theorem Move.log_eq (h : Move deps w p p' w') :
    ∃ events, w'.log = w.log ++ events ∧ ∀ e ∈ events, e.request = p.request.id := by
  cases h with
  | stay | begin => exact ⟨[], (List.append_nil _).symm, fun e he => by cases he⟩
  | respond | budget | unmetered | accepted | refused | deploy | commit =>
    refine ⟨_, rfl, ?_⟩
    simp [Event.request, Phase.request]

/-! ## The invariant -/

/-- What holds of the shared state. -/
structure Sound (deps : DeploymentDeps) (w : World) : Prop where
  single : (successes w.log).length ≤ 1
  recorded : ∀ i, .committed i ∈ w.log → w.instanceId.isSome = true
  metered : deps.budget = true → Metered w.log

/-- Past the check, not answered. -/
def Open (w : World) (i : ℕ) : Prop := .checked i ∈ w.log ∧ .answered i ∉ w.log

/-- The id a request's own record shows in the store before its update. -/
def Repository.shown : Repository → String → Option String
  | .memory, contractId => some contractId
  | .postgres, _ => none

/-- What holds of a request. -/
def Holds (deps : DeploymentDeps) (w : World) : Phase → Prop
  | .received r | .finding r _ => ∀ e ∈ w.log, e.request ≠ r.id
  | .consuming r _ _ _ _ => Open w r.id ∧ successes w.log = [] ∧ w.row.isSome = true ∧ w.instanceId = none ∧
      .deployInstance r.id ∉ w.log
  | .deploying r _ _ _ => Open w r.id ∧ successes w.log = [] ∧ w.row.isSome = true ∧ w.instanceId = none
  | .updating r record contractId => Open w r.id ∧ successes w.log = [(r.id, contractId)] ∧ w.row.isSome = true ∧
      w.instanceId = deps.repository.shown contractId ∧ record.instanceId = some contractId
  | .done _ _ => True

/-- Requests are told apart, and no two are in flight. -/
def Alone (p q : Phase) : Prop := p.request.id ≠ q.request.id ∧ ¬ (p.InFlight ∧ q.InFlight)

theorem Holds.open_of_inFlight (h : Holds deps w p) (hp : p.InFlight) : Open w p.request.id := by
  cases p with
  | received | finding | done => cases hp
  | consuming | deploying | updating => exact h.1

theorem not_open_of_clear (h : Clear w) (i : ℕ) : ¬ Open w i := fun hopen => hopen.2 (h.answered i hopen.1)

/-- A request that passes sees no instance, so nothing has been deployed. -/
theorem Sound.successes_nil (h : Sound deps w) {r : Request} (hpass : Passes r w) (hclear : Clear w) :
    successes w.log = [] ∧ w.row.isSome = true ∧ w.instanceId = none := by
  obtain ⟨record, args, hrow, hinstance, -⟩ := hpass
  have hnone : w.instanceId = none := by
    unfold World.instanceId PolicyRecord.instanceId
    rw [hrow, Option.bind_some, hinstance]
    rfl
  refine ⟨?_, by rw [hrow]; rfl, hnone⟩
  rw [List.eq_nil_iff_forall_not_mem]
  intro s hs
  have hsome := h.recorded s.1 (hclear.recorded s hs)
  rw [hnone] at hsome
  cases hsome

theorem instanceId_assign (i : PolicyInstance) (log : List Event) (h : w.row.isSome = true) (hnone : w.instanceId = none) :
    World.instanceId ⟨deps.repository.assign i w.row, log⟩ = deps.repository.shown i.contractId := by
  obtain ⟨record, hrow⟩ := Option.isSome_iff_exists.mp h
  cases hrep : deps.repository with
  | memory =>
    show (w.row.map (·.withInstance i)).bind (·.instanceId) = some i.contractId
    rw [hrow]
    rfl
  | postgres => exact hnone

theorem instanceId_update {record : PolicyRecord} {contractId : String} (log : List Event) (h : w.row.isSome = true)
    (hshown : w.instanceId = deps.repository.shown contractId) (hrecord : record.instanceId = some contractId) :
    World.instanceId ⟨deps.repository.update record w.row, log⟩ = some contractId := by
  obtain ⟨stored, hrow⟩ := Option.isSome_iff_exists.mp h
  cases hrep : deps.repository with
  | memory =>
    rw [hrep] at hshown
    exact hshown
  | postgres =>
    show (w.row.map fun _ => record).bind (·.instanceId) = some contractId
    rw [hrow]
    exact hrecord

theorem Move.sound (h : Move deps w p p' w') (hw : Sound deps w) (hp : Holds deps w p) : Sound deps w' := by
  cases h with
  | stay | begin => exact hw
  | respond | budget | refused =>
    refine ⟨?_, fun i hi => ?_, fun hbudget => (hw.metered hbudget).append (by simp)⟩
    · simpa [World.add, successes] using hw.single
    · exact hw.recorded i (by simpa [World.add] using hi)
  | unmetered r wallet record args hpass hclear hbudget =>
    refine ⟨?_, fun i hi => ?_, fun h => absurd h (by rw [hbudget]; decide)⟩
    · simpa [World.add, successes] using hw.single
    · exact hw.recorded i (by simpa [World.add] using hi)
  | accepted r wallet record args network =>
    obtain ⟨-, -, -, -, hnot⟩ := hp
    refine ⟨?_, fun i hi => ?_, fun hbudget => ?_⟩
    · simpa [World.add, successes] using hw.single
    · exact hw.recorded i (by simpa [World.add] using hi)
    · show Metered (w.log ++ [_, _])
      rw [List.append_cons]
      refine ((hw.metered hbudget).append (by simp)).snoc fun i hi => ?_
      obtain rfl := Event.deployInstance.inj hi
      exact ⟨by simpa using hnot, network, by simp⟩
  | deploy r wallet record args i =>
    obtain ⟨-, hnone, -, hid⟩ := hp
    refine ⟨?_, fun j hj => ?_, fun hbudget => (hw.metered hbudget).append (by simp)⟩
    · show (successes (w.log ++ [_])).length ≤ 1
      rw [successes_append, hnone]
      exact le_refl 1
    · have hsome := hw.recorded j (by simpa [World.add] using hj)
      rw [hid] at hsome
      cases hsome
  | commit r record contractId response =>
    obtain ⟨-, -, hrow, hshown, hrecord⟩ := hp
    refine ⟨?_, fun j _ => ?_, fun hbudget => (hw.metered hbudget).append (by simp)⟩
    · simpa [World.add, successes] using hw.single
    · rw [World.add, instanceId_update _ hrow hshown hrecord]
      rfl

theorem Move.holds (h : Move deps w p p' w') (hw : Sound deps w) (hp : Holds deps w p) : Holds deps w' p' := by
  cases h with
  | stay | begin => exact hp
  | respond | refused | commit => trivial
  | budget r wallet record args network hpass hclear =>
    obtain ⟨hnone, hrow, hid⟩ := hw.successes_nil hpass hclear
    refine ⟨⟨by simp [World.add], ?_⟩, ?_, hrow, hid, ?_⟩
    · simpa [World.add] using fun hmem => hp _ hmem rfl
    · show successes (w.log ++ [_]) = []
      rw [successes_append, hnone]
      rfl
    · simpa [World.add] using fun hmem => hp _ hmem rfl
  | unmetered r wallet record args hpass hclear hbudget =>
    obtain ⟨hnone, hrow, hid⟩ := hw.successes_nil hpass hclear
    refine ⟨⟨by simp [World.add], ?_⟩, ?_, hrow, hid⟩
    · simpa [World.add] using fun hmem => hp _ hmem rfl
    · show successes (w.log ++ [_, _]) = []
      rw [successes_append, hnone]
      rfl
  | accepted r wallet record args network =>
    obtain ⟨hopen, hnone, hrow, hid, -⟩ := hp
    refine ⟨⟨by simp [World.add, hopen.1], by simp [World.add, hopen.2]⟩, ?_, hrow, hid⟩
    show successes (w.log ++ [_, _]) = []
    rw [successes_append, hnone]
    rfl
  | deploy r wallet record args i =>
    obtain ⟨hopen, hnone, hrow, hid⟩ := hp
    refine ⟨⟨by simp [World.add, hopen.1], by simp [World.add, hopen.2]⟩, ?_, ?_, instanceId_assign i _ hrow hid, rfl⟩
    · show successes (w.log ++ [_]) = _
      rw [successes_append, hnone]
      rfl
    · show (deps.repository.assign i w.row).isSome = true
      cases deps.repository with
      | memory => exact Option.isSome_map.trans hrow
      | postgres => exact hrow

/-- While one request is in flight no other passes, so what it relies on stays. -/
theorem Move.holds_other {q : Phase} (h : Move deps w p p' w') (hp : Holds deps w p) (hq : Holds deps w q)
    (halone : Alone p q) : Holds deps w' q := by
  obtain ⟨events, hlog, hevents⟩ := h.log_eq
  by_cases hflight : q.InFlight
  · have hopen := hq.open_of_inFlight hflight
    have hp' : ¬ p.InFlight := fun hp' => halone.2 ⟨hp', hflight⟩
    cases h with
    | stay | begin => exact hq
    | budget r wallet record args network hpass hclear => exact absurd hopen (not_open_of_clear hclear _)
    | unmetered r wallet record args hpass hclear => exact absurd hopen (not_open_of_clear hclear _)
    | accepted | refused | deploy | commit => exact absurd trivial hp'
    | respond response =>
      have hopen' : Open (w.add [.answered p.request.id]) q.request.id := by
        refine ⟨by simp [World.add, hopen.1], ?_⟩
        simpa [World.add] using ⟨hopen.2, halone.1.symm⟩
      have hsuccesses : successes (w.log ++ [.answered p.request.id]) = successes w.log := by
        rw [successes_append]
        exact List.append_nil _
      cases q with
      | received | finding | done => cases hflight
      | consuming r wallet record args network =>
        obtain ⟨-, hnone, hrow, hid, hnot⟩ := hq
        exact ⟨hopen', hsuccesses.trans hnone, hrow, hid, by simpa [World.add] using hnot⟩
      | deploying r wallet record args =>
        obtain ⟨-, hnone, hrow, hid⟩ := hq
        exact ⟨hopen', hsuccesses.trans hnone, hrow, hid⟩
      | updating r record contractId =>
        obtain ⟨-, hone, hrow, hid, hrecord⟩ := hq
        exact ⟨hopen', hsuccesses.trans hone, hrow, hid, hrecord⟩
  · cases q with
    | received r | finding r wallet =>
      intro e he
      rw [hlog] at he
      rcases List.mem_append.mp he with he | he
      · exact hq e he
      · rw [hevents e he]
        exact halone.1
    | consuming | deploying | updating => exact absurd trivial hflight
    | done => trivial

theorem Move.alone {q : Phase} (h : Move deps w p p' w') (hq : Holds deps w q) (halone : Alone p q) : Alone p' q := by
  refine ⟨by rw [h.request_eq]; exact halone.1, fun hboth => ?_⟩
  have hopen := hq.open_of_inFlight hboth.2
  cases h with
  | stay => exact halone.2 hboth
  | begin | respond | refused | commit => exact hboth.1
  | budget r wallet record args network hpass hclear => exact not_open_of_clear hclear _ hopen
  | unmetered r wallet record args hpass hclear => exact not_open_of_clear hclear _ hopen
  | accepted | deploy => exact halone.2 ⟨trivial, hboth.2⟩

theorem handle_stable : Stable (handle deps) (Orderly deps) (Sound deps) (Holds deps) Alone where
  symm _ _ h := ⟨h.1.symm, fun hboth => h.2 ⟨hboth.2, hboth.1⟩⟩
  shared _ _ _ hG hw hp := (handle_move hG).sound hw hp
  own _ _ _ hG hw hp := (handle_move hG).holds hw hp
  other _ _ _ _ hG _ hp hq halone := (handle_move hG).holds_other hp hq halone
  apart _ _ _ _ hG _ _ hq halone := (handle_move hG).alone hq halone

/-- A step leaves the persisted instance's id. -/
theorem Move.keeps (h : Move deps w p p' w') (hp : Holds deps w p) {contractId : String}
    (hid : w.instanceId = some contractId) : w'.instanceId = some contractId := by
  cases h with
  | stay | begin | respond | budget | unmetered | accepted | refused => exact hid
  | deploy r wallet record args i =>
    obtain ⟨-, -, -, hnone⟩ := hp
    rw [hid] at hnone
    cases hnone
  | commit r record contractId' response =>
    obtain ⟨-, -, hrow, hshown, hrecord⟩ := hp
    rw [World.add, instanceId_update _ hrow hshown hrecord]
    rw [hid] at hshown
    cases hrep : deps.repository with
    | memory =>
      rw [hrep] at hshown
      exact hshown.symm
    | postgres =>
      rw [hrep] at hshown
      cases hshown

end Steps

/-! ## Runs -/

section Runs

variable {deps : DeploymentDeps} {row : Option PolicyRecord} {requests : ℕ → Route × Json}

variable (deps row requests) in
theorem inv_start : Processes.Inv (Sound deps) (Holds deps) Alone (start row requests) where
  shared := ⟨Nat.zero_le 1, fun _ h => (by cases h), fun _ before i after h => (by simp [start] at h)⟩
  own _ _ h := by cases h
  apart _ _ hij := ⟨hij, fun h => h.1⟩

/-- **Deploys of a policy are single and metered in every run of orderly steps**: no request passes the instance check
while another is past it or a deploy is unrecorded, nor on the admin route when a budget is configured. -/
theorem deploys_held {schedule : List (ℕ × Reply)}
    (horderly : Along (step (handle deps)) (fun c a => Orderly deps a.2 (c.procs a.1) c.shared) (start row requests)
      schedule) : DeploysHeld deps row requests schedule := by
  have hinv := handle_stable.inv_upto (inv_start deps row requests) horderly
  have hend := (hinv schedule (List.prefix_refl _)).shared
  refine ⟨hend.single, ?_, hend.metered⟩
  rintro earlier later ⟨between, rfl⟩ ⟨rest, rfl⟩ contractId hid
  have halong := (along_append.mp ((along_append.mp horderly).1)).2
  have hbefore := hinv earlier ((List.prefix_append _ _).trans (List.prefix_append _ _))
  unfold reached
  rw [run_append]
  exact (inv_run (P := fun c => Processes.Inv (Sound deps) (Holds deps) Alone c ∧ c.shared.instanceId = some contractId)
    (fun c a hc hG => ⟨handle_stable.inv_step hc.1 a hG, (handle_move hG).keeps (hc.1.own a.1) hc.2⟩)
    ⟨hbefore, hid⟩ halong).2

end Runs

/-! Requests of one wallet for a policy of 12.5 XLM a day. -/

def spendingRecord : PolicyRecord where
  definition := dailyLimit "12.5"
  policyHash := ""
  schemaVersion := 1
  manifest := ⟨"spending_limit", 1, .policyContract SPENDING_POLICY_WASM_HASH
    (some (.spending ⟨"125000000", DEFAULT_WINDOW_SECONDS, none⟩)), .testnet⟩
  id := "p1"
  createdAt := "2026-07-17T00:00:00.000Z"
  status := .generated
  policyInstance := none

def meteredDeps : DeploymentDeps := ⟨.postgres, true, true, some .testnet⟩

def deployBody : Json := .obj [("wallet", .str "CBZVS2ETJKCIMRRWUHTZFVMWDACJNYUZ54JIXUJCHXNBFNXELKTSWHGP")]

def requestsOn (route : Route) (_ : ℕ) : Route × Json := (route, deployBody)

/-- The steps of one request up to its deploy. -/
def deploySteps (i : ℕ) (contractId : String) : List (ℕ × Reply) :=
  [(i, .succeeds), (i, .succeeds), (i, .consumed .ok), (i, .deployed contractId "tx" "2026-07-17T00:00:01.000Z")]

theorem deploys_held_alone :
    DeploysHeld meteredDeps (some spendingRecord) (requestsOn .policies)
      ([(1, Reply.succeeds)] ++ deploySteps 0 "CA" ++ [(0, .succeeds), (1, .succeeds)]) := by
  have hbody : deployInstanceBody deployBody = some "CBZVS2ETJKCIMRRWUHTZFVMWDACJNYUZ54JIXUJCHXNBFNXELKTSWHGP" := by
    decide
  refine deploys_held ?_
  simp only [deploySteps, List.cons_append, List.nil_append, Along, and_true]
  refine ⟨?_, ?_, ?_, ?_, ?_, ?_, ?_⟩
  · intro r wallet h
    cases h
  · intro r wallet h
    simp [step, start, handle, hbody, meteredDeps, requestsOn] at h
  · intro r wallet h _ _
    simp [step, start, handle, hbody, meteredDeps, requestsOn] at h
    have hlog : (step (handle meteredDeps) (step (handle meteredDeps) (start (some spendingRecord) (requestsOn .policies))
        (1, .succeeds)) (0, .succeeds)).shared.log = [] := by
      simp [step, start, handle, hbody, meteredDeps, requestsOn]
    exact ⟨⟨by simp [hlog], by simp [hlog, successes]⟩, fun _ => ⟨by rw [← h.1], rfl⟩⟩
  all_goals
    -- past its find the first request is asked nothing; the second finds the record with an instance
    intro r wallet h _ hpasses
    obtain ⟨record, args, hrow, hnone, -⟩ := hpasses
    simp [step, start, handle, hbody, meteredDeps, Repository.answer, afterFind, spendingRecord, requestsOn, deployCheck,
      validatePolicyForDeployment, DeploymentDeps.meter, World.add, Repository.update, Repository.assign,
      PolicyRecord.withInstance] at h hrow
  subst hrow
  cases hnone

/-- Two requests past the check deploy twice, and the second instance replaces the first; a retry after a failed update
deploys again; an admin deploy consumes no budget. -/
theorem deploys_twice_and_unmetered :
    (¬ DeploysHeld meteredDeps (some spendingRecord) (requestsOn .policies)
      ([(0, Reply.succeeds), (0, .succeeds)] ++ deploySteps 1 "CB" ++ [(1, Reply.succeeds), (0, .consumed .ok),
        (0, .deployed "CA" "tx" "2026-07-17T00:00:02.000Z"), (0, .succeeds)])) ∧
    (¬ DeploysHeld meteredDeps (some spendingRecord) (requestsOn .policies)
      (deploySteps 0 "CA" ++ [(0, Reply.fails)] ++ deploySteps 1 "CB" ++ [(1, Reply.succeeds)])) ∧
    ¬ DeploysHeld meteredDeps (some spendingRecord) (requestsOn .admin) [(0, .succeeds), (0, .succeeds)] := by
  refine ⟨fun h => ?_, fun h => ?_, fun h => ?_⟩
  · have hkept := h.kept ([(0, Reply.succeeds), (0, .succeeds)] ++ deploySteps 1 "CB" ++ [(1, Reply.succeeds)]) _
      ⟨[(0, .consumed .ok), (0, .deployed "CA" "tx" "2026-07-17T00:00:02.000Z"), (0, .succeeds)], rfl⟩
      (List.prefix_refl _) "CB" (by decide)
    exact absurd hkept (by decide)
  · exact absurd h.single (by decide)
  · have hlog : (reached meteredDeps (some spendingRecord) (requestsOn .admin) [(0, .succeeds), (0, .succeeds)]).shared.log =
        ([.checked 0] : List Event) ++ .deployInstance 0 :: [] := by decide
    obtain ⟨-, network, haccepted⟩ := h.metered rfl _ _ _ hlog
    simp at haccepted

end Vellar.Policy
