import Vellar.Contracts.TokenSpendingLimitRuns
import Vellar.Contracts.VerifiedRecipient
import Vellar.Web.AgentGrants

/-!
# Vellar.Contracts.AgentSpending — what an agent key can spend

The grants of `apps/web/lib/agent-grants.ts` against the contracts that enforce them: the attestation registry, the
verified-recipient gates and the token spending limits of one ledger, called by anyone in any order.  The wallet is not part of the
repository: it is any `checkAuth` that has the policies of a limit asked about each context on its token (`CoSigns`).

* `registry_run`, `budget_run`: each instance goes through a run of its own;
* `agent_within_grants`: an agent held to verified contracts pays only through attested ones, and with each token at most its budget.
-/

set_option autoImplicit false

namespace Vellar.AgentSpending

open Checked Soroban Machine Tumbling
open SpendingLimit (amountOf)
open VerifiedRecipient (Permitted LastWriteAttests)
open TokenSpendingLimit (Moves)
open Web.AgentMint (SignerLimits agentLimits)
open Web.AgentGrants

/-! ## The ledger -/

/-- A call of a verified-recipient instance. -/
inductive GateCall where
  | install (env : Env) (wallet : Address)
  | uninstall (env : Env) (wallet : Address) (getSigner : Option Bool)
  | policy (env : Env) (source : Address) (signer : SignerKey) (contexts : List Context)

def GateCall.env : GateCall → Env
  | .install env _ => env
  | .uninstall env _ _ => env
  | .policy env _ _ _ => env

inductive Contract where
  | registry (s : AttestationRegistry.Storage)
  | gate (s : VerifiedRecipient.Storage)
  | budget (s : TokenSpendingLimit.Storage)

abbrev Chain := Address → Option Contract

def registries (chain : Chain) (a : Address) : Option AttestationRegistry.Storage :=
  match chain a with
  | some (.registry s) => some s
  | _ => none

inductive Call where
  | registry (c : AttestationRegistry.Call)
  | gate (c : GateCall)
  | budget (c : TokenSpendingLimit.Call)

def Call.time : Call → ℕ
  | .registry c => c.env.timestamp
  | .gate c => c.env.timestamp
  | .budget c => c.time

def gateExec (chain : Chain) (s : VerifiedRecipient.Storage) :
    GateCall → Except (Trap VerifiedRecipient.PolicyError) VerifiedRecipient.Storage
  | .install env wallet => VerifiedRecipient.install env s wallet
  | .uninstall _ wallet getSigner => VerifiedRecipient.uninstall s wallet getSigner
  | .policy env source signer contexts => VerifiedRecipient.policy (registries chain) env s source signer contexts

/-- A contract after a call; a call it does not know aborts. -/
def invoke (chain : Chain) : Contract → Call → Contract
  | .registry s, .registry c => .registry (AttestationRegistry.step s c)
  | .gate s, .gate c => .gate (commit s (gateExec chain s c))
  | .budget s, .budget c => .budget (TokenSpendingLimit.step s c)
  | k, _ => k

/-! ## Payments -/

/-- A `policy__` call of the wallet. -/
structure Asked where
  policy : Address
  signer : SignerKey
  contexts : List Context
deriving DecidableEq

/-- A transaction signed by the agent key alone; `others` is what contracts outside the ledger answer. -/
structure Payment where
  timestamp : ℕ
  sequence : ℕ
  contexts : List Context
  others : Asked → Bool

inductive Move where
  | call (a : Address) (c : Call)
  | pay (p : Payment)

def Move.time : Move → ℕ
  | .call _ c => c.time
  | .pay p => p.timestamp

section Payments

-- which policies the wallet asks about which contexts; none where it refuses
variable (checkAuth : SignerLimits → List Context → Option (List Asked)) (limits : SignerLimits) (wallet : Address)

def envOf (p : Payment) (q : Asked) : Env := ⟨p.timestamp, p.sequence, q.policy, [wallet]⟩

def budgetCall (p : Payment) (q : Asked) : TokenSpendingLimit.Call := .policy (envOf wallet p q) wallet q.signer q.contexts

def ask (p : Payment) (chain : Chain) (q : Asked) : Except Unit Chain :=
  match chain q.policy with
  | some (.gate s) =>
    match VerifiedRecipient.policy (registries chain) (envOf wallet p q) s wallet q.signer q.contexts with
    | .ok s' => .ok (Function.update chain q.policy (some (.gate s')))
    | .error _ => .error ()
  | some (.budget s) =>
    match TokenSpendingLimit.exec s (budgetCall wallet p q) with
    | .ok s' => .ok (Function.update chain q.policy (some (.budget s')))
    | .error _ => .error ()
  | some (.registry _) => .error ()
  | none => if p.others q = true then .ok chain else .error ()

/-- The policies are asked one after the other; one refusal aborts the transaction. -/
def pay (chain : Chain) (p : Payment) : Except Unit Chain := do
  let asked ← orStop (checkAuth limits p.contexts) ()
  asked.foldlM (ask wallet p) chain

def step (chain : Chain) : Move → Chain
  | .call a c =>
    match chain a with
    | some k => Function.update chain a (some (invoke chain k c))
    | none => chain
  | .pay p => commit chain (pay checkAuth limits wallet chain p)

def Paid (chain : Chain) (p : Payment) : Prop := ∃ chain', pay checkAuth limits wallet chain p = .ok chain'

/-- The contract a context calls. -/
def target : Context → Option String
  | .contract c => some c.contract.strkey
  | _ => none

/-- What a payment that goes through moves of a token. -/
def paid (token : String) (chain : Chain) : Move → List (ℕ × ℤ)
  | .call _ _ => []
  | .pay p =>
    match pay checkAuth limits wallet chain p with
    | .ok _ => [(p.timestamp, ((p.contexts.filter (target · = some token)).map amountOf).sum)]
    | .error _ => []

end Payments

/-- The wallet lets an agent's contexts through only on the contracts of its limits, and has every policy of a limit asked about
each context on its contract. -/
structure CoSigns (checkAuth : SignerLimits → List Context → Option (List Asked)) : Prop where
  granted : ∀ limits contexts asked, checkAuth limits contexts = some asked →
    ∀ context ∈ contexts, ∃ limit ∈ limits.rows, target context = some limit.1
  asked : ∀ limits contexts asked, checkAuth limits contexts = some asked → ∀ limit ∈ limits.rows, ∀ policy ∈ limit.2,
    (contexts.filter (target · = some limit.1)).Subperm ((asked.filter (·.policy = ⟨policy⟩)).flatMap Asked.contexts)

/-! ## Each instance on its own -/

/-- The calls of a registry. -/
def registryCalls (a : Address) : Move → List AttestationRegistry.Call
  | .call b (.registry c) => if b = a then [c] else []
  | _ => []

section Instances

variable {checkAuth : SignerLimits → List Context → Option (List Asked)} {limits : SignerLimits} {wallet : Address}
  {chain chain' : Chain} {a : Address} {p : Payment}

/-- What asking a policy leaves as it was. -/
structure Frame (chain chain' : Chain) : Prop where
  registry : registries chain' = registries chain
  gate : ∀ a s, chain a = some (.gate s) → chain' a = some (.gate s)

theorem Frame.refl : Frame chain chain := ⟨rfl, fun _ _ h => h⟩

theorem Frame.trans {chain'' : Chain} (h : Frame chain chain') (h' : Frame chain' chain'') : Frame chain chain'' :=
  ⟨h'.registry.trans h.registry, fun a s hs => h'.gate a s (h.gate a s hs)⟩

/-- An instance that is no registry is replaced by another. -/
theorem registries_update {k : Contract} (hold : registries chain a = none) (hk : ∀ s, k ≠ .registry s) :
    registries (Function.update chain a (some k)) = registries chain := by
  funext b
  by_cases hb : b = a
  · subst hb
    rw [hold]
    unfold registries
    rw [Function.update_self]
    cases k with
    | registry s => exact absurd rfl (hk s)
    | gate s => rfl
    | budget s => rfl
  · unfold registries
    rw [Function.update_of_ne hb]

theorem ask_frame {q : Asked} (h : ask wallet p chain q = .ok chain') : Frame chain chain' := by
  unfold ask at h
  split at h
  · next s hs =>
    split at h
    · next s' hpolicy =>
      obtain rfl := Except.ok.inj h
      obtain ⟨-, -, -, -, -, -, -, rfl, -⟩ := VerifiedRecipient.policy_ok.mp hpolicy
      rw [← hs, Function.update_eq_self]
      exact .refl
    · cases h
  · next s hs =>
    split at h
    · next s' _ =>
      obtain rfl := Except.ok.inj h
      refine ⟨registries_update (by unfold registries; rw [hs]) (by simp), fun b t hb => ?_⟩
      have hne : b ≠ q.policy := by
        rintro rfl
        rw [hs] at hb
        cases hb
      rw [Function.update_of_ne hne]
      exact hb
    · cases h
  · cases h
  · split at h
    · exact Except.ok.inj h ▸ .refl
    · cases h

/-- Every policy that was asked accepted, in a ledger with the same registries and gates. -/
theorem asks_accepted {asked : List Asked} (h : asked.foldlM (ask wallet p) chain = .ok chain') :
    Frame chain chain' ∧ ∀ q ∈ asked, ∃ mid mid', Frame chain mid ∧ ask wallet p mid q = .ok mid' := by
  induction asked generalizing chain with
  | nil =>
    obtain rfl : chain = chain' := by simpa using h
    exact ⟨.refl, by simp⟩
  | cons q asked ih =>
    obtain ⟨mid, hq, hrest⟩ := foldlM_cons_ok.mp h
    have hframe := ask_frame hq
    obtain ⟨hframe', hall⟩ := ih hrest
    refine ⟨hframe.trans hframe', fun q' hq' => ?_⟩
    rcases List.mem_cons.mp hq' with rfl | hq'
    · exact ⟨chain, mid, .refl, hq⟩
    · obtain ⟨mid', mid'', hmid, hask⟩ := hall q' hq'
      exact ⟨mid', mid'', hframe.trans hmid, hask⟩

theorem pay_ok : pay checkAuth limits wallet chain p = .ok chain' ↔
    ∃ asked, checkAuth limits p.contexts = some asked ∧ asked.foldlM (ask wallet p) chain = .ok chain' := by
  unfold pay
  simp only [bind_ok, orStop_ok]

/-- A call leaves the other addresses alone. -/
theorem step_call_ne {b : Address} (hb : b ≠ a) (c : Call) :
    step checkAuth limits wallet chain (.call b c) a = chain a := by
  simp only [step]
  cases chain b with
  | none => rfl
  | some k => exact Function.update_of_ne (Ne.symm hb) _ _

theorem registry_step {s : AttestationRegistry.Storage} (h : chain a = some (.registry s)) (m : Move) :
    step checkAuth limits wallet chain m a = some (.registry (run AttestationRegistry.step s (registryCalls a m))) := by
  have hregistries : ∀ {chain' : Chain}, registries chain' = registries chain → chain' a = some (.registry s) := by
    intro chain' hsame
    have hs : registries chain' a = some s := by
      rw [hsame]
      unfold registries
      rw [h]
    unfold registries at hs
    split at hs
    · next s' hs' => exact Option.some.inj hs ▸ hs'
    · cases hs
  cases m with
  | pay p =>
    cases hpay : pay checkAuth limits wallet chain p with
    | error u => simpa [step, hpay, registryCalls] using h
    | ok chain' =>
      obtain ⟨asked, -, hfold⟩ := pay_ok.mp hpay
      simpa [step, hpay, registryCalls] using hregistries (asks_accepted hfold).1.registry
  | call b c =>
    by_cases hb : b = a
    · subst hb
      simp only [step, h, Function.update_self]
      cases c <;> simp [invoke, registryCalls]
    · have hcalls : registryCalls a (.call b c) = [] := by cases c <;> simp [registryCalls, hb]
      rw [hcalls, step_call_ne hb]
      exact h

/-- **A registry** goes through the run of its own calls. -/
theorem registry_run {s : AttestationRegistry.Storage} (h : chain a = some (.registry s)) (moves : List Move) :
    run (step checkAuth limits wallet) chain moves a =
      some (.registry (run AttestationRegistry.step s (moves.flatMap (registryCalls a)))) := by
  induction moves generalizing chain s with
  | nil => exact h
  | cons m moves ih =>
    rw [run_cons, ih (registry_step h m), List.flatMap_cons, run_append]

theorem gate_step {s : VerifiedRecipient.Storage} (h : chain a = some (.gate s)) (m : Move) :
    ∃ s', step checkAuth limits wallet chain m a = some (.gate s') ∧ s'.config = s.config := by
  cases m with
  | pay p =>
    cases hpay : pay checkAuth limits wallet chain p with
    | error u => exact ⟨s, by simpa [step, hpay] using h, rfl⟩
    | ok chain' =>
      obtain ⟨asked, -, hfold⟩ := pay_ok.mp hpay
      exact ⟨s, by simpa [step, hpay] using (asks_accepted hfold).1.gate a s h, rfl⟩
  | call b c =>
    by_cases hb : b = a
    · subst hb
      simp only [step, h, Function.update_self]
      cases c with
      | registry c => exact ⟨s, rfl, rfl⟩
      | budget c => exact ⟨s, rfl, rfl⟩
      | gate c =>
        refine ⟨_, rfl, ?_⟩
        cases hexec : gateExec chain s c with
        | error e => rfl
        | ok s' =>
          rw [commit_ok]
          cases c with
          | install env wallet =>
            simp only [gateExec, VerifiedRecipient.install, bind_ok, pure_ok] at hexec
            obtain ⟨-, -, -, -, -, -, rfl⟩ := hexec
            rfl
          | uninstall env wallet getSigner =>
            simp only [gateExec, VerifiedRecipient.uninstall, bind_ok, pure_ok] at hexec
            obtain ⟨-, -, -, -, rfl⟩ := hexec
            rfl
          | policy env source signer contexts =>
            have hok : VerifiedRecipient.policy (registries chain) env s source signer contexts = .ok s' := hexec
            obtain ⟨-, -, -, -, -, -, -, rfl, -⟩ := VerifiedRecipient.policy_ok.mp hok
            rfl
    · exact ⟨s, (step_call_ne hb c).trans h, rfl⟩

/-- **A gate** keeps its configuration. -/
theorem gate_run {s : VerifiedRecipient.Storage} (h : chain a = some (.gate s)) (moves : List Move) :
    ∃ s', run (step checkAuth limits wallet) chain moves a = some (.gate s') ∧ s'.config = s.config := by
  induction moves generalizing chain s with
  | nil => exact ⟨s, h, rfl⟩
  | cons m moves ih =>
    obtain ⟨s', hs', hcfg⟩ := @gate_step checkAuth limits wallet _ _ _ h m
    obtain ⟨s'', hs'', hcfg'⟩ := ih hs'
    exact ⟨s'', hs'', hcfg'.trans hcfg⟩

end Instances

/-! ## Budgets -/

section Budgets

variable {checkAuth : SignerLimits → List Context → Option (List Asked)} {limits : SignerLimits} {wallet : Address}
  {chain chain' : Chain} {a : Address} {p : Payment} {s : TokenSpendingLimit.Storage} {config : TokenSpendingLimit.Config}

/-- The calls that a payment's policies make of one instance. -/
def askedCalls (wallet a : Address) (p : Payment) (asked : List Asked) : List TokenSpendingLimit.Call :=
  (asked.filter (·.policy = a)).map (budgetCall wallet p)

/-- The calls of a token spending limit: direct ones, and those of payments that go through. -/
def budgetCalls (checkAuth : SignerLimits → List Context → Option (List Asked)) (limits : SignerLimits) (wallet a : Address)
    (chain : Chain) : Move → List TokenSpendingLimit.Call
  | .call b (.budget c) => if b = a then [c] else []
  | .pay p =>
    match checkAuth limits p.contexts, pay checkAuth limits wallet chain p with
    | some asked, .ok _ => askedCalls wallet a p asked
    | _, _ => []
  | _ => []

def Accepts (s : TokenSpendingLimit.Storage) (c : TokenSpendingLimit.Call) : Prop := ∃ s', TokenSpendingLimit.exec s c = .ok s'

/-- The policies of a payment run the instance through calls that it accepts. -/
theorem asks_budget {asked : List Asked} (h : asked.foldlM (ask wallet p) chain = .ok chain') (hs : chain a = some (.budget s)) :
    chain' a = some (.budget (run TokenSpendingLimit.step s (askedCalls wallet a p asked))) ∧
      Along TokenSpendingLimit.step Accepts s (askedCalls wallet a p asked) := by
  induction asked generalizing chain s with
  | nil =>
    obtain rfl : chain = chain' := by simpa using h
    exact ⟨hs, trivial⟩
  | cons q asked ih =>
    obtain ⟨mid, hq, hrest⟩ := foldlM_cons_ok.mp h
    by_cases hqa : q.policy = a
    · have hcalls : askedCalls wallet a p (q :: asked) = budgetCall wallet p q :: askedCalls wallet a p asked := by
        simp [askedCalls, hqa]
      have hmid : ∃ s', TokenSpendingLimit.exec s (budgetCall wallet p q) = .ok s' ∧ mid a = some (.budget s') := by
        unfold ask at hq
        rw [hqa, hs] at hq
        simp only at hq
        split at hq
        · next s' hexec =>
          obtain rfl := Except.ok.inj hq
          exact ⟨s', hexec, Function.update_self _ _ _⟩
        · cases hq
      obtain ⟨s', hexec, hmid⟩ := hmid
      have hstep : TokenSpendingLimit.step s (budgetCall wallet p q) = s' := by simp [TokenSpendingLimit.step, hexec]
      obtain ⟨hend, halong⟩ := ih hrest hmid
      rw [hcalls, run_cons, hstep]
      refine ⟨hend, ⟨s', hexec⟩, ?_⟩
      rw [hstep]
      exact halong
    · have hcalls : askedCalls wallet a p (q :: asked) = askedCalls wallet a p asked := by simp [askedCalls, hqa]
      have hmid : mid a = some (.budget s) := by
        unfold ask at hq
        split at hq
        · split at hq
          · obtain rfl := Except.ok.inj hq
            rw [Function.update_of_ne (Ne.symm hqa)]
            exact hs
          · cases hq
        · split at hq
          · obtain rfl := Except.ok.inj hq
            rw [Function.update_of_ne (Ne.symm hqa)]
            exact hs
          · cases hq
        · cases hq
        · split at hq
          · exact Except.ok.inj hq ▸ hs
          · cases hq
      rw [hcalls]
      exact ih hrest hmid

theorem budget_step (h : chain a = some (.budget s)) (m : Move) : step checkAuth limits wallet chain m a =
    some (.budget (run TokenSpendingLimit.step s (budgetCalls checkAuth limits wallet a chain m))) := by
  cases m with
  | pay p =>
    cases hpay : pay checkAuth limits wallet chain p with
    | error u =>
      have hnone : budgetCalls checkAuth limits wallet a chain (.pay p) = [] := by
        unfold budgetCalls
        simp only [hpay]
        split <;> simp_all
      rw [hnone]
      simpa [step, hpay] using h
    | ok chain' =>
      obtain ⟨asked, hasked, hfold⟩ := pay_ok.mp hpay
      simpa [step, hpay, budgetCalls, hasked] using (asks_budget hfold h).1
  | call b c =>
    by_cases hb : b = a
    · subst hb
      simp only [step, h, Function.update_self]
      cases c <;> simp [invoke, budgetCalls]
    · have hcalls : budgetCalls checkAuth limits wallet a chain (.call b c) = [] := by cases c <;> simp [budgetCalls, hb]
      rw [hcalls, step_call_ne hb]
      exact h

/-- **A token spending limit** goes through the run of its own calls. -/
theorem budget_run (h : chain a = some (.budget s)) (moves : List Move) : run (step checkAuth limits wallet) chain moves a =
    some (.budget (run TokenSpendingLimit.step s
      (logOf (step checkAuth limits wallet) (budgetCalls checkAuth limits wallet a) chain moves))) := by
  induction moves generalizing chain s with
  | nil => exact h
  | cons m moves ih =>
    rw [run_cons, ih (budget_step h m), logOf, run_append]

theorem budgetCalls_time {m : Move} {c : TokenSpendingLimit.Call} (h : c ∈ budgetCalls checkAuth limits wallet a chain m) :
    c.time = m.time := by
  unfold budgetCalls at h
  split at h
  · next b c' =>
    split at h
    · obtain rfl := List.mem_singleton.mp h
      rfl
    · cases h
  · split at h
    · obtain ⟨q, -, rfl⟩ := List.mem_map.mp h
      rfl
    · cases h
  · cases h

/-- No call of the move uninstalls the instance. -/
def Stays (a : Address) (chain : Chain) : Move → Prop
  | .call b (.budget c) => b = a → ∀ s, chain a = some (.budget s) → TokenSpendingLimit.NotUninstalled s c
  | _ => True

theorem stays_calls (h : chain a = some (.budget s)) {m : Move} (hm : Stays a chain m) :
    Along TokenSpendingLimit.step TokenSpendingLimit.NotUninstalled s (budgetCalls checkAuth limits wallet a chain m) := by
  have hpolicies : ∀ (qs : List Asked) (p : Payment) (s : TokenSpendingLimit.Storage),
      Along TokenSpendingLimit.step TokenSpendingLimit.NotUninstalled s (qs.map (budgetCall wallet p)) := by
    intro qs p
    induction qs with
    | nil => exact fun _ => trivial
    | cons q qs ih => exact fun s => ⟨trivial, ih _⟩
  unfold budgetCalls
  split
  · next b c =>
    split
    · next hb => exact ⟨hm hb s h, trivial⟩
    · trivial
  · split
    · exact hpolicies _ _ s
    · trivial
  · trivial

theorem stays_run (h : chain a = some (.budget s)) {moves : List Move} (hm : Along (step checkAuth limits wallet) (Stays a) chain moves) :
    Along TokenSpendingLimit.step TokenSpendingLimit.NotUninstalled s
      (logOf (step checkAuth limits wallet) (budgetCalls checkAuth limits wallet a) chain moves) := by
  induction moves generalizing chain s with
  | nil => trivial
  | cons m moves ih => exact along_append.mpr ⟨stays_calls h hm.1, ih (budget_step h m) hm.2⟩

theorem mem_budgetRun {moves : List Move} {c : TokenSpendingLimit.Call}
    (h : c ∈ logOf (step checkAuth limits wallet) (budgetCalls checkAuth limits wallet a) chain moves) : ∃ m ∈ moves, c.time = m.time := by
  induction moves generalizing chain with
  | nil => cases h
  | cons m moves ih =>
    rcases List.mem_append.mp h with h | h
    · exact ⟨m, List.mem_cons_self, budgetCalls_time h⟩
    · obtain ⟨m', hm', htime⟩ := ih h
      exact ⟨m', List.mem_cons_of_mem _ hm', htime⟩

theorem budgetRun_clock {moves : List Move} (hclock : moves.Pairwise fun m m' => m.time ≤ m'.time) :
    (logOf (step checkAuth limits wallet) (budgetCalls checkAuth limits wallet a) chain moves).Pairwise fun c c' => c.time ≤ c'.time := by
  induction moves generalizing chain with
  | nil => exact .nil
  | cons m moves ih =>
    obtain ⟨hfirst, hrest⟩ := List.pairwise_cons.mp hclock
    refine List.pairwise_append.mpr ⟨?_, ih hrest, fun c hc c' hc' => ?_⟩
    · refine List.pairwise_of_forall_mem_list fun c hc c' hc' => ?_
      rw [budgetCalls_time hc, budgetCalls_time hc']
    · obtain ⟨m', hm', htime⟩ := mem_budgetRun hc'
      rw [budgetCalls_time hc, htime]
      exact hfirst m' hm'

/-! ## What is paid is charged -/

/-- Accepted calls charge all that their contexts move, at the time of the payment. -/
theorem charged {qs : List Asked} (hcfg : s.config = some config) (hW : 1 ≤ config.windowSeconds)
    (h : Along TokenSpendingLimit.step Accepts s (qs.map (budgetCall wallet p))) :
    let log := logOf TokenSpendingLimit.step TokenSpendingLimit.authorized s (qs.map (budgetCall wallet p))
    (∀ e ∈ log, e.time = p.timestamp) ∧ (log.map Charge.amount).sum = ((qs.flatMap Asked.contexts).map amountOf).sum ∧
      ∀ context ∈ qs.flatMap Asked.contexts, Moves wallet config.token context := by
  induction qs generalizing s with
  | nil => exact ⟨by simp [logOf], rfl, by simp⟩
  | cons q qs ih =>
    obtain ⟨⟨s', hexec⟩, hrest⟩ := h
    have hstep : TokenSpendingLimit.step s (budgetCall wallet p q) = s' := by simp [TokenSpendingLimit.step, hexec]
    rw [hstep] at hrest
    have hok : TokenSpendingLimit.policy (envOf wallet p q) s wallet q.signer q.contexts = .ok s' := hexec
    obtain ⟨-, hmoves, hcfg', m', hm', -⟩ := TokenSpendingLimit.policy_charges hcfg hW hok
    have hout := TokenSpendingLimit.authorized_policy hexec hm'
    obtain ⟨htime, hsum, hall⟩ := ih (hcfg'.trans hcfg) hrest
    simp only [List.map_cons, logOf, hstep]
    rw [show TokenSpendingLimit.authorized s (budgetCall wallet p q) = _ from hout]
    refine ⟨?_, ?_, ?_⟩
    · intro e he
      rcases List.mem_cons.mp he with rfl | he
      · rfl
      · exact htime e he
    · rw [List.singleton_append, List.map_cons, List.sum_cons, hsum, List.flatMap_cons, List.map_append, List.sum_append]
    · intro context hcontext
      rw [List.flatMap_cons] at hcontext
      rcases List.mem_append.mp hcontext with hcontext | hcontext
      · exact hmoves context hcontext
      · exact hall context hcontext

/-- What is paid with a token is asked of each policy of its limit, and charged there. -/
theorem pay_charged (hwallet : CoSigns checkAuth) (hs : chain a = some (.budget s)) (hcfg : s.config = some config)
    (hW : 1 ≤ config.windowSeconds) {limit : String × List String} (hlimit : limit ∈ limits.rows) (ha : a.strkey ∈ limit.2)
    (hpay : pay checkAuth limits wallet chain p = .ok chain') :
    let log := logOf TokenSpendingLimit.step TokenSpendingLimit.authorized s (budgetCalls checkAuth limits wallet a chain (.pay p))
    (∀ e ∈ log, e.time = p.timestamp) ∧
      ((p.contexts.filter (target · = some limit.1)).map amountOf).sum ≤ (log.map Charge.amount).sum ∧
      ∀ context ∈ p.contexts, target context = some limit.1 → Moves wallet ⟨limit.1⟩ context := by
  obtain ⟨asked, hasked, hfold⟩ := pay_ok.mp hpay
  have hcalls : budgetCalls checkAuth limits wallet a chain (.pay p) = (asked.filter (·.policy = a)).map (budgetCall wallet p) := by
    simp only [budgetCalls, hasked, hpay, askedCalls]
  rw [hcalls]
  obtain ⟨htime, hsum, hmoves⟩ := charged hcfg hW (asks_budget hfold hs).2
  obtain ⟨l, hperm, hsub⟩ := hwallet.asked limits p.contexts asked hasked limit hlimit a.strkey ha
  have hall : ∀ context ∈ l, Moves wallet config.token context := fun context hcontext => hmoves context (hsub.subset hcontext)
  refine ⟨htime, ?_, fun context hcontext htarget => ?_⟩
  · rw [hsum, ← (hperm.map amountOf).sum_eq]
    refine (hsub.map amountOf).sum_le_sum fun amount hamount => ?_
    obtain ⟨context, hcontext, rfl⟩ := List.mem_map.mp hamount
    exact (hmoves context hcontext).amount_pos.le
  · have hmem : context ∈ l := hperm.symm.subset (List.mem_filter.mpr ⟨hcontext, by simpa using htarget⟩)
    obtain ⟨args, amount, rfl, hrest⟩ := hall context hmem
    have htoken : config.token = ⟨limit.1⟩ := by
      have hstrkey : config.token.strkey = limit.1 := Option.some.inj htarget
      rw [← hstrkey]
    rw [← htoken]
    exact ⟨args, amount, rfl, hrest⟩

/-! ## Sums over a run -/

/-- What was paid from `start` on, in a time of `W`. -/
def paidWithin (start W : ℕ) (log : List (ℕ × ℤ)) : ℤ := ((log.filter fun e => start ≤ e.1 ∧ e.1 < start + W).map Prod.snd).sum

theorem paidWithin_append (start W : ℕ) (log log' : List (ℕ × ℤ)) :
    paidWithin start W (log ++ log') = paidWithin start W log + paidWithin start W log' := by
  simp [paidWithin]

theorem sumOf_append (near : Charge ℕ ℤ → Prop) [DecidablePred near] (log log' : List (Charge ℕ ℤ)) :
    sumOf near (log ++ log') = sumOf near log + sumOf near log' := by
  simp [sumOf]

/-- Charges of one time are all near it, or none is. -/
theorem sumOf_same_time {start W t : ℕ} {log : List (Charge ℕ ℤ)} (h : ∀ e ∈ log, e.time = t) :
    sumOf (fun e => start ≤ e.time ∧ e.time < start + W) log =
      if start ≤ t ∧ t < start + W then (log.map Charge.amount).sum else 0 := by
  induction log with
  | nil => simp
  | cons e log ih =>
    obtain ⟨he, hlog⟩ := List.forall_mem_cons.mp h
    rw [sumOf_cons, ih hlog, he]
    split
    · rw [List.map_cons, List.sum_cons]
    · rw [add_zero]

theorem authorized_nonneg (hcfg : s.config = some config) (hW : 1 ≤ config.windowSeconds) {c : TokenSpendingLimit.Call}
    (hc : TokenSpendingLimit.NotUninstalled s c) : ∀ e ∈ TokenSpendingLimit.authorized s c, 0 ≤ e.amount := by
  intro e he
  rcases (TokenSpendingLimit.step_metered hcfg hW hc).2 with ⟨hnone, -⟩ | ⟨amount, m', hpos, -, -, hout⟩
  · rw [hnone] at he
    cases he
  · rw [hout] at he
    obtain rfl := List.mem_singleton.mp he
    exact hpos

/-- One move: what it pays within a time, its calls charge within that time. -/
theorem paid_le_charged (hwallet : CoSigns checkAuth) (hs : chain a = some (.budget s)) (hcfg : s.config = some config)
    (hW : 1 ≤ config.windowSeconds) {limit : String × List String} (hlimit : limit ∈ limits.rows) (ha : a.strkey ∈ limit.2)
    (start W : ℕ) {m : Move} (hm : Stays a chain m) : paidWithin start W (paid checkAuth limits wallet limit.1 chain m) ≤
      sumOf (fun e => start ≤ e.time ∧ e.time < start + W)
        (logOf TokenSpendingLimit.step TokenSpendingLimit.authorized s (budgetCalls checkAuth limits wallet a chain m)) := by
  cases m with
  | call b c =>
    refine sumOf_nonneg fun e he => ?_
    cases c with
    | registry c => cases he
    | gate c => cases he
    | budget c =>
      simp only [budgetCalls] at he
      split at he
      · next hb =>
        rw [logOf, logOf, List.append_nil] at he
        exact authorized_nonneg hcfg hW (hm hb s hs) e he
      · cases he
  | pay p =>
    cases hpay : pay checkAuth limits wallet chain p with
    | error u =>
      have hpaid : paid checkAuth limits wallet limit.1 chain (.pay p) = [] := by simp only [paid, hpay]
      have hcalls : budgetCalls checkAuth limits wallet a chain (.pay p) = [] := by
        simp only [budgetCalls, hpay]
        split <;> simp_all
      rw [hpaid, hcalls]
      exact le_rfl
    | ok chain' =>
      obtain ⟨htime, hsum, -⟩ := pay_charged hwallet hs hcfg hW hlimit ha hpay
      rw [sumOf_same_time htime]
      simp only [paid, hpay, paidWithin]
      by_cases hnear : start ≤ p.timestamp ∧ p.timestamp < start + W
      · simpa [hnear] using hsum
      · simp [hnear]

theorem config_run {calls : List TokenSpendingLimit.Call} (hcfg : s.config = some config) (hW : 1 ≤ config.windowSeconds)
    (hkeep : Along TokenSpendingLimit.step TokenSpendingLimit.NotUninstalled s calls) :
    (run TokenSpendingLimit.step s calls).config = some config :=
  inv_run (P := fun s => s.config = some config) (fun _ _ hs hc => (TokenSpendingLimit.step_metered hs hW hc).1) hcfg hkeep

/-- A run: what is paid within a time is charged within it. -/
theorem paid_run_le (hwallet : CoSigns checkAuth) (hs : chain a = some (.budget s)) (hcfg : s.config = some config)
    (hW : 1 ≤ config.windowSeconds) {limit : String × List String} (hlimit : limit ∈ limits.rows) (ha : a.strkey ∈ limit.2)
    (start W : ℕ) {moves : List Move} (hm : Along (step checkAuth limits wallet) (Stays a) chain moves) :
    paidWithin start W (logOf (step checkAuth limits wallet) (paid checkAuth limits wallet limit.1) chain moves) ≤
      sumOf (fun e => start ≤ e.time ∧ e.time < start + W)
        (logOf TokenSpendingLimit.step TokenSpendingLimit.authorized s
          (logOf (step checkAuth limits wallet) (budgetCalls checkAuth limits wallet a) chain moves)) := by
  induction moves generalizing chain s with
  | nil => exact le_rfl
  | cons m moves ih =>
    have hrest := ih (budget_step hs m) (config_run hcfg hW (stays_calls hs hm.1)) hm.2
    simp only [logOf, logOf_append, paidWithin_append, sumOf_append]
    exact add_le_add (paid_le_charged hwallet hs hcfg hW hlimit ha start W hm.1) hrest

end Budgets

/-! ## The gate -/

section Gates

variable {checkAuth : SignerLimits → List Context → Option (List Asked)} {limits : SignerLimits} {wallet : Address}
  {chain : Chain} {p : Payment}

/-- A gate of a limit was asked about each context on its token, and let it through. -/
theorem gate_accepts (hwallet : CoSigns checkAuth) {a : Address} {s : VerifiedRecipient.Storage} (hs : chain a = some (.gate s))
    {limit : String × List String} (hlimit : limit ∈ limits.rows) (ha : a.strkey ∈ limit.2)
    (hpaid : Paid checkAuth limits wallet chain p) {context : Context} (hcontext : context ∈ p.contexts)
    (htarget : target context = some limit.1) : ∃ q : Asked, context ∈ q.contexts ∧
      VerifiedRecipient.policy (registries chain) (envOf wallet p q) s wallet q.signer q.contexts = .ok s := by
  obtain ⟨chain', hpay⟩ := hpaid
  obtain ⟨asked, hasked, hfold⟩ := pay_ok.mp hpay
  have hmem := (hwallet.asked limits p.contexts asked hasked limit hlimit a.strkey ha).subset
    (List.mem_filter.mpr ⟨hcontext, by simpa using htarget⟩)
  obtain ⟨q, hq, hin⟩ := List.mem_flatMap.mp hmem
  obtain ⟨hqasked, hqa⟩ := List.mem_filter.mp hq
  have hpolicy : q.policy = a := by simpa using hqa
  obtain ⟨mid, mid', hframe, hask⟩ := (asks_accepted hfold).2 q hqasked
  refine ⟨q, hin, ?_⟩
  unfold ask at hask
  rw [hpolicy, hframe.gate a s hs, hframe.registry] at hask
  simp only at hask
  split at hask
  · next s' hok =>
    obtain ⟨-, -, -, -, -, -, -, hsame, -⟩ := VerifiedRecipient.policy_ok.mp hok
    rw [← hsame] at hok
    exact hok
  · cases hask

/-- What a gate lets through is permitted, and attested by the last write of the registry. -/
theorem gate_attests {registry attestor : Address} {s : VerifiedRecipient.Storage} {mode : VerifiedRecipient.ProvenanceMode}
    {writes : List AttestationRegistry.Call} (hcfg : s.config = some ⟨wallet, registry, mode⟩)
    (hregistry : chain registry = some (.registry (run AttestationRegistry.step (AttestationRegistry.constructor attestor) writes)))
    {q : Asked} (hok : VerifiedRecipient.policy (registries chain) (envOf wallet p q) s wallet q.signer q.contexts = .ok s)
    {context : Context} (hcontext : context ∈ q.contexts) :
    ∃ contract, Permitted wallet context contract ∧ LastWriteAttests attestor writes mode p.sequence contract := by
  obtain ⟨-, config, hconfig, -, -, -, -, -, hall⟩ := VerifiedRecipient.policy_ok.mp hok
  obtain rfl := Option.some.inj (hcfg.symm.trans hconfig)
  obtain ⟨contract, hpermitted, hprovenance⟩ := hall context hcontext
  have hreg : registries chain registry = some (run AttestationRegistry.step (AttestationRegistry.constructor attestor) writes) := by
    unfold registries
    rw [hregistry]
  exact ⟨contract, hpermitted,
    VerifiedRecipient.lastWriteAttests_iff.mpr ((VerifiedRecipient.checkProvenance_ok hreg).mp hprovenance)⟩

end Gates

/-! ## The agent -/

/-- **An agent stays within its grants**, whoever calls which contract in between: held to verified contracts, each context it pays is
permitted on a granted token whose last registry write attests it at that ledger; and each spending limit of a granted token, until
it is uninstalled, lets it pay that token by positive transfers only, at most twice its limit in any time of its window. -/
theorem agent_within_grants {isValidContract : String → Bool} {input : AgentGrantInput} {built : Built} {limits : SignerLimits}
    {checkAuth : SignerLimits → List Context → Option (List Asked)} {wallet : Address} {chain : Chain} {moves : List Move}
    (hbuilt : buildAgentGrants isValidContract input = .ok built) (hlimits : agentLimits built.grants = .ok limits)
    (hwallet : CoSigns checkAuth) (hclock : moves.Pairwise fun m m' => m.time ≤ m'.time) :
    (∀ gate registry attestor mode s, input.verification = .verifiedOnly gate → chain ⟨gate⟩ = some (.gate s) →
      VerifiedRecipient.constructor wallet registry mode = .ok s →
      chain registry = some (.registry (AttestationRegistry.constructor attestor)) →
      ∀ pre p, pre ++ [.pay p] <+: moves → Paid checkAuth limits wallet (run (step checkAuth limits wallet) chain pre) p →
        ∀ context ∈ p.contexts, ∃ contract, contract.strkey ∈ tokensOf input ∧ Permitted wallet context contract ∧
          LastWriteAttests attestor (pre.flatMap (registryCalls registry)) mode p.sequence contract) ∧
    (∀ token ∈ tokensOf input, ∀ policy ∈ budgetOf input token, ∀ bound dailyLimit windowSeconds s,
      chain ⟨policy⟩ = some (.budget s) → TokenSpendingLimit.constructor wallet bound dailyLimit windowSeconds = .ok s →
      Along (step checkAuth limits wallet) (Stays ⟨policy⟩) chain moves →
      (∀ pre p, pre ++ [.pay p] <+: moves → Paid checkAuth limits wallet (run (step checkAuth limits wallet) chain pre) p →
        ∀ context ∈ p.contexts, target context = some token → Moves wallet ⟨token⟩ context) ∧
      ∀ start, paidWithin start windowSeconds (logOf (step checkAuth limits wallet) (paid checkAuth limits wallet token) chain moves) ≤
        2 * dailyLimit.val) := by
  obtain ⟨limits', hlimits', hrows⟩ := agentLimits_built hbuilt
  obtain rfl := Except.ok.inj (hlimits'.symm.trans hlimits)
  refine ⟨fun gate registry attestor mode s hmode hgate hctor hregistry pre p hpre hpaid context hcontext => ?_,
    fun token htoken policy hpolicy bound dailyLimit windowSeconds s hs hctor hstays => ?_⟩
  · obtain ⟨chain', hpay⟩ := hpaid
    obtain ⟨asked, hasked, -⟩ := pay_ok.mp hpay
    obtain ⟨limit, hlimit, htarget⟩ := hwallet.granted _ _ _ hasked context hcontext
    obtain ⟨token, htoken, rfl⟩ := List.mem_map.mp (hrows ▸ hlimit)
    have hcosigner : gate ∈ coSigners input.verification (budgetOf input token) := by
      rw [hmode]
      exact List.mem_append_right _ List.mem_cons_self
    obtain ⟨-, rfl⟩ := VerifiedRecipient.constructor_ok.mp hctor
    obtain ⟨s', hs', hcfg⟩ := @gate_run checkAuth limits' wallet _ _ _ hgate pre
    obtain ⟨q, hin, hok⟩ := gate_accepts hwallet hs' hlimit hcosigner ⟨chain', hpay⟩ hcontext htarget
    obtain ⟨contract, hpermitted, hattests⟩ := gate_attests hcfg (registry_run hregistry pre) hok hin
    refine ⟨contract, ?_, hpermitted, hattests⟩
    obtain ⟨c, rfl, rfl, -⟩ := hpermitted
    exact Option.some.inj htarget ▸ htoken
  · have hlimit : (token, coSigners input.verification (budgetOf input token)) ∈ limits'.rows :=
      hrows ▸ List.mem_map_of_mem htoken
    have hcosigner : policy ∈ coSigners input.verification (budgetOf input token) := by
      unfold coSigners
      split
      · exact List.mem_append_left _ hpolicy
      · exact hpolicy
    obtain ⟨-, ⟨hwindow, -⟩, rfl⟩ := TokenSpendingLimit.constructor_ok.mp hctor
    refine ⟨fun pre p hpre hpaid context hcontext htarget => ?_, fun start => ?_⟩
    · obtain ⟨chain', hpay⟩ := hpaid
      obtain ⟨post, hmoves⟩ := hpre
      rw [List.append_assoc] at hmoves
      have hbefore : Along (step checkAuth limits' wallet) (Stays ⟨policy⟩) chain pre := (along_append.mp (hmoves ▸ hstays)).1
      exact (pay_charged hwallet (budget_run hs pre) (config_run rfl hwindow (stays_run hs hbefore)) hwindow hlimit hcosigner
        hpay).2.2 context hcontext htarget
    · refine (paid_run_le hwallet hs rfl hwindow hlimit hcosigner start windowSeconds hstays).trans ?_
      have hinv := TokenSpendingLimit.run_inv hctor (budgetRun_clock hclock) (stays_run hs hstays)
      rw [two_mul]
      exact hinv.sum_near_le (fun t : ℕ => start ≤ t ∧ t < start + windowSeconds) fun x y hx hy => by omega

/-! ### A wallet that asks each policy about each context, and one payment -/

def askEach (limits : SignerLimits) : List Context → Option (List Asked)
  | [] => some []
  | context :: rest => do
    let contract ← target context
    let limit ← limits.find contract
    let asked ← askEach limits rest
    some (limit.2.map (fun policy => ⟨⟨policy⟩, .policy ⟨policy⟩, [context]⟩) ++ asked)

theorem askEach_cons {limits : SignerLimits} {context : Context} {rest : List Context} {asked : List Asked}
    (h : askEach limits (context :: rest) = some asked) : ∃ limit asked', limit ∈ limits.rows ∧ target context = some limit.1 ∧
      askEach limits rest = some asked' ∧
      asked = limit.2.map (fun policy => ⟨⟨policy⟩, .policy ⟨policy⟩, [context]⟩) ++ asked' := by
  obtain ⟨contract, htarget, hlimit⟩ := Option.bind_eq_some_iff.mp h
  obtain ⟨limit, hfind, hrest⟩ := Option.bind_eq_some_iff.mp hlimit
  obtain ⟨asked', hasked, hall⟩ := Option.bind_eq_some_iff.mp hrest
  obtain ⟨hmem, hname⟩ := Table.mem_of_find hfind
  exact ⟨limit, asked', hmem, hname ▸ htarget, hasked, (Option.some.inj hall).symm⟩

theorem askEach_coSigns : CoSigns askEach where
  granted := by
    intro limits contexts
    induction contexts with
    | nil => simp
    | cons context rest ih =>
      intro asked h context' hcontext'
      obtain ⟨limit, asked', hmem, htarget, hrest, -⟩ := askEach_cons h
      rcases List.mem_cons.mp hcontext' with rfl | hcontext'
      · exact ⟨limit, hmem, htarget⟩
      · exact ih asked' hrest context' hcontext'
  asked := by
    intro limits contexts asked h limit hlimit policy hpolicy
    suffices hsub : (contexts.filter (target · = some limit.1)).Sublist
        ((asked.filter (·.policy = ⟨policy⟩)).flatMap Asked.contexts) from hsub.subperm
    induction contexts generalizing asked with
    | nil => exact List.nil_sublist _
    | cons context rest ih =>
      obtain ⟨limit', asked', hmem, htarget, hrest, rfl⟩ := askEach_cons h
      rw [List.filter_append, List.flatMap_append]
      by_cases hsame : target context = some limit.1
      · have hkey : limit' = limit := by
          have hname : limit'.1 = limit.1 := Option.some.inj (htarget.symm.trans hsame)
          exact Option.some.inj ((Table.find_of_mem hmem).symm.trans (hname ▸ Table.find_of_mem hlimit))
        subst hkey
        have hone : [context].Sublist (((limit'.2.map fun policy => (⟨⟨policy⟩, .policy ⟨policy⟩, [context]⟩ : Asked)).filter
            (·.policy = ⟨policy⟩)).flatMap Asked.contexts) := by
          refine List.singleton_sublist.mpr (List.mem_flatMap.mpr
            ⟨⟨⟨policy⟩, .policy ⟨policy⟩, [context]⟩, List.mem_filter.mpr ⟨List.mem_map_of_mem hpolicy, by simp⟩, by simp⟩)
        rw [List.filter_cons_of_pos (by simpa using hsame)]
        exact hone.append (ih asked' hrest)
      · rw [List.filter_cons_of_neg (by simpa using hsame)]
        exact (ih asked' hrest).trans (List.sublist_append_right _ _)

def sampleInput : AgentGrantInput where
  budgets := Table.empty.put ("CUSDC", ["CLIMIT"])
  budgetAmounts := Table.empty.put ("CUSDC", "10")
  spendableBalances := Table.empty.put ("CUSDC", "25")
  verification := .verifiedOnly "CGATE"

theorem natural_digits {n : ℕ} {raw : String} (htrim : Worker.trim raw = raw) (hraw : raw.toList = Nat.toDigits 10 n) :
    Decimal.natural (Worker.trim raw).toList = some n := by
  rw [htrim, hraw, Decimal.natural_toDigits]

def sampleBuilt : Built := ⟨[⟨"CUSDC", ["CLIMIT", "CGATE"]⟩], ⟨.verifiedOnly, ["CUSDC"], some "CGATE", none⟩⟩

theorem sample_built : buildAgentGrants (fun _ => true) sampleInput = .ok sampleBuilt := by
  have hcovered : Admissible (fun _ => true) sampleInput "CUSDC" :=
    ⟨rfl, by decide, fun _ _ => rfl, by decide, "10", "25", 10, 25, rfl, rfl, natural_digits (by decide) (by decide),
      natural_digits (by decide) (by decide), by decide⟩
  refine buildAgentGrants_ok.mpr ⟨by decide, rfl, fun token htoken => ?_, rfl⟩
  obtain rfl := List.mem_singleton.mp htoken
  exact hcovered

def sampleLimits : SignerLimits := Table.empty.put ("CUSDC", ["CLIMIT", "CGATE"])

def sampleWallet : Address := ⟨"CWALLET"⟩

def sampleGate : VerifiedRecipient.Storage := ⟨some ⟨sampleWallet, ⟨"CREGISTRY"⟩, .strict⟩, fun _ => false⟩

def ten : I128 := .ofNat 10 TokenSpendingLimit.ten_fits

def sampleBudget : TokenSpendingLimit.Storage :=
  { TokenSpendingLimit.Storage.fresh with config := some ⟨sampleWallet, ⟨"CUSDC"⟩, ten, 60⟩ }

def sampleChain : Chain := fun a =>
  if a = ⟨"CREGISTRY"⟩ then some (.registry (AttestationRegistry.constructor ⟨"GATTESTOR"⟩))
  else if a = ⟨"CGATE"⟩ then some (.gate sampleGate)
  else if a = ⟨"CLIMIT"⟩ then some (.budget sampleBudget)
  else none

def samplePayment : Payment :=
  ⟨5, 7, [.contract ⟨⟨"CUSDC"⟩, "transfer", [.address sampleWallet, .address ⟨"GPAYEE"⟩, .i128 ten]⟩], fun _ => false⟩

def sampleHash : BytesN 32 := ⟨List.replicate 32 1, List.length_replicate⟩

def sampleCalls : List Move :=
  [.call ⟨"CREGISTRY"⟩ (.registry (.upsert ⟨0, 1, ⟨"CREGISTRY"⟩, [⟨"GATTESTOR"⟩]⟩ ⟨"CUSDC"⟩ sampleHash 100)),
    .call ⟨"CGATE"⟩ (.gate (.install ⟨0, 1, ⟨"CGATE"⟩, [sampleWallet]⟩ sampleWallet)),
    .call ⟨"CLIMIT"⟩ (.budget (.install ⟨0, 1, ⟨"CLIMIT"⟩, [sampleWallet]⟩ sampleWallet))]

theorem agent_within_grants_sample :
    Paid askEach sampleLimits sampleWallet (run (step askEach sampleLimits sampleWallet) sampleChain sampleCalls) samplePayment ∧
    (∀ context ∈ samplePayment.contexts, ∃ contract, contract.strkey ∈ tokensOf sampleInput ∧ Permitted sampleWallet context contract ∧
      LastWriteAttests ⟨"GATTESTOR"⟩ (sampleCalls.flatMap (registryCalls ⟨"CREGISTRY"⟩)) .strict 7 contract) ∧
    paidWithin 0 60 (logOf (step askEach sampleLimits sampleWallet) (paid askEach sampleLimits sampleWallet "CUSDC") sampleChain
      (sampleCalls ++ [.pay samplePayment])) ≤ 2 * 10 := by
  have hpaid : Paid askEach sampleLimits sampleWallet (run (step askEach sampleLimits sampleWallet) sampleChain sampleCalls)
      samplePayment := by
    cases hpay : pay askEach sampleLimits sampleWallet (run (step askEach sampleLimits sampleWallet) sampleChain sampleCalls)
        samplePayment with
    | ok chain' => exact ⟨chain', hpay⟩
    | error u =>
      have haccepts : (pay askEach sampleLimits sampleWallet (run (step askEach sampleLimits sampleWallet) sampleChain sampleCalls)
          samplePayment).isOk = true := by decide
      rw [hpay] at haccepts
      cases haccepts
  obtain ⟨hgate, hbudget⟩ := @agent_within_grants (fun _ => true) sampleInput sampleBuilt sampleLimits askEach sampleWallet sampleChain
    (sampleCalls ++ [.pay samplePayment]) sample_built rfl askEach_coSigns (by decide)
  refine ⟨hpaid, ?_, ?_⟩
  · exact hgate "CGATE" ⟨"CREGISTRY"⟩ ⟨"GATTESTOR"⟩ .strict sampleGate rfl rfl rfl rfl sampleCalls samplePayment (List.prefix_refl _) hpaid
  · exact (hbudget "CUSDC" (by decide) "CLIMIT" (by decide) ⟨"CUSDC"⟩ ten 60 sampleBudget rfl rfl
      ⟨trivial, trivial, fun _ _ _ => trivial, trivial, trivial⟩).2 0

end Vellar.AgentSpending
