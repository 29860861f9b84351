import Vellar.Lib.Checked
import Vellar.Lib.Decimal
import Vellar.Policy.Templates
import Vellar.Web.MintRuns

/-!
# Vellar.Web.AgentGrants — the grants of an agent key

`buildAgentGrants` of `apps/web/lib/agent-grants.ts`: which policies must co-sign what an agent key pays with each token.
`buildAgentGrants_ok` says which inputs are granted and with which co-signers, `agentLimits_built` what the signer's limits are then.
-/

set_option autoImplicit false

namespace Vellar.Web.AgentGrants

open Checked
open AgentMint (AgentPolicyGrant SignerLimits agentLimits)
open Policy (jsLength)
open Worker (trim)

/-! ## The input -/

inductive AgentVerificationMode where
  | verifiedOnly (verifiedOnlyPolicy : String)
  | unrestricted (reason : String)
deriving DecidableEq

inductive Mode where
  | verifiedOnly
  | unrestricted
deriving DecidableEq

/-- The records hold their keys in the order of `Object.keys`. -/
structure AgentGrantInput where
  budgets : Table fun row : String × List String => row.1
  budgetAmounts : Table fun row : String × String => row.1
  spendableBalances : Table fun row : String × String => row.1
  verification : AgentVerificationMode

structure AgentTrustDecision where
  mode : Mode
  tokens : List String
  verifiedOnlyPolicy : Option String
  reason : Option String
deriving DecidableEq

structure Built where
  grants : List AgentPolicyGrant
  decision : AgentTrustDecision

def MAX_REASON_LENGTH : ℕ := 200

/-! ## The checks -/

section Build

-- `StrKey.isValidContract`
variable (isValidContract : String → Bool)

def assertContract (id what : String) : Except String Unit :=
  ensure (isValidContract id = true) (what ++ " must be a contract address (C…).")

def parseBaseUnits (raw what : String) : Except String ℕ :=
  orStop (Decimal.natural (trim raw).toList) (what ++ " must be a non-negative integer in base units.")

def lookup (record : Table fun row : String × String => row.1) (token : String) : Option String := (record.find token).map Prod.snd

def assertBudgetWithinBalance (token : String) (input : AgentGrantInput) : Except String Unit := do
  let rawBudget ← orStop (lookup input.budgetAmounts token) "Every token needs a budget amount for the balance check."
  let rawBalance ← orStop (lookup input.spendableBalances token)
    "Every token needs the wallet's current spendable balance for the balance check."
  let budget ← parseBaseUnits rawBudget "The grant budget"
  let spendable ← parseBaseUnits rawBalance "The spendable balance"
  ensure (¬ budget > spendable) ("The grant budget (" ++ toString budget ++
    " base units) exceeds the wallet's current spendable balance (" ++ toString spendable ++ " base units) for token " ++ token ++
    ". Lower the budget or fund the wallet.")

/-- `[...new Set(input.budgets[token] ?? [])]` -/
def budgetOf (input : AgentGrantInput) (token : String) : List String :=
  (((input.budgets.find token).map Prod.snd).getD []).eraseDups

def coSigners (v : AgentVerificationMode) (budget : List String) : List String :=
  match v with
  | .verifiedOnly verifiedOnlyPolicy => budget ++ [verifiedOnlyPolicy]
  | .unrestricted _ => budget

/-- The verified-only policy is no spending limit. -/
def Doubles (v : AgentVerificationMode) (budget : List String) : Prop := ∃ policy ∈ budget, v = .verifiedOnly policy

instance (v : AgentVerificationMode) (budget : List String) : Decidable (Doubles v budget) :=
  inferInstanceAs (Decidable (∃ policy ∈ budget, v = .verifiedOnly policy))

def checkVerification : AgentVerificationMode → Except String Unit
  | .verifiedOnly verifiedOnlyPolicy => assertContract isValidContract verifiedOnlyPolicy "The verified-only policy"
  | .unrestricted reason => do
    ensure (trim reason ≠ "") "Turning off verified-only spending needs a stated reason."
    ensure (¬ jsLength (trim reason) > MAX_REASON_LENGTH) ("Keep the reason under " ++ toString MAX_REASON_LENGTH ++ " characters.")

/-- The grant of one token. -/
def grantFor (input : AgentGrantInput) (token : String) : Except String AgentPolicyGrant := do
  assertContract isValidContract token "Each token"
  ensure (budgetOf input token ≠ []) "Every token needs a spending-limit policy."
  forM (budgetOf input token) fun p => assertContract isValidContract p "Each spending policy"
  ensure (¬ Doubles input.verification (budgetOf input token)) "The verified-only policy can't double as a spending limit."
  assertBudgetWithinBalance token input
  pure ⟨token, coSigners input.verification (budgetOf input token)⟩

def tokensOf (input : AgentGrantInput) : List String := input.budgets.rows.map Prod.fst

def decisionOf (input : AgentGrantInput) : AgentTrustDecision :=
  match input.verification with
  | .verifiedOnly verifiedOnlyPolicy => ⟨.verifiedOnly, tokensOf input, some verifiedOnlyPolicy, none⟩
  | .unrestricted reason => ⟨.unrestricted, tokensOf input, none, some (trim reason)⟩

def buildAgentGrants (input : AgentGrantInput) : Except String Built := do
  ensure (tokensOf input ≠ []) "Grant the agent at least one token."
  checkVerification isValidContract input.verification
  let grants ← (tokensOf input).mapM (grantFor isValidContract input)
  pure ⟨grants, decisionOf input⟩

end Build

/-! ## What is granted -/

section Specs

variable {isValidContract : String → Bool} {input : AgentGrantInput}

/-- A token may be granted: its budget is met by the balance and has policies of its own. -/
structure Admissible (isValidContract : String → Bool) (input : AgentGrantInput) (token : String) : Prop where
  contract : isValidContract token = true
  limited : budgetOf input token ≠ []
  policies : ∀ p ∈ budgetOf input token, isValidContract p = true
  apart : ¬ Doubles input.verification (budgetOf input token)
  covered : ∃ rawBudget rawBalance budget spendable, lookup input.budgetAmounts token = some rawBudget ∧
    lookup input.spendableBalances token = some rawBalance ∧ Decimal.natural (trim rawBudget).toList = some budget ∧
    Decimal.natural (trim rawBalance).toList = some spendable ∧ budget ≤ spendable

theorem assertBudgetWithinBalance_ok {token : String} {u : Unit} : assertBudgetWithinBalance token input = .ok u ↔
    ∃ rawBudget rawBalance budget spendable, lookup input.budgetAmounts token = some rawBudget ∧
      lookup input.spendableBalances token = some rawBalance ∧ Decimal.natural (trim rawBudget).toList = some budget ∧
      Decimal.natural (trim rawBalance).toList = some spendable ∧ budget ≤ spendable := by
  unfold assertBudgetWithinBalance parseBaseUnits
  simp only [bind_ok, orStop_ok, ensure_ok, not_lt, exists_and_left]

theorem grantFor_ok {token : String} {grant : AgentPolicyGrant} : grantFor isValidContract input token = .ok grant ↔
    Admissible isValidContract input token ∧ grant = ⟨token, coSigners input.verification (budgetOf input token)⟩ := by
  unfold grantFor assertContract
  simp only [bind_ok, ensure_ok, forM_ok, assertBudgetWithinBalance_ok, pure_ok, exists_const]
  constructor
  · rintro ⟨h1, h2, h3, h4, h5, rfl⟩
    exact ⟨⟨h1, h2, h3, h4, h5⟩, rfl⟩
  · rintro ⟨⟨h1, h2, h3, h4, h5⟩, rfl⟩
    exact ⟨h1, h2, h3, h4, h5, rfl⟩

/-- A list is mapped by checks that each accept with one value. -/
theorem mapM_ok {ε α β : Type} {f : α → Except ε β} {P : α → Prop} {g : α → β} (hf : ∀ a b, f a = .ok b ↔ P a ∧ b = g a)
    {l : List α} {r : List β} : l.mapM f = .ok r ↔ (∀ a ∈ l, P a) ∧ r = l.map g := by
  induction l generalizing r with
  | nil =>
    rw [List.mapM_nil, pure_ok, eq_comm]
    simp
  | cons a l ih =>
    simp only [List.mapM_cons, bind_ok, hf, ih, pure_ok]
    constructor
    · rintro ⟨b, ⟨ha, rfl⟩, bs, ⟨hl, rfl⟩, rfl⟩
      exact ⟨List.forall_mem_cons.mpr ⟨ha, hl⟩, rfl⟩
    · rintro ⟨hall, rfl⟩
      obtain ⟨ha, hl⟩ := List.forall_mem_cons.mp hall
      exact ⟨_, ⟨ha, rfl⟩, _, ⟨hl, rfl⟩, rfl⟩

/-- **Grants**: each token of the input with its spending limits and, where the agent is held to verified contracts, the gate. -/
theorem buildAgentGrants_ok {built : Built} : buildAgentGrants isValidContract input = .ok built ↔
    tokensOf input ≠ [] ∧ checkVerification isValidContract input.verification = .ok () ∧
      (∀ token ∈ tokensOf input, Admissible isValidContract input token) ∧
      built = ⟨(tokensOf input).map fun token => ⟨token, coSigners input.verification (budgetOf input token)⟩, decisionOf input⟩ := by
  unfold buildAgentGrants
  simp only [bind_ok, ensure_ok, mapM_ok (fun a b => grantFor_ok), pure_ok, exists_const]
  constructor
  · rintro ⟨h1, u, h2, grants, ⟨h3, rfl⟩, rfl⟩
    exact ⟨h1, h2, h3, rfl⟩
  · rintro ⟨h1, h2, h3, rfl⟩
    exact ⟨h1, (), h2, _, ⟨h3, rfl⟩, rfl⟩

theorem Admissible.coSigners_ne_nil {token : String} (h : Admissible isValidContract input token) :
    coSigners input.verification (budgetOf input token) ≠ [] := by
  unfold coSigners
  split
  · exact List.append_ne_nil_of_right_ne_nil _ (List.cons_ne_nil _ _)
  · exact h.limited

/-! ## The limits of the signer -/

/-- Grants of tokens that are not there yet are appended. -/
theorem foldlM_limits {grants : List AgentPolicyGrant} {limits : SignerLimits} (hne : ∀ g ∈ grants, g.policies ≠ [])
    (hnew : ∀ g ∈ grants, g.token ∉ limits.rows.map Prod.fst) (hnodup : (grants.map AgentPolicyGrant.token).Nodup) :
    ∃ limits' : SignerLimits, grants.foldlM (fun (limits : SignerLimits) grant =>
      if grant.policies = [] then
        Except.error ("The grant for " ++ grant.token ++ " has no policy — refusing an unbounded agent key.")
      else .ok (limits.put (grant.token, grant.policies))) limits = .ok limits' ∧
      limits'.rows = limits.rows ++ grants.map fun g => (g.token, g.policies) := by
  induction grants generalizing limits with
  | nil => exact ⟨limits, rfl, by simp⟩
  | cons g grants ih =>
    obtain ⟨hg, hrest⟩ := List.forall_mem_cons.mp hne
    obtain ⟨hfree, hfrees⟩ := List.forall_mem_cons.mp hnew
    obtain ⟨hout, hnodup'⟩ := List.nodup_cons.mp hnodup
    have hput : (limits.put (g.token, g.policies)).rows = limits.rows ++ [(g.token, g.policies)] :=
      Table.rows_put_new (Table.find_eq_none.mpr fun row hrow heq => hfree (List.mem_map.mpr ⟨row, hrow, heq⟩))
    have hnext : ∀ g' ∈ grants, g'.token ∉ (limits.put (g.token, g.policies)).rows.map Prod.fst := by
      intro g' hg' hmem
      rw [hput, List.map_append] at hmem
      rcases List.mem_append.mp hmem with hmem | hmem
      · exact hfrees g' hg' hmem
      · have htoken : g'.token = g.token := List.mem_singleton.mp hmem
        exact hout (htoken ▸ List.mem_map_of_mem hg')
    obtain ⟨limits', hfold, hrows⟩ := ih hrest hnext hnodup'
    refine ⟨limits', ?_, ?_⟩
    · rw [List.foldlM_cons, if_neg hg]
      exact hfold
    · rw [hrows, hput, List.append_assoc]
      rfl

/-- **Limits**: each token with its co-signers, none lost and none merged. -/
theorem agentLimits_built {built : Built} (h : buildAgentGrants isValidContract input = .ok built) :
    ∃ limits, agentLimits built.grants = .ok limits ∧
      limits.rows = (tokensOf input).map fun token => (token, coSigners input.verification (budgetOf input token)) := by
  obtain ⟨hne, -, hadmissible, rfl⟩ := buildAgentGrants_ok.mp h
  have hpolicies : ∀ g ∈ (tokensOf input).map fun token =>
      (⟨token, coSigners input.verification (budgetOf input token)⟩ : AgentPolicyGrant), g.policies ≠ [] := by
    intro g hg
    obtain ⟨token, htoken, rfl⟩ := List.mem_map.mp hg
    exact (hadmissible token htoken).coSigners_ne_nil
  have hfree : ∀ g ∈ (tokensOf input).map fun token =>
      (⟨token, coSigners input.verification (budgetOf input token)⟩ : AgentPolicyGrant),
      g.token ∉ (Table.empty : SignerLimits).rows.map Prod.fst := fun _ _ => List.not_mem_nil
  have htokens : (((tokensOf input).map fun token =>
      (⟨token, coSigners input.verification (budgetOf input token)⟩ : AgentPolicyGrant)).map AgentPolicyGrant.token).Nodup := by
    rw [List.map_map]
    exact (List.map_id (tokensOf input)).symm ▸ input.budgets.nodup
  obtain ⟨limits, hfold, hrows⟩ := foldlM_limits hpolicies hfree htokens
  refine ⟨limits, ?_, ?_⟩
  · unfold agentLimits
    rw [if_neg (by simpa using hne)]
    exact hfold
  · rw [hrows, List.map_map]
    rfl

end Specs

end Vellar.Web.AgentGrants
