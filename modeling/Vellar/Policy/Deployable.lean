import Vellar.Contracts.SpendingLimit
import Vellar.Contracts.TokenSpendingLimit
import Vellar.Contracts.VerifiedRecipient
import Vellar.Policy.Templates
import Vellar.Worker.AttestedArtifact

/-!
# Vellar.Policy.Deployable — accepted definitions and the contracts' constructors

What `validateDefinition` lets through, read off the schemas template by template, against the `__constructor` of the
contract the template names.  `deployable_iff` says which accepted definitions every wallet can be constructed from:
for `spending_limit` there is one bound the schema does not have.
-/

set_option autoImplicit false

namespace Vellar.Policy

open Schema Soroban Worker

/-! ## Texts as contract values -/

/-- The decimal text of an amount. -/
def IsAmount (text : String) (n : I128) : Prop := n.val = bigInt text.toList

theorem exists_amount_iff {text : String} : (∃ n, IsAmount text n) ↔ bigInt text.toList < 2 ^ 127 := by
  refine ⟨?_, fun h => ⟨I128.ofNat _ h, rfl⟩⟩
  rintro ⟨n, hn⟩
  have hhi := n.hi
  rw [hn] at hhi
  exact_mod_cast hhi

/-- The rule tables of the arguments; no rules are empty tables. -/
structure IsRules (args : Option SafetyRulesConstructor) (rules : SpendingLimit.SafetyRules) : Prop where
  caps : List.Forall₂ (fun (cap : CapArg) (e : Address × I128) => e.1 = ⟨cap.token⟩ ∧ IsAmount cap.amountBaseUnits e.2)
    ((args.map (·.maxSingleTransfer)).getD []) rules.maxSingleTransfer.entries
  tokens : rules.allowedTokens = (args.bind (·.allowedTokens)).map (·.map Address.mk)

/-- The mode of the arguments, the ids as 32 bytes each. -/
def IsMode : ModeArg → VerifiedRecipient.ProvenanceMode → Prop
  | .strict, .strict => True
  | .trustedPublishers ids, .trustedPublishers publishers => ids.map Attestor.bytes32 = publishers.map some
  | _, _ => False

/-- The contract's constructor succeeds on the wallet and the arguments. -/
def ConstructorArgs.Constructs (wallet : Address) : ConstructorArgs → Prop
  | .spending a => ∃ (limit : I128) (windowSeconds : ℕ) (rules : SpendingLimit.SafetyRules) (s : SpendingLimit.Storage),
      IsAmount a.dailyLimitStroops limit ∧ a.windowSeconds = windowSeconds ∧ IsRules a.rules rules ∧
      SpendingLimit.constructor wallet limit windowSeconds rules = .ok s
  | .tokenSpending a => ∃ (limit : I128) (windowSeconds : ℕ) (s : TokenSpendingLimit.Storage),
      IsAmount a.dailyLimitBaseUnits limit ∧ a.windowSeconds = windowSeconds ∧
      TokenSpendingLimit.constructor wallet ⟨a.token⟩ limit windowSeconds = .ok s
  | .verifiedRecipient a => ∃ (mode : VerifiedRecipient.ProvenanceMode) (s : VerifiedRecipient.Storage),
      IsMode a.mode mode ∧ VerifiedRecipient.constructor wallet ⟨a.registry⟩ mode = .ok s

/-- The tokens the arguments list. -/
def ConstructorArgs.tokens : ConstructorArgs → List String
  | .spending a => ((a.rules.map (·.maxSingleTransfer)).getD []).map CapArg.token ++
      (a.rules.bind (·.allowedTokens)).getD []
  | .tokenSpending a => [a.token]
  | .verifiedRecipient _ => []

/-- The trusted ids are distinct as 32 bytes each, and ids of the listed publishers. -/
def ConstructorArgs.Attributed (P : Platform) (definition : Json) : ConstructorArgs → Prop
  | .verifiedRecipient ⟨_, .trustedPublishers ids⟩ => (ids.map Attestor.bytes32).Nodup ∧
      ∀ id ∈ ids, ∃ publishers publisher, ((definition.get? "provenance").bind fun p => p.get? "trustedPublishers") =
        some (.arr publishers) ∧ .str publisher ∈ publishers ∧ publisherIdFor P publisher = some id
  | _ => True

def typeOf (definition : Json) : String := ((definition.get? "type").bind Json.str?).getD ""

/-- The definition's template has a contract. -/
def ContractEnforced (P : Platform) (definition : Json) : Prop :=
  ∃ t ∈ templates P, t.type = typeOf definition ∧ ∃ wasmHash args, t.enforcement = .policyContract wasmHash args

/-- The policy is generated, and its contract can be constructed for every wallet that is none of its tokens.  Any text is an
address here: a token whose checksum is wrong is refused by the SDK that encodes the arguments, not by the constructor. -/
def Deployable (P : Platform) (numberText : ℚ → String) (definition : Json) : Prop :=
  ∀ network, ∃ generated wasmHash args, generatePolicy P numberText definition network = .ok generated ∧
    generated.manifest.enforcement = .policyContract wasmHash (some args) ∧ args.Attributed P definition ∧
    ∀ wallet, isContractAddress wallet = true → wallet ∉ args.tokens → args.Constructs ⟨wallet⟩

/-! ## The template of an accepted definition -/

section Accepted

variable {P : Platform} {definition : Json} {numberText : ℚ → String}

theorem getTemplate_mem {type : String} {version : Option ℚ} {t : PolicyTemplate}
    (h : getTemplate P type version = some t) : t ∈ templates P ∧ t.type = type ∧ ∀ v, version = some v → v = 1 := by
  have hversion : ∀ t ∈ templates P, t.schemaVersion = 1 := by
    intro t ht
    simp only [templates, List.mem_cons, List.not_mem_nil, or_false] at ht
    rcases ht with rfl | rfl | rfl | rfl | rfl | rfl | rfl <;> rfl
  cases version with
  | some v =>
    simp only [getTemplate] at h
    have hmem := List.mem_of_find?_eq_some h
    have hp := List.find?_some h
    rw [Bool.and_eq_true, decide_eq_true_eq, decide_eq_true_eq, hversion t hmem] at hp
    refine ⟨hmem, hp.1, fun w hw => ?_⟩
    rw [← Option.some.inj hw, ← hp.2]
    norm_num
  | none =>
    simp only [getTemplate] at h
    have hmem := (List.mem_insertionSort _).mp (List.mem_of_head? h)
    obtain ⟨hin, htype⟩ := List.mem_filter.mp hmem
    exact ⟨hin, by simpa using htype, fun w hw => by cases hw⟩

/-- The three templates with a contract. -/
theorem contractEnforced_cases (h : ContractEnforced P definition) :
    typeOf definition = "spending_limit" ∨ typeOf definition = "token_spending_limit" ∨
      typeOf definition = "verified_only" := by
  obtain ⟨t, ht, htype, wasmHash, args, henf⟩ := h
  simp only [templates, List.mem_cons, List.not_mem_nil, or_false] at ht
  rcases ht with rfl | rfl | rfl | rfl | rfl | rfl | rfl
  · cases henf
  · cases henf
  · exact Or.inl htype.symm
  · exact Or.inr (Or.inl htype.symm)
  · cases henf
  · exact Or.inr (Or.inr htype.symm)
  · cases henf

/-- An accepted definition passed the schema of a template of its type, in the only version there is. -/
theorem validateDefinition_schema (h : validateDefinition P definition none = true) :
    ∃ t ∈ templates P, t.type = typeOf definition ∧ t.schema definition = true ∧
      ∀ v, (definition.get? "schemaVersion").bind Json.num? = some v → v = 1 := by
  unfold validateDefinition at h
  unfold typeOf
  cases htype : (definition.get? "type").bind Json.str? with
  | none =>
    rw [htype] at h
    cases h
  | some type =>
    rw [htype] at h
    by_cases hempty : type = ""
    · subst hempty
      cases h
    · have htruthy : truthy (some type) = some type := by simp [truthy, hempty]
      simp only [htruthy, Option.none_or] at h
      cases ht : getTemplate P type ((definition.get? "schemaVersion").bind Json.num?) with
      | none => simp [ht] at h
      | some t =>
        simp only [ht] at h
        obtain ⟨hmem, hname, hversion⟩ := getTemplate_mem ht
        exact ⟨t, hmem, hname, h, hversion⟩

/-- The generated policy of an accepted definition is the enforcement of its template. -/
theorem generatePolicy_eq (h : validateDefinition P definition none = true) (network : Network) {t : PolicyTemplate}
    (ht : getTemplate P (typeOf definition) (some 1) = some t) :
    generatePolicy P numberText definition network =
      (enforce P definition (typeOf definition) t.enforcement).map fun enforcement =>
        let defWithVersion := definition.set "schemaVersion" (.num t.schemaVersion)
        ⟨defWithVersion, policyHash numberText defWithVersion, t.schemaVersion,
          ⟨t.type, t.schemaVersion, enforcement, network⟩⟩ := by
  obtain ⟨_, _, _, _, hversion⟩ := validateDefinition_schema h
  have hone : ((Json.nonNull (definition.get? "schemaVersion")).bind Json.num?).getD 1 = 1 := by
    cases hv : definition.get? "schemaVersion" with
    | none => rfl
    | some v =>
      cases v with
      | num n => exact hversion n (by rw [hv]; rfl)
      | null | bool | str | arr | obj => rfl
  unfold typeOf at ht
  simp only [generatePolicy, hone, ht, typeOf]

end Accepted

/-! ## What the schemas let through -/

section Schemas

variable {P : Platform} {definition : Json}

theorem amountOf_eq_some {v : Json} {key s : String} (h : v.get? key = some (.str s)) : amountOf v key = some s := by
  unfold amountOf
  rw [h]
  rfl

/-- A required string of an object. -/
theorem amountOf_of_required {fields : List (String × Field)} {v : Json} (h : strictObject fields v = true) (key : String)
    {check : String → Bool} (hmem : (key, required (string check)) ∈ fields) :
    ∃ s, v.get? key = some (.str s) ∧ amountOf v key = some s ∧ check s = true := by
  obtain ⟨w, hw, hstring⟩ := required_iff.mp (strictObject_field h key hmem)
  obtain ⟨s, rfl, hs⟩ := string_iff.mp hstring
  exact ⟨s, hw, amountOf_eq_some hw, hs⟩

/-- An optional string of an object. -/
theorem amountOf_of_optional {fields : List (String × Field)} {v : Json} (h : strictObject fields v = true) (key : String)
    {check : String → Bool} (hmem : (key, optional (string check)) ∈ fields) :
    (v.get? key = none ∧ amountOf v key = none) ∨ ∃ s, v.get? key = some (.str s) ∧ amountOf v key = some s ∧
      check s = true := by
  have hfield := strictObject_field h key hmem
  cases hv : v.get? key with
  | none =>
    refine Or.inl ⟨rfl, ?_⟩
    unfold amountOf
    rw [hv]
    rfl
  | some w =>
    obtain ⟨s, rfl, hs⟩ := string_iff.mp (optional_iff.mp hfield w hv)
    exact Or.inr ⟨s, rfl, amountOf_eq_some hv, hs⟩

theorem isBaseUnits_bounds {s : String} (h : isBaseUnits s = true) :
    1 ≤ bigInt s.toList ∧ bigInt s.toList < 2 ^ 127 := by
  simp only [isBaseUnits, Bool.and_eq_true, decide_eq_true_eq] at h
  omega

/-- An amount in base units is one the contracts take. -/
theorem exists_amount_of_baseUnits {s : String} (h : isBaseUnits s = true) : ∃ n, IsAmount s n ∧ 1 ≤ n.val := by
  obtain ⟨hlo, hhi⟩ := isBaseUnits_bounds h
  obtain ⟨n, hn⟩ := exists_amount_iff.mpr hhi
  refine ⟨n, hn, ?_⟩
  rw [hn]
  exact_mod_cast hlo

/-- A whole number of seconds within a year. -/
theorem windowSeconds_bounds {v : Json} (h : windowSeconds v = true) :
    ∃ n : ℕ, v.num? = some (n : ℚ) ∧ 1 ≤ n ∧ n ≤ 31536000 := by
  obtain ⟨q, rfl, hq⟩ := number_iff.mp h
  simp only [isInteger, Bool.and_eq_true, decide_eq_true_eq] at hq
  obtain ⟨⟨hden, hlo⟩, hhi⟩ := hq
  have hint : (q.num : ℚ) = q := Rat.coe_int_num_of_den_eq_one hden
  have hnum : 1 ≤ q.num := by
    rw [← hint] at hlo
    exact_mod_cast hlo
  obtain ⟨n, hn⟩ := Int.eq_ofNat_of_zero_le (show 0 ≤ q.num by omega)
  have hq : q = (n : ℚ) := by rw [← hint, hn]; norm_num
  subst hq
  exact ⟨n, rfl, by exact_mod_cast hlo, by exact_mod_cast hhi⟩

/-- The rule tables the schema lets through. -/
structure GoodRules (a : SafetyRulesConstructor) : Prop where
  capCount : a.maxSingleTransfer.length ≤ MAX_RULE_ENTRIES
  capTokens : (a.maxSingleTransfer.map CapArg.token).Nodup
  capAddresses : ∀ cap ∈ a.maxSingleTransfer, isContractAddress cap.token = true
  capAmounts : ∀ cap ∈ a.maxSingleTransfer, isBaseUnits cap.amountBaseUnits = true
  allowed : ∀ tokens, a.allowedTokens = some tokens → tokens ≠ [] ∧ tokens.length ≤ MAX_RULE_ENTRIES

/-- The cap a JSON entry stands for. -/
def capArg (cap : Json) : CapArg := ⟨(amountOf cap "token").getD "", (amountOf cap "amountBaseUnits").getD ""⟩

theorem strings_tokensOf {caps : List Json} (h : ∀ cap ∈ caps, capSchema cap = true) :
    strings (tokensOf caps) = (caps.map capArg).map CapArg.token := by
  induction caps with
  | nil => rfl
  | cons cap caps ih =>
    obtain ⟨token, hget, hamount, -⟩ :=
      amountOf_of_required (h cap List.mem_cons_self) "token" List.mem_cons_self
    have hrest := ih fun c hc => h c (List.mem_cons_of_mem _ hc)
    have hfirst : tokensOf (cap :: caps) = .str token :: tokensOf caps := by
      unfold tokensOf
      rw [List.filterMap_cons_some (f := fun e : Json => e.get? "token") hget]
    have hcons : strings (.str token :: tokensOf caps) = token :: strings (tokensOf caps) := rfl
    rw [hfirst, hcons, hrest]
    simp only [List.map_cons, capArg, hamount, Option.getD_some]

/-- The items of an optional array, when there are any. -/
theorem items_of_optional {item : Schema} {check : List Json → Bool} {x : Option Json}
    (h : optional (array item check) x = true) {items : List Json}
    (hitems : (Json.nonNull x).bind Json.items? = some items) : (∀ v ∈ items, item v = true) ∧ check items = true := by
  cases x with
  | none => cases hitems
  | some w =>
    obtain ⟨items', rfl, hall, hcheck⟩ := array_iff.mp (optional_iff.mp h w rfl)
    obtain rfl : items' = items := Option.some.inj hitems
    exact ⟨hall, hcheck⟩

theorem nonNull_of_object {fields : List (String × Field)} {v : Json} (h : strictObject fields v = true) :
    Json.nonNull (some v) = some v := by
  cases v with
  | null => cases h
  | bool | num | str | arr | obj => rfl

theorem goodRules_of_schema (h : optional safetyRulesSchema (definition.get? "safetyRules") = true)
    {a : SafetyRulesConstructor} (ha : deriveSafetyRules definition = some a) : GoodRules a := by
  cases hrules : definition.get? "safetyRules" with
  | none =>
    rw [deriveSafetyRules, hrules] at ha
    cases ha
  | some rules =>
    have hobject := optional_iff.mp h rules hrules
    simp only [deriveSafetyRules, hrules, nonNull_of_object hobject] at ha
    split_ifs at ha
    obtain rfl := Option.some.inj ha
    have hcaps := strictObject_field hobject "maxSingleTransfer" List.mem_cons_self
    have htokens := strictObject_field hobject "allowedTokens" (List.mem_cons_of_mem _ List.mem_cons_self)
    generalize hlist : ((Json.nonNull (rules.get? "maxSingleTransfer")).bind Json.items?).getD [] = caps
    have hgood : caps.length ≤ MAX_RULE_ENTRIES ∧ uniqueItems (tokensOf caps) = true ∧
        ∀ cap ∈ caps, capSchema cap = true := by
      cases hc : (Json.nonNull (rules.get? "maxSingleTransfer")).bind Json.items? with
      | none =>
        rw [hc, Option.getD_none] at hlist
        subst hlist
        exact ⟨Nat.zero_le _, by decide, fun cap hcap => absurd hcap List.not_mem_nil⟩
      | some items =>
        rw [hc, Option.getD_some] at hlist
        subst hlist
        obtain ⟨hall, hcheck⟩ := items_of_optional hcaps hc
        rw [Bool.and_eq_true, decide_eq_true_eq] at hcheck
        exact ⟨hcheck.1, hcheck.2, hall⟩
    refine ⟨?_, ?_, ?_, ?_, ?_⟩
    · rw [List.length_map]
      exact hgood.1
    · have hunique := hgood.2.1
      unfold uniqueItems at hunique
      rw [decide_eq_true_eq, strings_tokensOf hgood.2.2] at hunique
      exact hunique
    · intro cap hcap
      obtain ⟨v, hv, rfl⟩ := List.mem_map.mp hcap
      obtain ⟨token, -, htoken, haddress⟩ := amountOf_of_required (hgood.2.2 v hv) "token" List.mem_cons_self
      rw [htoken]
      exact haddress
    · intro cap hcap
      obtain ⟨v, hv, rfl⟩ := List.mem_map.mp hcap
      obtain ⟨amount, -, hamount, hunits⟩ := amountOf_of_required (hgood.2.2 v hv) "amountBaseUnits"
        (List.mem_cons_of_mem _ List.mem_cons_self)
      rw [hamount]
      exact hunits
    · intro tokens hallowed
      obtain ⟨items, hi, rfl⟩ := Option.map_eq_some_iff.mp hallowed
      obtain ⟨hall, hcheck⟩ := items_of_optional htokens hi
      simp only [Bool.and_eq_true, decide_eq_true_eq] at hcheck
      have hlength : (strings items).length = items.length := by
        conv_rhs => rw [(strings_of_all hall).1, List.length_map]
      refine ⟨fun hnil => ?_, ?_⟩
      · rw [hnil, List.length_nil] at hlength
        omega
      · rw [hlength]
        exact hcheck.1.2

/-! ## The constructors -/

/-- Caps in base units are entries of the contract's map. -/
theorem exists_entries {caps : List CapArg} (h : ∀ cap ∈ caps, isBaseUnits cap.amountBaseUnits = true) :
    ∃ entries : List (Address × I128),
      List.Forall₂ (fun (cap : CapArg) (e : Address × I128) => e.1 = ⟨cap.token⟩ ∧ IsAmount cap.amountBaseUnits e.2) caps
        entries ∧
      entries.map Prod.fst = (caps.map CapArg.token).map Address.mk ∧ ∀ e ∈ entries, 1 ≤ e.2.val := by
  induction caps with
  | nil => exact ⟨[], List.Forall₂.nil, rfl, fun e he => absurd he List.not_mem_nil⟩
  | cons cap caps ih =>
    obtain ⟨n, hn, hpos⟩ := exists_amount_of_baseUnits (h cap List.mem_cons_self)
    obtain ⟨entries, hmatch, hkeys, hcaps⟩ := ih fun c hc => h c (List.mem_cons_of_mem _ hc)
    refine ⟨(⟨cap.token⟩, n) :: entries, List.Forall₂.cons ⟨rfl, hn⟩ hmatch, ?_, fun e he => ?_⟩
    · rw [List.map_cons, hkeys, List.map_cons, List.map_cons]
    · rcases List.mem_cons.mp he with rfl | hrest
      · exact hpos
      · exact hcaps e hrest

theorem mk_injective : Function.Injective Address.mk := fun _ _ h => congrArg Address.strkey h

/-- Accepted rules pass `validate_rules` of every wallet that is none of their tokens. -/
theorem exists_rules {a : Option SafetyRulesConstructor} (h : ∀ rules, a = some rules → GoodRules rules)
    (wallet : Address) (hcaps : wallet.strkey ∉ ((a.map (·.maxSingleTransfer)).getD []).map CapArg.token)
    (hallowed : wallet.strkey ∉ (a.bind (·.allowedTokens)).getD []) :
    ∃ rules, IsRules a rules ∧ SpendingLimit.validateRules wallet rules = .ok () := by
  cases a with
  | none =>
    refine ⟨⟨SpendingLimit.CapMap.empty, none⟩, ⟨List.Forall₂.nil, rfl⟩, ?_⟩
    rw [SpendingLimit.validateRules_ok]
    exact ⟨Nat.zero_le _, fun e he => absurd he List.not_mem_nil, fun tokens ht => by cases ht⟩
  | some a =>
    have hgood := h a rfl
    obtain ⟨entries, hmatch, hkeys, hpos⟩ := exists_entries hgood.capAmounts
    have hnodup : (entries.map Prod.fst).Nodup := by
      rw [hkeys]
      exact hgood.capTokens.map mk_injective
    refine ⟨⟨⟨entries, hnodup⟩, a.allowedTokens.map (·.map Address.mk)⟩, ⟨hmatch, rfl⟩, ?_⟩
    rw [SpendingLimit.validateRules_ok]
    refine ⟨?_, fun e he => ⟨hpos e he, fun heq => hcaps ?_⟩, fun tokens ht => ?_⟩
    · rw [← hmatch.length_eq]
      exact hgood.capCount
    · have hmem : e.1 ∈ (a.maxSingleTransfer.map CapArg.token).map Address.mk := by
        rw [← hkeys]
        exact List.mem_map_of_mem he
      obtain ⟨token, htoken, hmk⟩ := List.mem_map.mp hmem
      rw [← heq, ← hmk]
      exact htoken
    · obtain ⟨texts, htexts, rfl⟩ := Option.map_eq_some_iff.mp ht
      obtain ⟨hne, hlength⟩ := hgood.allowed texts htexts
      refine ⟨by simpa using hne, by rwa [List.length_map], fun token htoken heq => hallowed ?_⟩
      obtain ⟨text, htext, rfl⟩ := List.mem_map.mp htoken
      rw [← heq, Option.bind_some, htexts]
      exact htext

theorem bigInt_repr (n : ℕ) : bigInt n.repr.toList = n := by
  unfold bigInt
  rw [Nat.toList_repr, Nat.ofDigitChars_ten_toDigits]

/-- The cap of a `spending_limit` definition, in XLM. -/
def capXlm (definition : Json) : String :=
  let limits := (Json.nonNull (definition.get? "spendingLimits")).getD .null
  ((amountOf limits "dailyXlm").or (amountOf limits "perTxXlm")).getD ""

theorem ne_empty_of_isXlm {s : String} (h : isXlm s = true) : s ≠ "" := by
  rintro rfl
  revert h
  decide

/-- An accepted cap is at least one stroop, and its arguments are derived. -/
theorem deriveSpendingConstructor_of_schema (h : required spendingLimitsSchema (definition.get? "spendingLimits") = true) :
    0 < xlmToStroops (capXlm definition) ∧
      deriveSpendingConstructor definition = .ok
        ⟨(xlmToStroops (capXlm definition)).repr, DEFAULT_WINDOW_SECONDS, deriveSafetyRules definition⟩ := by
  obtain ⟨limits, hlimits, hschema⟩ := required_iff.mp h
  obtain ⟨⟨hobject, hone⟩, -⟩ := refine_iff.mp hschema |>.imp_left refine_iff.mp
  have hdaily := amountOf_of_optional hobject "dailyXlm" List.mem_cons_self
  have hperTx := amountOf_of_optional hobject "perTxXlm" (List.mem_cons_of_mem _ List.mem_cons_self)
  have hcap : ∃ cap, (amountOf limits "dailyXlm").or (amountOf limits "perTxXlm") = some cap ∧ isXlm cap = true := by
    rcases hdaily with ⟨hget, hnone⟩ | ⟨s, -, hs, hxlm⟩
    · rcases hperTx with ⟨hget', -⟩ | ⟨s, -, hs, hxlm⟩
      · rw [hget, hget'] at hone
        cases hone
      · exact ⟨s, by rw [hnone, hs]; rfl, hxlm⟩
    · exact ⟨s, by rw [hs]; rfl, hxlm⟩
  obtain ⟨cap, hcap, hxlm⟩ := hcap
  have htruthy : truthy (some cap) = some cap := by simp [truthy, ne_empty_of_isXlm hxlm]
  simp only [deriveSpendingConstructor, capXlm, hlimits, nonNull_of_object hobject, Option.getD_some, hcap, htruthy,
    and_true]
  simp only [isXlm, Bool.and_eq_true, decide_eq_true_eq] at hxlm
  exact hxlm.2

/-- The arguments of an accepted `spending_limit` definition construct an instance exactly when the cap fits. -/
theorem constructs_spending_iff {wallet : String} {cap : ℕ} (hpos : 0 < cap) {rules : Option SafetyRulesConstructor}
    (hrules : ∀ a, rules = some a → GoodRules a)
    (hwallet : wallet ∉ (ConstructorArgs.spending ⟨cap.repr, DEFAULT_WINDOW_SECONDS, rules⟩).tokens) :
    (ConstructorArgs.spending ⟨cap.repr, DEFAULT_WINDOW_SECONDS, rules⟩).Constructs ⟨wallet⟩ ↔ cap < 2 ^ 127 := by
  have hamount : (∃ n, IsAmount cap.repr n) ↔ cap < 2 ^ 127 := by rw [exists_amount_iff, bigInt_repr]
  refine ⟨?_, fun hlt => ?_⟩
  · rintro ⟨limit, _, _, _, hlimit, -⟩
    exact hamount.mp ⟨limit, hlimit⟩
  · obtain ⟨limit, hlimit⟩ := hamount.mpr hlt
    have hval : limit.val = cap := by
      rw [hlimit, bigInt_repr]
    unfold ConstructorArgs.tokens at hwallet
    rw [List.mem_append, not_or] at hwallet
    obtain ⟨tables, htables, hvalid⟩ := exists_rules hrules ⟨wallet⟩ hwallet.1 hwallet.2
    refine ⟨limit, DEFAULT_WINDOW_SECONDS, tables, _, hlimit, rfl, htables, SpendingLimit.constructor_ok.mpr
      ⟨?_, by decide, hvalid, rfl⟩⟩
    rw [hval]
    show (1 : ℤ) ≤ cap
    exact_mod_cast hpos

/-- The token budgets the schema lets through. -/
structure GoodBudget (a : TokenSpendingConstructor) : Prop where
  token : isContractAddress a.token = true
  amount : isBaseUnits a.dailyLimitBaseUnits = true
  window : ∃ n : ℕ, a.windowSeconds = n ∧ 1 ≤ n ∧ n ≤ 31536000

theorem goodBudget_of_schema (h : required tokenBudgetSchema (definition.get? "tokenBudget") = true) :
    ∃ a, deriveTokenSpendingConstructor definition = .ok a ∧ GoodBudget a := by
  obtain ⟨budget, hbudget, hobject⟩ := required_iff.mp h
  obtain ⟨token, -, htoken, haddress⟩ := amountOf_of_required hobject "token" List.mem_cons_self
  obtain ⟨amount, -, hamount, hunits⟩ :=
    amountOf_of_required hobject "amountBaseUnits" (List.mem_cons_of_mem _ List.mem_cons_self)
  have hwindow := strictObject_field hobject "windowSeconds"
    (List.mem_cons_of_mem _ (List.mem_cons_of_mem _ List.mem_cons_self))
  refine ⟨⟨(amountOf budget "token").getD "", (amountOf budget "amountBaseUnits").getD "",
    ((Json.nonNull (budget.get? "windowSeconds")).bind Json.num?).getD DEFAULT_WINDOW_SECONDS⟩, ?_, ?_, ?_, ?_⟩
  · simp only [deriveTokenSpendingConstructor, hbudget, nonNull_of_object hobject]
  · rw [htoken]
    exact haddress
  · rw [hamount]
    exact hunits
  · cases hw : budget.get? "windowSeconds" with
    | none => exact ⟨DEFAULT_WINDOW_SECONDS, rfl, by decide, by decide⟩
    | some w =>
      obtain ⟨n, hn, hlo, hhi⟩ := windowSeconds_bounds (optional_iff.mp hwindow w hw)
      refine ⟨n, ?_, hlo, hhi⟩
      cases w with
      | num q => exact congrArg (fun x : Option ℚ => x.getD DEFAULT_WINDOW_SECONDS) hn
      | null | bool | str | arr | obj => cases hn

theorem GoodBudget.constructs {a : TokenSpendingConstructor} (h : GoodBudget a) (wallet : Address) :
    (ConstructorArgs.tokenSpending a).Constructs wallet := by
  obtain ⟨limit, hlimit, hpos⟩ := exists_amount_of_baseUnits h.amount
  obtain ⟨n, hn, hlo, hhi⟩ := h.window
  exact ⟨limit, n, _, hlimit, hn, TokenSpendingLimit.constructor_ok.mpr ⟨hpos, ⟨hlo, hhi⟩, rfl⟩⟩

/-! ## Publishers -/

/-- Trimming twice is trimming once. -/
theorem trim_trim (s : String) : trim (trim s) = trim s := by
  have hchars : ∀ cs : List Char, trimChars (trimChars cs) = trimChars cs := by
    intro cs
    set l := cs.dropWhile isJsSpace with hl
    have htrim : trimChars cs = l.rdropWhile isJsSpace := rfl
    have hhead : (l.rdropWhile isJsSpace).dropWhile isJsSpace = l.rdropWhile isJsSpace := by
      rw [List.dropWhile_eq_self_iff]
      intro hpos
      have hstart := List.rdropWhile_prefix (p := isJsSpace) (l := l)
      have hlpos : 0 < l.length := lt_of_lt_of_le hpos hstart.length_le
      have hfirst : (l.rdropWhile isJsSpace)[0] = l[0] := hstart.getElem hpos
      rw [hfirst]
      exact List.dropWhile_get_zero_not isJsSpace cs hlpos
    rw [htrim]
    unfold trimChars
    rw [hhead]
    exact List.rdropWhile_idempotent isJsSpace l
  unfold trim
  rw [String.toList_ofList, hchars]

theorem publisherIdFor_trim (s : String) : publisherIdFor P (trim s) = publisherIdFor P s := by
  unfold publisherIdFor canonicalPublisher
  rw [trim_trim]

theorem isCanonicalHash_publisherIdFor {s id : String} (h : publisherIdFor P s = some id) : IsCanonicalHash id := by
  obtain ⟨canonical, -, rfl⟩ := Option.map_eq_some_iff.mp h
  exact ⟨_, Sha256.length_sha256 _, rfl⟩

/-- Accepted publishers all have an id. -/
theorem publisherIds_of_all {publishers : List String} (h : ∀ p ∈ publishers, isPublisher P p = true) :
    ∃ ids, publisherIds P publishers = .ok ids ∧ ids.length = publishers.length ∧
      ∀ id ∈ ids, ∃ p ∈ publishers, publisherIdFor P p = some id := by
  induction publishers with
  | nil => exact ⟨[], rfl, rfl, fun id hid => absurd hid List.not_mem_nil⟩
  | cons p publishers ih =>
    obtain ⟨ids, hids, hlength, hall⟩ := ih fun q hq => h q (List.mem_cons_of_mem _ hq)
    have hp := h p List.mem_cons_self
    simp only [isPublisher, Bool.and_eq_true, publisherIdFor_trim] at hp
    obtain ⟨id, hid⟩ := Option.isSome_iff_exists.mp hp.2
    refine ⟨id :: ids, by simp only [publisherIds, hid, hids]; rfl, by simp [hlength], fun other hother => ?_⟩
    rcases List.mem_cons.mp hother with rfl | hrest
    · exact ⟨p, List.mem_cons_self, hid⟩
    · obtain ⟨q, hq, hqid⟩ := hall other hrest
      exact ⟨q, List.mem_cons_of_mem _ hq, hqid⟩

theorem mem_distinct {ids : List String} {id : String} : id ∈ distinct ids ↔ id ∈ ids := by
  unfold distinct
  rw [List.mem_reverse, List.mem_dedup, List.mem_reverse]

theorem nodup_distinct (ids : List String) : (distinct ids).Nodup := List.nodup_reverse.mpr (List.nodup_dedup _)

theorem length_distinct_le (ids : List String) : (distinct ids).length ≤ ids.length := by
  unfold distinct
  rw [List.length_reverse]
  exact le_trans (List.dedup_sublist _).length_le (by rw [List.length_reverse])

/-- Ids in hexadecimal are 32 bytes each. -/
theorem exists_publishers {ids : List String} (h : ∀ id ∈ ids, IsCanonicalHash id) :
    ∃ publishers : List (BytesN 32), ids.map Attestor.bytes32 = publishers.map some := by
  induction ids with
  | nil => exact ⟨[], rfl⟩
  | cons id ids ih =>
    obtain ⟨publishers, hrest⟩ := ih fun x hx => h x (List.mem_cons_of_mem _ hx)
    obtain ⟨bytes, hbytes, -⟩ := Attestor.bytes32_canonical (h id List.mem_cons_self)
    exact ⟨bytes :: publishers, by rw [List.map_cons, List.map_cons, hbytes, hrest]⟩

/-- The trusted ids of an accepted definition. -/
structure GoodIds (P : Platform) (definition : Json) (ids : List String) : Prop where
  canonical : ∀ id ∈ ids, IsCanonicalHash id
  nodup : ids.Nodup
  pos : 0 < ids.length
  count : ids.length ≤ MAX_TRUSTED_PUBLISHERS
  attributed : ∀ id ∈ ids, ∃ publishers publisher,
    ((definition.get? "provenance").bind fun p => p.get? "trustedPublishers") = some (.arr publishers) ∧
      .str publisher ∈ publishers ∧ publisherIdFor P publisher = some id

theorem amountOf_literal {fields : List (String × Field)} {v : Json} (h : strictObject fields v = true) {key text : String}
    (hmem : (key, required (literal text)) ∈ fields) : amountOf v key = some text := by
  obtain ⟨mode, hget, hliteral⟩ := required_iff.mp (strictObject_field h key hmem)
  rw [literal_iff.mp hliteral] at hget
  exact amountOf_eq_some hget

theorem goodIds_of_schema (h : optional (provenanceSchema P) (definition.get? "provenance") = true) :
    ∃ mode, deriveVerifiedRecipientConstructor P definition = .ok ⟨ATTESTATION_REGISTRY_ID, mode⟩ ∧
      ∀ ids, mode = .trustedPublishers ids → GoodIds P definition ids := by
  cases hprovenance : definition.get? "provenance" with
  | none =>
    refine ⟨.strict, ?_, fun ids hids => by cases hids⟩
    unfold deriveVerifiedRecipientConstructor
    rw [hprovenance]
    rfl
  | some provenance =>
    rcases union_iff.mp (optional_iff.mp h provenance hprovenance) with hobject | hobject
    · have hmode := amountOf_literal hobject List.mem_cons_self
      refine ⟨.strict, ?_, fun ids hids => by cases hids⟩
      simp only [deriveVerifiedRecipientConstructor, hprovenance, nonNull_of_object hobject, Option.getD_some, hmode]
      rfl
    · have hmode := amountOf_literal hobject List.mem_cons_self
      obtain ⟨list, hget, harray⟩ := required_iff.mp
        (strictObject_field hobject "trustedPublishers" (List.mem_cons_of_mem _ List.mem_cons_self))
      obtain ⟨items, rfl, hall, hcheck⟩ := array_iff.mp harray
      simp only [Bool.and_eq_true, decide_eq_true_eq] at hcheck
      obtain ⟨hitems, hpublishers⟩ := strings_of_all hall
      obtain ⟨ids, hids, hlength, hattributed⟩ := publisherIds_of_all hpublishers
      have hcount : ids.length = items.length := by
        conv_rhs => rw [hitems, List.length_map]
        exact hlength
      refine ⟨.trustedPublishers (distinct ids), ?_, fun ids' hids' => ?_⟩
      · simp only [deriveVerifiedRecipientConstructor, hprovenance, nonNull_of_object hobject, Option.getD_some, hmode,
          if_true, hget]
        show (publisherIds P (strings items)).map _ = _
        rw [hids]
        rfl
      · obtain rfl := ModeArg.trustedPublishers.inj hids'
        refine ⟨fun id hid => ?_, nodup_distinct ids, ?_, ?_, fun id hid => ?_⟩
        · obtain ⟨p, -, hp⟩ := hattributed id (mem_distinct.mp hid)
          exact isCanonicalHash_publisherIdFor hp
        · obtain ⟨id, hid⟩ := List.exists_mem_of_length_pos (l := ids) (by omega)
          exact List.length_pos_of_mem (mem_distinct.mpr hid)
        · have hle := length_distinct_le ids
          omega
        · obtain ⟨p, hp, hpid⟩ := hattributed id (mem_distinct.mp hid)
          refine ⟨items, p, by rw [hprovenance]; exact hget, ?_, hpid⟩
          rw [hitems]
          exact List.mem_map_of_mem hp

theorem GoodIds.attributedNodup {ids : List String} (h : GoodIds P definition ids) :
    (ids.map Attestor.bytes32).Nodup :=
  h.nodup.map_on fun a ha b hb heq => Attestor.bytes32_injective (h.canonical a ha) (h.canonical b hb) heq

theorem constructs_of_goodIds {mode : ModeArg} (h : ∀ ids, mode = .trustedPublishers ids → GoodIds P definition ids)
    (wallet : Address) : (ConstructorArgs.verifiedRecipient ⟨ATTESTATION_REGISTRY_ID, mode⟩).Constructs wallet := by
  cases mode with
  | strict => exact ⟨.strict, _, trivial, VerifiedRecipient.constructor_ok.mpr ⟨fun _ h => (by cases h), rfl⟩⟩
  | trustedPublishers ids =>
    have hgood := h ids rfl
    obtain ⟨publishers, hbytes⟩ := exists_publishers hgood.canonical
    have hsame : publishers.length = ids.length := by
      simpa using (congrArg List.length hbytes).symm
    refine ⟨.trustedPublishers publishers, _, hbytes, VerifiedRecipient.constructor_ok.mpr ⟨?_, rfl⟩⟩
    intro list heq
    obtain rfl := VerifiedRecipient.ProvenanceMode.trustedPublishers.inj heq
    have hpos := hgood.pos
    refine ⟨fun hnil => ?_, ?_⟩
    · rw [hnil, List.length_nil] at hsame
      omega
    · rw [hsame]
      exact hgood.count

end Schemas

/-! ## Which accepted definitions are deployable -/

section Deploy

variable {P : Platform} {definition : Json} {numberText : ℚ → String}

/-- The schema an accepted definition passed is that of the one template of its type. -/
theorem schema_of_type (h : validateDefinition P definition none = true) {t : PolicyTemplate} (ht : t ∈ templates P)
    (htype : typeOf definition = t.type) : t.schema definition = true := by
  obtain ⟨t', ht', htype', hschema, -⟩ := validateDefinition_schema h
  have hsame : t'.type = t.type := htype'.trans htype
  have hnames : ((templates P).map PolicyTemplate.type).Nodup := by
    show ["single_owner", "multisig_threshold", "spending_limit", "token_spending_limit", "contract_allowlist",
      "verified_only", "timelock"].Nodup
    decide
  rw [← List.inj_on_of_nodup_map hnames ht' ht hsame]
  exact hschema

theorem getTemplate_spendingLimit : getTemplate P "spending_limit" (some 1) = some spendingLimit := by
  simp [getTemplate, templates, singleOwner, multisigThreshold, spendingLimit]

theorem getTemplate_tokenSpendingLimit : getTemplate P "token_spending_limit" (some 1) = some tokenSpendingLimit := by
  simp [getTemplate, templates, singleOwner, multisigThreshold, spendingLimit, tokenSpendingLimit]

theorem getTemplate_verifiedOnly : getTemplate P "verified_only" (some 1) = some (verifiedOnly P) := by
  simp [getTemplate, templates, singleOwner, multisigThreshold, spendingLimit, tokenSpendingLimit, contractAllowlist,
    verifiedOnly]

/-- A definition whose policy is generated with one enforcement is deployable as far as its arguments are. -/
theorem deployable_of_args {wasmHash : String} {args : ConstructorArgs}
    (hgen : ∀ network, ∃ generated, generatePolicy P numberText definition network = .ok generated ∧
      generated.manifest.enforcement = .policyContract wasmHash (some args)) :
    Deployable P numberText definition ↔ args.Attributed P definition ∧
      ∀ wallet, isContractAddress wallet = true → wallet ∉ args.tokens → args.Constructs ⟨wallet⟩ := by
  refine ⟨fun h => ?_, fun h network => ?_⟩
  · obtain ⟨generated, hash, args', hok, henf, hgood⟩ := h .testnet
    obtain ⟨generated', hok', henf'⟩ := hgen .testnet
    obtain rfl : generated = generated' := Except.ok.inj (hok.symm.trans hok')
    rw [henf] at henf'
    obtain ⟨-, hargs⟩ := Enforcement.policyContract.inj henf'
    obtain rfl := Option.some.inj hargs
    exact hgood
  · obtain ⟨generated, hok, henf⟩ := hgen network
    exact ⟨generated, wasmHash, args, hok, henf, h⟩

variable (numberText) in
theorem generated_of_enforce (h : validateDefinition P definition none = true) {t : PolicyTemplate}
    (ht : getTemplate P (typeOf definition) (some 1) = some t) {enforcement : Enforcement}
    (henf : enforce P definition (typeOf definition) t.enforcement = .ok enforcement) (network : Network) :
    ∃ generated, generatePolicy P numberText definition network = .ok generated ∧
      generated.manifest.enforcement = enforcement := by
  rw [generatePolicy_eq h network ht, henf]
  exact ⟨_, rfl, rfl⟩

theorem tokens_spending_lt {limit : String} {seconds : ℚ} {rules : Option SafetyRulesConstructor}
    (h : ∀ a, rules = some a → GoodRules a) : (ConstructorArgs.spending ⟨limit, seconds, rules⟩).tokens.length < 32 := by
  cases rules with
  | none => exact (show (0 : ℕ) < 32 by decide)
  | some a =>
    have hgood := h a rfl
    have hcaps := hgood.capCount
    have hallowed : (a.allowedTokens.getD []).length ≤ MAX_RULE_ENTRIES := by
      cases ha : a.allowedTokens with
      | none => exact Nat.zero_le _
      | some tokens => exact (hgood.allowed tokens ha).2
    unfold MAX_RULE_ENTRIES at hcaps hallowed
    show (a.maxSingleTransfer.map CapArg.token ++ a.allowedTokens.getD []).length < 32
    rw [List.length_append, List.length_map]
    omega

/-- The digits of base 32. -/
def base32Digits : List Char :=
  ['A', 'B', 'C', 'D', 'E', 'F', 'G', 'H', 'I', 'J', 'K', 'L', 'M', 'N', 'O', 'P', 'Q', 'R', 'S', 'T',
    'U', 'V', 'W', 'X', 'Y', 'Z', '2', '3', '4', '5', '6', '7']

/-- A wallet address for every digit. -/
def walletOf (c : Char) : String := String.ofList ('C' :: c :: List.replicate 54 'A')

theorem walletOf_injective : Function.Injective walletOf := by
  intro c d h
  exact (List.cons.inj (List.cons.inj (String.ofList_injective h)).2).1

theorem isContractAddress_walletOf {c : Char} (h : isBase32 c = true) : isContractAddress (walletOf c) = true := by
  have hA : isBase32 'A' = true := by decide
  unfold isContractAddress walletOf
  rw [String.toList_ofList]
  simp [h, hA]

/-- Among fewer tokens than digits some wallet address is missing. -/
theorem exists_wallet {tokens : List String} (h : tokens.length < 32) :
    ∃ wallet, isContractAddress wallet = true ∧ wallet ∉ tokens := by
  have hdigit : ∀ c ∈ base32Digits, isBase32 c = true := by
    simp [base32Digits, isBase32]
  have hlength : base32Digits.length = 32 := rfl
  have hnodup : (base32Digits.map walletOf).Nodup :=
    (show base32Digits.Nodup by decide).map walletOf_injective
  by_contra hno
  push Not at hno
  have hsub : base32Digits.map walletOf ⊆ tokens := by
    intro w hw
    obtain ⟨c, hc, rfl⟩ := List.mem_map.mp hw
    exact hno _ (isContractAddress_walletOf (hdigit c hc))
  have hle := (List.subperm_of_subset hnodup hsub).length_le
  rw [List.length_map] at hle
  omega

/-- The enforcement generated for an accepted `spending_limit` definition. -/
theorem enforce_spending (hvalid : validateDefinition P definition none = true)
    (htype : typeOf definition = "spending_limit") :
    0 < xlmToStroops (capXlm definition) ∧ (∀ a, deriveSafetyRules definition = some a → GoodRules a) ∧
      enforce P definition (typeOf definition) spendingLimit.enforcement =
        .ok (.policyContract SPENDING_POLICY_WASM_HASH (some (.spending
          ⟨(xlmToStroops (capXlm definition)).repr, DEFAULT_WINDOW_SECONDS, deriveSafetyRules definition⟩))) := by
  have hschema : spendingLimit.schema definition = true :=
    schema_of_type hvalid (by simp [templates]) htype
  have hlimits : required spendingLimitsSchema (definition.get? "spendingLimits") = true :=
    strictObject_field hschema "spendingLimits" (by simp)
  have hrules : optional safetyRulesSchema (definition.get? "safetyRules") = true :=
    strictObject_field hschema "safetyRules" (by simp)
  obtain ⟨hpos, hderive⟩ := deriveSpendingConstructor_of_schema hlimits
  refine ⟨hpos, fun a ha => goodRules_of_schema hrules ha, ?_⟩
  simp only [enforce, spendingLimit, htype, if_true, hderive]
  rfl

/-- The enforcement generated for an accepted `token_spending_limit` definition. -/
theorem enforce_tokenSpending (hvalid : validateDefinition P definition none = true)
    (htype : typeOf definition = "token_spending_limit") :
    ∃ a, deriveTokenSpendingConstructor definition = .ok a ∧ GoodBudget a ∧
      enforce P definition (typeOf definition) tokenSpendingLimit.enforcement =
        .ok (.policyContract TOKEN_SPENDING_POLICY_WASM_HASH (some (.tokenSpending a))) := by
  have hschema : tokenSpendingLimit.schema definition = true :=
    schema_of_type hvalid (by simp [templates]) htype
  have hbudget : required tokenBudgetSchema (definition.get? "tokenBudget") = true :=
    strictObject_field hschema "tokenBudget" (by simp)
  obtain ⟨a, hderive, hgood⟩ := goodBudget_of_schema hbudget
  refine ⟨a, hderive, hgood, ?_⟩
  simp only [enforce, tokenSpendingLimit, htype, hderive]
  rfl

/-- The enforcement generated for an accepted `verified_only` definition. -/
theorem enforce_verifiedOnly (hvalid : validateDefinition P definition none = true)
    (htype : typeOf definition = "verified_only") :
    ∃ mode, (∀ ids, mode = .trustedPublishers ids → GoodIds P definition ids) ∧
      enforce P definition (typeOf definition) (verifiedOnly P).enforcement =
        .ok (.policyContract VERIFIED_RECIPIENT_WASM_HASH
          (some (.verifiedRecipient ⟨ATTESTATION_REGISTRY_ID, mode⟩))) := by
  have hschema : (verifiedOnly P).schema definition = true :=
    schema_of_type hvalid (by simp [templates]) htype
  have hprovenance : optional (provenanceSchema P) (definition.get? "provenance") = true :=
    strictObject_field hschema "provenance" (by simp)
  obtain ⟨mode, hderive, hgood⟩ := goodIds_of_schema hprovenance
  refine ⟨mode, hgood, ?_⟩
  simp only [enforce, verifiedOnly, htype, hderive]
  rfl

theorem deployable_spending_iff (hvalid : validateDefinition P definition none = true)
    (htype : typeOf definition = "spending_limit") :
    Deployable P numberText definition ↔ xlmToStroops (capXlm definition) < 2 ^ 127 := by
  obtain ⟨hpos, hgood, henf⟩ := enforce_spending hvalid htype
  rw [deployable_of_args (generated_of_enforce numberText hvalid (htype ▸ getTemplate_spendingLimit) henf)]
  refine ⟨fun h => ?_, fun h => ⟨trivial, fun wallet _ hwallet => ?_⟩⟩
  · obtain ⟨wallet, haddress, hwallet⟩ := exists_wallet (tokens_spending_lt hgood)
    exact (constructs_spending_iff hpos hgood hwallet).mp (h.2 wallet haddress hwallet)
  · exact (constructs_spending_iff hpos hgood hwallet).mpr h

theorem deployable_tokenSpending (hvalid : validateDefinition P definition none = true)
    (htype : typeOf definition = "token_spending_limit") : Deployable P numberText definition := by
  obtain ⟨a, -, hgood, henf⟩ := enforce_tokenSpending hvalid htype
  rw [deployable_of_args (generated_of_enforce numberText hvalid (htype ▸ getTemplate_tokenSpendingLimit) henf)]
  exact ⟨trivial, fun wallet _ _ => hgood.constructs ⟨wallet⟩⟩

theorem deployable_verifiedOnly (hvalid : validateDefinition P definition none = true)
    (htype : typeOf definition = "verified_only") : Deployable P numberText definition := by
  obtain ⟨mode, hgood, henf⟩ := enforce_verifiedOnly hvalid htype
  rw [deployable_of_args (generated_of_enforce numberText hvalid (htype ▸ getTemplate_verifiedOnly) henf)]
  refine ⟨?_, fun wallet _ _ => constructs_of_goodIds hgood ⟨wallet⟩⟩
  cases mode with
  | strict => trivial
  | trustedPublishers ids => exact ⟨(hgood ids rfl).attributedNodup, (hgood ids rfl).attributed⟩

/-- **An accepted contract-enforced definition is deployable exactly when its cap fits the contract**: for
`spending_limit` the daily cap must fit i128; the other two templates always do. -/
theorem deployable_iff (hvalid : validateDefinition P definition none = true) (hcontract : ContractEnforced P definition) :
    Deployable P numberText definition ↔
      (typeOf definition = "spending_limit" → xlmToStroops (capXlm definition) < 2 ^ 127) := by
  rcases contractEnforced_cases hcontract with htype | htype | htype
  · rw [deployable_spending_iff hvalid htype]
    exact ⟨fun h _ => h, fun h => h htype⟩
  · exact ⟨fun _ hno => absurd (htype.symm.trans hno) (by decide), fun _ => deployable_tokenSpending hvalid htype⟩
  · exact ⟨fun _ hno => absurd (htype.symm.trans hno) (by decide), fun _ => deployable_verifiedOnly hvalid htype⟩

end Deploy

/-! Two spending limits, one of 12.5 XLM a day and one of 10^32. -/

def owner : String := "GAAAAAAAAAAAAAAAAAAAAAAAAAAAAAAAAAAAAAAAAAAAAAAAAAAAAAAA"

def dailyLimit (dailyXlm : String) : Json := .obj
  [("version", .str "1"), ("type", .str "spending_limit"), ("owners", .arr [.str owner]),
    ("spendingLimits", .obj [("dailyXlm", .str dailyXlm)])]

theorem deployable_iff_daily :
    Deployable Attestor.acmePlatform (fun q => q.num.repr) (dailyLimit "12.5") :=
  (deployable_iff (by decide)
    ⟨spendingLimit, by simp [templates], rfl, SPENDING_POLICY_WASM_HASH, none, rfl⟩).mpr fun _ => by decide

/-- The limit is accepted, and its stroops do not fit i128. -/
theorem accepted_cap_overflows :
    validateDefinition Attestor.acmePlatform (dailyLimit "100000000000000000000000000000000") none = true ∧
    ContractEnforced Attestor.acmePlatform (dailyLimit "100000000000000000000000000000000") ∧
    ¬ Deployable Attestor.acmePlatform (fun q => q.num.repr) (dailyLimit "100000000000000000000000000000000") := by
  have hvalid : validateDefinition Attestor.acmePlatform (dailyLimit "100000000000000000000000000000000") none = true := by
    decide
  refine ⟨hvalid, ⟨spendingLimit, by simp [templates], rfl, SPENDING_POLICY_WASM_HASH, none, rfl⟩, fun h => ?_⟩
  have hfits := (deployable_spending_iff hvalid rfl).mp h
  exact absurd hfits (by decide)

end Vellar.Policy
