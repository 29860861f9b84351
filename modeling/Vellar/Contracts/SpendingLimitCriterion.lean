import Vellar.Contracts.SpendingLimitRuns

/-!
# Vellar.Contracts.SpendingLimitCriterion — exactly what the spending limit accepts

The criterion of the policy's documentation, in unbounded integers, against `policy__` in every storage that calls of the
instance can reach.  A reachable allowance is not negative (`Sound`), so the running total of an accepted list never leaves
`i128` (`total_ok`).
-/

set_option autoImplicit false

namespace Vellar.SpendingLimit

open Checked Soroban Machine

/-! ## The criterion -/

/-- Whether the stored window is over at `now`, or there is none. -/
def Renewed (windowSeconds now : ℕ) : Option Allowance → Prop
  | none => True
  | some a => (windowSeconds : ℤ) ≤ (now : ℤ) - a.windowStart

instance (windowSeconds now : ℕ) : DecidablePred (Renewed windowSeconds now)
  | none => isTrue trivial
  | some _ => inferInstanceAs (Decidable (_ ≤ _))

/-- What is spent of the window that a check at `now` counts in. -/
def effectiveSpent (windowSeconds now : ℕ) (stored : Option Allowance) : ℤ :=
  if Renewed windowSeconds now stored then 0 else (stored.map fun a => a.spent.val).getD 0

/-- Where that window starts. -/
def effectiveStart (windowSeconds now : ℕ) (stored : Option Allowance) : ℕ :=
  if Renewed windowSeconds now stored then now else (stored.map Allowance.windowStart).getD now

/-- The documented criterion. -/
structure Criterion (config : Config) (s : Storage) (now : ℕ) (source : Address) (contexts : List Context) : Prop where
  bound : source = config.wallet
  installed : s.installed source = true
  nonempty : 1 ≤ contexts.length
  bounded : contexts.length ≤ MAX_CONTEXTS
  transfers : ∀ context ∈ contexts, ∃ t, IsTransfer source context t ∧ RulesAllow config.rules t
  within : effectiveSpent config.windowSeconds now (s.spend source) + (contexts.map amountOf).sum ≤ config.dailyLimit.val

theorem currentAllowance_effective {windowSeconds : ℕ} (now : ℕ) (hW : 1 ≤ windowSeconds) (stored : Option Allowance) :
    (currentAllowance windowSeconds now stored).windowStart = effectiveStart windowSeconds now stored ∧
      (currentAllowance windowSeconds now stored).spent.val = effectiveSpent windowSeconds now stored := by
  unfold currentAllowance effectiveStart effectiveSpent
  cases stored with
  | none => simp [Renewed]
  | some a =>
    by_cases hover : now - a.windowStart ≥ windowSeconds
    · have hrenewed : Renewed windowSeconds now (some a) := by
        show (windowSeconds : ℤ) ≤ (now : ℤ) - a.windowStart
        omega
      simp [hover, hrenewed]
    · have hrunning : ¬ Renewed windowSeconds now (some a) := by
        show ¬ (windowSeconds : ℤ) ≤ (now : ℤ) - a.windowStart
        omega
      simp [hover, hrunning]

/-- The storage with a new spend record for a wallet. -/
def Storage.setSpend (s : Storage) (source : Address) (allowance : Allowance) : Storage :=
  { s with spend := Function.update s.spend source (some allowance) }

/-! ## The running total -/

section Total

variable {source : Address} {rules : SafetyRules} {contexts : List Context}

theorem amountOf_pos {context : Context} (h : ∃ t, IsTransfer source context t ∧ RulesAllow rules t) : 0 < amountOf context := by
  obtain ⟨t, ht, -⟩ := h
  rw [amountOf_transfer ht]
  obtain ⟨-, -, -, -, hpos⟩ := ht
  exact hpos

theorem sum_nonneg (h : ∀ context ∈ contexts, ∃ t, IsTransfer source context t ∧ RulesAllow rules t) :
    0 ≤ (contexts.map amountOf).sum := by
  refine List.sum_nonneg fun n hn => ?_
  obtain ⟨context, hmem, rfl⟩ := List.mem_map.mp hn
  exact (amountOf_pos (h context hmem)).le

/-- **The checked additions do not get in the way**: the loop goes through when every context passes its checks and the sum
fits in `i128`. -/
theorem total_ok (h : ∀ context ∈ contexts, ∃ t, IsTransfer source context t ∧ RulesAllow rules t) {acc : I128} (hacc : 0 ≤ acc.val)
    (hfits : acc.val + (contexts.map amountOf).sum < 2 ^ 127) :
    ∃ total, contexts.foldlM (addContext source rules) acc = .ok total := by
  induction contexts generalizing acc with
  | nil => exact ⟨acc, rfl⟩
  | cons context rest ih =>
    obtain ⟨t, ht, hrules⟩ := h context List.mem_cons_self
    have hrest := fun c hc => h c (List.mem_cons_of_mem _ hc)
    have hamount := amountOf_transfer ht
    have hpos := amountOf_pos ⟨t, ht, hrules⟩
    have hnonneg := sum_nonneg hrest
    rw [List.map_cons, List.sum_cons] at hfits
    let next : I128 := ⟨acc.val + t.amount.val, by omega, by omega⟩
    have hadd : addContext source rules acc context = .ok next := addContext_ok.mpr ⟨t, ht, hrules, rfl⟩
    have hval : next.val = acc.val + amountOf context := by rw [hamount]
    obtain ⟨total, htotal⟩ := @ih hrest next (by omega) (by omega)
    exact ⟨total, foldlM_cons_ok.mpr ⟨next, hadd, htotal⟩⟩

/-- A loop that goes through has parsed and checked every context. -/
theorem transfers_of_ok {acc total : I128} (h : contexts.foldlM (addContext source rules) acc = .ok total) :
    ∀ context ∈ contexts, ∃ t, IsTransfer source context t ∧ RulesAllow rules t := by
  intro context hmem
  obtain ⟨b, b', hadd⟩ := foldlM_ok_mem h context hmem
  obtain ⟨t, ht, hrules, -⟩ := addContext_ok.mp hadd
  exact ⟨t, ht, hrules⟩

end Total

/-! ## Reachable storages -/

/-- The storage of the instance with `config`; no allowance is negative. -/
structure Sound (config : Config) (s : Storage) : Prop where
  cfg : s.config = some config
  spent : ∀ w a, s.spend w = some a → 0 ≤ a.spent.val

section Reachable

variable {config : Config} {s : Storage}

theorem constructor_sound {wallet : Address} {dailyLimit : I128} {windowSeconds : ℕ} {rules : SafetyRules} {s : Storage}
    (h : constructor wallet dailyLimit windowSeconds rules = .ok s) : Sound ⟨wallet, dailyLimit, windowSeconds, rules⟩ s := by
  obtain ⟨-, -, -, rfl⟩ := constructor_ok.mp h
  exact ⟨rfl, fun w a ha => nomatch ha⟩

theorem Sound.effectiveSpent_nonneg (h : Sound config s) (windowSeconds now : ℕ) (w : Address) :
    0 ≤ effectiveSpent windowSeconds now (s.spend w) := by
  unfold effectiveSpent
  by_cases hrenewed : Renewed windowSeconds now (s.spend w)
  · rw [if_pos hrenewed]
  · rw [if_neg hrenewed]
    cases hstored : s.spend w with
    | none => exact le_rfl
    | some a => exact h.spent w a hstored

theorem Sound.currentAllowance_nonneg (h : Sound config s) (windowSeconds now : ℕ) (w : Address) :
    0 ≤ (currentAllowance windowSeconds now (s.spend w)).spent.val := by
  unfold currentAllowance
  by_cases hover : now - ((s.spend w).getD ⟨now, .zero⟩).windowStart ≥ windowSeconds
  · simp [hover]
  · simp only [if_neg hover]
    cases hstored : s.spend w with
    | none => exact le_rfl
    | some a => exact h.spent w a hstored

/-- **Acceptance**, in a sound storage. -/
theorem Sound.policy_iff (h : Sound config s) (hW : 1 ≤ config.windowSeconds) {env : Env} {source : Address}
    (hauth : source ∈ env.auths) (signer : SignerKey) (contexts : List Context) (s' : Storage) :
    policy env s source signer contexts = .ok s' ↔
      Criterion config s env.timestamp source contexts ∧
        ∃ newSpent : I128,
          newSpent.val = effectiveSpent config.windowSeconds env.timestamp (s.spend source) + (contexts.map amountOf).sum ∧
          s' = s.setSpend source ⟨effectiveStart config.windowSeconds env.timestamp (s.spend source), newSpent⟩ := by
  obtain ⟨hstart, hspent⟩ := currentAllowance_effective env.timestamp hW (s.spend source)
  have hnonneg := h.effectiveSpent_nonneg config.windowSeconds env.timestamp source
  constructor
  · intro hok
    obtain ⟨-, config', hcfg, hwallet, hinstalled, hne, hle, total, hfold, newSpent, hnew, hwithin, rfl⟩ := policy_ok.mp hok
    obtain rfl : config = config' := Option.some.inj (h.cfg.symm.trans hcfg)
    obtain ⟨hsum, -⟩ := total_eq hfold
    rw [hspent, hsum] at hnew
    rw [hstart]
    exact ⟨⟨hwallet, hinstalled, List.length_pos_iff.mpr hne, hle, transfers_of_ok hfold, hnew ▸ hwithin⟩, newSpent, hnew, rfl⟩
  · rintro ⟨hcrit, newSpent, hnew, rfl⟩
    have hlimit := config.dailyLimit.hi
    have hwithin := hcrit.within
    obtain ⟨total, hfold⟩ := @total_ok source config.rules contexts hcrit.transfers .zero le_rfl (by rw [I128.zero_val]; omega)
    obtain ⟨hsum, -⟩ := total_eq hfold
    refine policy_ok.mpr ⟨hauth, config, h.cfg, hcrit.bound, hcrit.installed, List.length_pos_iff.mp hcrit.nonempty,
      hcrit.bounded, total, hfold, newSpent, ?_, hnew ▸ hwithin, ?_⟩
    · rw [hspent, hsum]
      exact hnew
    · rw [hstart]
      rfl

/-- **Step**: every call keeps the storage sound. -/
theorem step_sound (h : Sound config s) (c : Call) : Sound config (step s c) := by
  cases hex : exec s c with
  | error e =>
    rw [(step_error hex).1]
    exact h
  | ok s' =>
    have hs : step s c = s' := by simp [step, hex]
    rw [hs]
    cases c with
    | install env wallet =>
      obtain ⟨-, -, rfl⟩ := install_ok.mp hex
      exact ⟨h.cfg, h.spent⟩
    | uninstall env wallet getSigner =>
      simp only [exec, uninstall, bind_ok, require_ok, orStop_ok, pure_ok, exists_const] at hex
      obtain ⟨-, -, -, rfl⟩ := hex
      refine ⟨h.cfg, fun w a ha => ?_⟩
      by_cases hw : w = wallet
      · rw [hw] at ha
        simp at ha
      · exact h.spent w a (by simpa [Function.update_of_ne hw] using ha)
    | policy env source signer contexts =>
      have hpolicy : policy env s source signer contexts = .ok s' := hex
      obtain ⟨-, config', hcfg, -, -, -, -, total, hfold, newSpent, hnew, -, rfl⟩ := policy_ok.mp hpolicy
      obtain ⟨-, hpos⟩ := total_eq hfold
      have hcurrent := h.currentAllowance_nonneg config'.windowSeconds env.timestamp source
      refine ⟨h.cfg, fun w a ha => ?_⟩
      by_cases hw : w = source
      · rw [hw] at ha
        simp only [Function.update_self, Option.some.injEq] at ha
        rw [← ha]
        show 0 ≤ newSpent.val
        omega
      · exact h.spent w a (by simpa [Function.update_of_ne hw] using ha)

/-- **Run**: so does every list of calls. -/
theorem run_sound (h : Sound config s) (calls : List Call) : Sound config (run step s calls) := by
  induction calls generalizing s with
  | nil => exact h
  | cons c calls ih => exact ih (step_sound h c)

/-- **Acceptance is exactly the documented criterion**: after any calls of the instance, in any order and at any times, a
`policy__` call with the source's authorization succeeds if and only if the criterion holds in unbounded integers; then the sum
is written, and otherwise nothing is. -/
theorem policy_accepts_iff {wallet : Address} {dailyLimit : I128} {windowSeconds : ℕ} {rules : SafetyRules} {init : Storage}
    (hctor : constructor wallet dailyLimit windowSeconds rules = .ok init) (calls : List Call) {env : Env} {source : Address}
    (hauth : source ∈ env.auths) (signer : SignerKey) (contexts : List Context) :
    (∀ s', policy env (run step init calls) source signer contexts = .ok s' ↔
      Criterion ⟨wallet, dailyLimit, windowSeconds, rules⟩ (run step init calls) env.timestamp source contexts ∧
        ∃ newSpent : I128,
          newSpent.val = effectiveSpent windowSeconds env.timestamp ((run step init calls).spend source) +
            (contexts.map amountOf).sum ∧
          s' = (run step init calls).setSpend source
            ⟨effectiveStart windowSeconds env.timestamp ((run step init calls).spend source), newSpent⟩) ∧
    (¬ Criterion ⟨wallet, dailyLimit, windowSeconds, rules⟩ (run step init calls) env.timestamp source contexts →
      run step init (calls ++ [.policy env source signer contexts]) = run step init calls) := by
  have hsound := run_sound (constructor_sound hctor) calls
  have hiff := hsound.policy_iff (constructor_good hctor).2 hauth signer contexts
  refine ⟨hiff, fun hno => ?_⟩
  rw [run_snoc]
  cases hex : exec (run step init calls) (.policy env source signer contexts) with
  | ok s' => exact absurd ((hiff s').mp hex).1 hno
  | error e => exact (step_error hex).1

/-- The boundary run: the whole limit is accepted again after the reset. -/
theorem policy_accepts_boundary :
    ∃ s', policy ⟨5, 0, ⟨"CPOLICY"⟩, [boundaryWallet]⟩ (run step boundaryStorage (boundaryCalls.take 3)) boundaryWallet
      (.policy ⟨"CPOLICY"⟩)
      [.contract ⟨⟨"CTOKEN"⟩, "transfer", [.address boundaryWallet, .address ⟨"GPAYEE"⟩, .i128 (.ofNat 10 (by decide))]⟩] = .ok s' := by
  have hctor : constructor boundaryWallet (.ofNat 10 (by decide)) 5 boundaryRules = .ok boundaryStorage := rfl
  have hauth : boundaryWallet ∈ [boundaryWallet] := List.mem_singleton_self _
  have haccepts := (@policy_accepts_iff _ _ _ _ _ hctor (boundaryCalls.take 3) ⟨5, 0, ⟨"CPOLICY"⟩, [boundaryWallet]⟩ _ hauth
    (.policy ⟨"CPOLICY"⟩)
    [.contract ⟨⟨"CTOKEN"⟩, "transfer", [.address boundaryWallet, .address ⟨"GPAYEE"⟩, .i128 (.ofNat 10 (by decide))]⟩]).1
  refine ⟨_, (haccepts _).mpr ⟨?_, .ofNat 10 (by decide), by decide, rfl⟩⟩
  refine ⟨rfl, rfl, by decide, by decide, fun context hmem => ?_, by decide⟩
  obtain rfl := List.mem_singleton.mp hmem
  have hrules : RulesAllow boundaryRules ⟨⟨"CTOKEN"⟩, .ofNat 10 (by decide)⟩ :=
    ⟨fun tokens h => (by cases h), fun cap h => (by cases h)⟩
  exact ⟨⟨⟨"CTOKEN"⟩, .ofNat 10 (by decide)⟩, ⟨⟨"GPAYEE"⟩, rfl, by decide, by decide, by decide⟩, hrules⟩

end Reachable

end Vellar.SpendingLimit
