import Vellar.Worker.Attestor
import Vellar.Worker.MemoryJobStore
import Vellar.Worker.PgJobStore

/-!
# Vellar.Worker.UpgradeSweep — what the upgrade sweep revokes

`runUpgradeSweep` of `services/worker-service/src/attestor.ts`, as `index.ts` schedules it.  `sweepEach_eq_iff`: it revokes on
the evidence that it should, exactly when no lookup times out.  `sweep_covers_iff`: a pass leaves no stale attestation exactly
when the watch list names every contract that is to be watched.
-/

set_option autoImplicit false

namespace Vellar.Worker.Attestor

open Soroban Effect

/-! ## What it revokes on -/

section Decision

/-- An entry, and the resolver that is asked for it. -/
abbrev Ask := WatchEntry × ContractArtifactResolver

/-- The loop of the sweep: an entry that fails does not stop the others. -/
def eachEntry (body : Ask → Act ℕ) : List Ask → Act ℕ
  | [] => pure 0
  | ask :: rest => do
    let n ← attempt (body ask) fun _ => do
      emit .error
      pure 0
    let m ← eachEntry body rest
    pure (n + m)

/-- The sweep, where every lookup may be answered differently. -/
def sweepEach : List Ask → Act ℕ := eachEntry fun ask => sweepEntry ask.2 ask.1

theorem runUpgradeSweep_eq (watch : List WatchEntry) (resolver : ContractArtifactResolver) :
    runUpgradeSweep (.ok watch) resolver = sweepEach (watch.map fun entry => (entry, resolver)) := by
  show sweepLoop resolver watch = eachEntry _ _
  induction watch with
  | nil => rfl
  | cons entry rest ih =>
    rw [List.map_cons, eachEntry, sweepLoop, ih]

/-- The resolver has positively answered another hash, or that there is no such wasm contract. -/
def decisive (entry : WatchEntry) (resolver : ContractArtifactResolver) : Bool :=
  match resolver.resolveDeployedHash entry.contractId with
  | .ok hash => hash ≠ entry.outputHash
  | .error (.resolve code _) => code = .notFound ∨ code = .notWasm
  | .error _ => false

/-- One entry as it is meant: revoked if and only if it is attested and the answer is decisive. -/
def decideEntry (resolver : ContractArtifactResolver) (entry : WatchEntry) : Act ℕ := do
  let attested ← isAttested entry.contractId
  if attested = true ∧ decisive entry resolver = true then do
    revoke entry.contractId
    emit .revoked
    pure 1
  else pure 0

/-- The sweep as it is meant: every entry is decided for itself, whatever becomes of the others. -/
def decideEach : List Ask → Act ℕ := eachEntry fun ask => decideEntry ask.2 ask.1

def TimesOut (ask : Ask) : Prop :=
  ∃ message, ask.2.resolveDeployedHash ask.1.contractId = .error (.resolve .timeout message)

variable {ask : Ask} {asks : List Ask}

/-- What the code revokes an attested entry on. -/
def RevokesOn (entry : WatchEntry) (resolver : ContractArtifactResolver) : Prop :=
  ∃ live, liveHash resolver entry.contractId = some live ∧ live ≠ some entry.outputHash

theorem revokesOn_iff : RevokesOn ask.1 ask.2 ↔ decisive ask.1 ask.2 = true ∨ TimesOut ask := by
  unfold RevokesOn decisive TimesOut liveHash
  cases hanswer : ask.2.resolveDeployedHash ask.1.contractId with
  | ok hash => simp
  | error e =>
    cases e with
    | resolve code message => cases code <;> simp
    | build | error | value => simp

/-- One entry, by what it revokes on. -/
theorem sweepEntry_eq {entry : WatchEntry} {resolver : ContractArtifactResolver} [Decidable (RevokesOn entry resolver)] :
    sweepEntry resolver entry = (do
      let attested ← isAttested entry.contractId
      if attested = true ∧ RevokesOn entry resolver then do
        revoke entry.contractId
        emit .revoked
        pure 1
      else pure 0) := by
  unfold sweepEntry
  refine bind_congr fun attested => ?_
  cases attested with
  | false => simp
  | true =>
    cases hlive : liveHash resolver entry.contractId with
    | none =>
      have hno : ¬ RevokesOn entry resolver := fun ⟨live, h, _⟩ => by
        rw [hlive] at h
        cases h
      simp [hno]
    | some live =>
      have hiff : RevokesOn entry resolver ↔ live ≠ some entry.outputHash :=
        ⟨fun ⟨live', h, hne⟩ => Option.some.inj (hlive.symm.trans h) ▸ hne, fun hne => ⟨live, hlive, hne⟩⟩
      simp only [if_true, hiff, true_and]

/-- An entry whose lookup does not time out is decided as it is meant. -/
theorem sweepEntry_eq_decide (h : ¬ TimesOut ask) : sweepEntry ask.2 ask.1 = decideEntry ask.2 ask.1 := by
  classical
  have hiff : RevokesOn ask.1 ask.2 ↔ decisive ask.1 ask.2 = true := revokesOn_iff.trans (or_iff_left h)
  rw [sweepEntry_eq]
  unfold decideEntry
  simp only [hiff]

/-- The loop always returns. -/
theorem eachEntry_returns (body : Ask → Act ℕ) (asks : List Ask) (w : World) :
    ∃ n w', Returns (eachEntry body asks) w n w' := by
  induction asks generalizing w with
  | nil => exact ⟨0, w, returns_pure.mpr ⟨rfl, rfl⟩⟩
  | cons ask rest ih =>
    obtain ⟨n, w₁, hfirst⟩ : ∃ n w₁, Returns (attempt (body ask) fun _ => do
        emit .error
        pure 0) w n w₁ := by
      unfold Returns
      show ∃ n w₁, attempt (body ask) _ w = .ok n w₁
      unfold attempt
      cases body ask w with
      | ok n w₁ => exact ⟨n, w₁, rfl⟩
      | error e w₁ => exact ⟨0, _, rfl⟩
    obtain ⟨m, w₂, hrest⟩ := ih w₁
    exact ⟨n + m, w₂, returns_bind.mpr ⟨n, w₁, hfirst, returns_bind.mpr ⟨m, w₂, hrest, returns_pure.mpr ⟨rfl, rfl⟩⟩⟩⟩

theorem eachEntry_cons_error (body : Ask → Act ℕ) (rest : List Ask) {e : Thrown} {w w' : World} (h : body ask w = .error e w') :
    eachEntry body (ask :: rest) w = eachEntry body rest { w' with metrics := w'.metrics ++ [.error] } := by
  have hfirst : attempt (body ask) (fun _ => do
      emit .error
      pure 0) w = .ok 0 { w' with metrics := w'.metrics ++ [.error] } := by
    unfold attempt
    rw [h]
    rfl
  show EStateM.bind _ _ w = _
  unfold EStateM.bind
  rw [hfirst]
  show EStateM.bind _ _ _ = _
  unfold EStateM.bind
  obtain ⟨m, w₂, hrest⟩ := eachEntry_returns body rest { w' with metrics := w'.metrics ++ [.error] }
  rw [show eachEntry body rest { w' with metrics := w'.metrics ++ [.error] } = .ok m w₂ from hrest]
  show EStateM.Result.ok (0 + m) w₂ = .ok m w₂
  rw [Nat.zero_add]

theorem eachEntry_cons_ok (body : Ask → Act ℕ) (rest : List Ask) {n : ℕ} {w w' : World} (h : body ask w = .ok n w') :
    ∃ m w'', Returns (eachEntry body rest) w' m w'' ∧ Returns (eachEntry body (ask :: rest)) w (n + m) w'' := by
  obtain ⟨m, w'', hrest⟩ := eachEntry_returns body rest w'
  have hfirst : Returns (body ask) w n w' := h
  exact ⟨m, w'', hrest, returns_bind.mpr ⟨n, w', hfirst.attempt, returns_bind.mpr ⟨m, w'', hrest, returns_pure.mpr ⟨rfl, rfl⟩⟩⟩⟩

/-- Entries whose first read fails are passed over. -/
theorem eachEntry_fails {body : Ask → Act ℕ} {k : Ask → Bool → Act ℕ}
    (hbody : ∀ ask, body ask = isAttested ask.1.contractId >>= k ask) {pre : List Ask} (post : List Ask)
    {answers : List Answer} {e : Thrown} {w : World}
    (hw : w.answers = List.replicate pre.length (.failed e) ++ answers) :
    ∃ metrics, eachEntry body (pre ++ post) w = eachEntry body post { w with answers := answers, metrics := metrics } := by
  obtain rfl : body = fun ask => isAttested ask.1.contractId >>= k ask := funext hbody
  induction pre generalizing w with
  | nil =>
    obtain rfl : w.answers = answers := hw
    exact ⟨w.metrics, rfl⟩
  | cons ask pre ih =>
    have hfail : isAttested ask.1.contractId w =
        .error e { w with answers := List.replicate pre.length (.failed e) ++ answers } := by
      unfold isAttested read
      rw [hw, List.length_cons, List.replicate_succ, List.cons_append]
    have hbody : (isAttested ask.1.contractId >>= k ask) w =
        .error e { w with answers := List.replicate pre.length (.failed e) ++ answers } := by
      show EStateM.bind _ _ w = _
      unfold EStateM.bind
      rw [hfail]
    obtain ⟨metrics, hrest⟩ := @ih { w with
      answers := List.replicate pre.length (.failed e) ++ answers, metrics := w.metrics ++ [.error] } rfl
    refine ⟨metrics, ?_⟩
    rw [List.cons_append, eachEntry_cons_error _ _ hbody]
    exact hrest

/-- With less than two answers to come an entry is not revoked. -/
theorem decideEntry_none {w : World} (hw : w.answers.length ≤ 1) :
    (∃ e w', decideEntry ask.2 ask.1 w = .error e w' ∧ w'.answers.length ≤ 1) ∨
      ∃ w', decideEntry ask.2 ask.1 w = .ok 0 w' ∧ w'.answers.length ≤ 1 := by
  obtain ⟨registry, answers, metrics⟩ := w
  cases answers with
  | nil => exact .inl ⟨noAnswer, _, rfl, hw⟩
  | cons a rest =>
    obtain rfl : rest = [] := List.length_eq_zero_iff.mp (Nat.le_zero.mp (Nat.le_of_succ_le_succ hw))
    cases a with
    | failed e => exact .inl ⟨e, _, rfl, Nat.zero_le 1⟩
    | unconfirmed env e => exact .inl ⟨e, _, rfl, Nat.zero_le 1⟩
    | ok env =>
      by_cases hdecide : (registry.attestation ⟨ask.1.contractId⟩).isSome = true ∧ decisive ask.1 ask.2 = true
      · refine .inl ⟨noAnswer, ⟨registry, [], metrics⟩, ?_, Nat.zero_le 1⟩
        show (if (registry.attestation ⟨ask.1.contractId⟩).isSome = true ∧ decisive ask.1 ask.2 = true then _ else _ : Act ℕ) _ = _
        rw [if_pos hdecide]
        rfl
      · refine .inr ⟨⟨registry, [], metrics⟩, ?_, Nat.zero_le 1⟩
        show (if (registry.attestation ⟨ask.1.contractId⟩).isSome = true ∧ decisive ask.1 ask.2 = true then _ else _ : Act ℕ) _ = _
        rw [if_neg hdecide]
        rfl

/-- With less than two answers to come nothing is revoked. -/
theorem decideEach_none (asks : List Ask) {w : World} (hw : w.answers.length ≤ 1) : ∃ w', Returns (decideEach asks) w 0 w' := by
  induction asks generalizing w with
  | nil => exact ⟨w, returns_pure.mpr ⟨rfl, rfl⟩⟩
  | cons ask rest ih =>
    have hfirst : (∃ e w', decideEntry ask.2 ask.1 w = .error e w' ∧ w'.answers.length ≤ 1) ∨
        ∃ w', decideEntry ask.2 ask.1 w = .ok 0 w' ∧ w'.answers.length ≤ 1 := decideEntry_none hw
    rcases hfirst with ⟨e, w₁, hfail, hle⟩ | ⟨w₁, hok, hle⟩
    · obtain ⟨w', hrest⟩ := @ih { w₁ with metrics := w₁.metrics ++ [.error] } hle
      exact ⟨w', (eachEntry_cons_error (fun ask => decideEntry ask.2 ask.1) rest hfail).trans hrest⟩
    · obtain ⟨m, w'', hrest, hall⟩ := eachEntry_cons_ok (fun ask => decideEntry ask.2 ask.1) rest hok
      obtain ⟨w', hrest'⟩ := ih hle
      obtain ⟨rfl, rfl⟩ := hrest.unique hrest'
      exact ⟨w'', hall⟩

/-- Every contract is attested, and the attestor's transactions succeed. -/
def attestedWorld (answers : List Answer) : World :=
  ⟨⟨some ⟨"A"⟩, fun _ => some ⟨⟨List.replicate 32 0, rfl⟩, 0, 0, none⟩⟩, answers, []⟩

def sweepEnv : Env := ⟨0, 0, ⟨"CREGISTRY"⟩, [⟨"A"⟩]⟩

/-- Where an attested contract's lookup times out, the code revokes. -/
theorem sweepEntry_timesOut (h : TimesOut ask) {w : World} (hattested : (w.registry.attestation ⟨ask.1.contractId⟩).isSome = true)
    (hattestor : w.registry.attestor = some ⟨"A"⟩) (hanswers : w.answers = [.ok sweepEnv, .ok sweepEnv]) :
    ∃ w', sweepEntry ask.2 ask.1 w = .ok 1 w' := by
  classical
  obtain ⟨⟨attestor, attestation⟩, answers, metrics⟩ := w
  obtain rfl : answers = _ := hanswers
  obtain rfl : attestor = _ := hattestor
  have hrevokes : RevokesOn ask.1 ask.2 := revokesOn_iff.mpr (.inr h)
  rw [sweepEntry_eq]
  refine ⟨⟨⟨some ⟨"A"⟩, Function.update attestation ⟨ask.1.contractId⟩ none⟩, [], metrics ++ [.revoked]⟩, ?_⟩
  show (if (attestation ⟨ask.1.contractId⟩).isSome = true ∧ RevokesOn ask.1 ask.2 then _ else _ : Act ℕ) _ = _
  rw [if_pos ⟨hattested, hrevokes⟩]
  rfl

/-- Where it times out, nothing is to be revoked. -/
theorem decideEntry_timesOut (h : TimesOut ask) {w : World} {env : Env} {rest : List Answer} (hanswers : w.answers = .ok env :: rest) :
    decideEntry ask.2 ask.1 w = .ok 0 { w with answers := rest } := by
  obtain ⟨registry, answers, metrics⟩ := w
  obtain rfl : answers = _ := hanswers
  have hno : ¬ decisive ask.1 ask.2 = true := by
    obtain ⟨message, hanswer⟩ := h
    unfold decisive
    rw [hanswer]
    simp
  show (if (registry.attestation ⟨ask.1.contractId⟩).isSome = true ∧ decisive ask.1 ask.2 = true then _ else _ : Act ℕ) _ = _
  rw [if_neg fun hand => hno hand.2]
  rfl

/-- A lookup that times out shows in the number of revocations, where the network fails before it. -/
theorem not_timesOut_of_eq (heq : sweepEach asks = decideEach asks) : ∀ ask ∈ asks, ¬ TimesOut ask := by
  intro ask hmem htimes
  obtain ⟨pre, post, rfl⟩ := List.append_of_mem hmem
  -- The entries before it fail at their first read, and two answers are left for it.
  let answers : List Answer := [.ok sweepEnv, .ok sweepEnv]
  let w := attestedWorld (List.replicate pre.length (.failed noAnswer) ++ answers)
  have hw : w.answers = List.replicate pre.length (.failed noAnswer) ++ answers := rfl
  have hsweeps : ∀ ask : Ask, sweepEntry ask.2 ask.1 = isAttested ask.1.contractId >>= _ := fun _ => rfl
  have hdecides : ∀ ask : Ask, decideEntry ask.2 ask.1 = isAttested ask.1.contractId >>= _ := fun _ => rfl
  obtain ⟨metrics, hsweep⟩ := eachEntry_fails hsweeps (ask :: post) hw
  obtain ⟨metrics', hdecide⟩ := eachEntry_fails hdecides (ask :: post) hw
  obtain ⟨w₁, hrevoked⟩ := @sweepEntry_timesOut ask htimes { w with answers := answers, metrics := metrics } rfl rfl rfl
  obtain ⟨m, w₂, -, hcount⟩ := eachEntry_cons_ok (fun ask => sweepEntry ask.2 ask.1) post hrevoked
  have hkept : decideEntry ask.2 ask.1 { w with answers := answers, metrics := metrics' } =
      .ok 0 { w with answers := [.ok sweepEnv], metrics := metrics' } := decideEntry_timesOut htimes rfl
  obtain ⟨n, w₃, hrest, hcount'⟩ := eachEntry_cons_ok (fun ask => decideEntry ask.2 ask.1) post hkept
  obtain ⟨w₄, hnone⟩ := @decideEach_none post { w with answers := [.ok sweepEnv], metrics := metrics' } le_rfl
  obtain ⟨rfl, -⟩ := hrest.unique hnone
  have hall : Returns (sweepEach (pre ++ ask :: post)) w (1 + m) w₂ := hsweep.trans hcount
  have hall' : Returns (decideEach (pre ++ ask :: post)) w (0 + 0) w₃ := hdecide.trans hcount'
  rw [heq] at hall
  obtain ⟨hsum, -⟩ := hall.unique hall'
  omega

theorem sweepEach_eq_of (h : ∀ ask ∈ asks, ¬ TimesOut ask) : sweepEach asks = decideEach asks := by
  induction asks with
  | nil => rfl
  | cons ask rest ih =>
    have hrest := ih fun ask' hmem => h ask' (List.mem_cons_of_mem _ hmem)
    show eachEntry _ _ = eachEntry _ _
    unfold eachEntry
    rw [show sweepEntry ask.2 ask.1 = _ from sweepEntry_eq_decide (h ask List.mem_cons_self)]
    show _ = attempt _ _ >>= fun n => decideEach rest >>= fun m => pure (n + m)
    rw [← hrest]
    rfl

/-- **The sweep revokes on the evidence that it should**, whatever the network does, exactly when no lookup times out. -/
theorem sweepEach_eq_iff : sweepEach asks = decideEach asks ↔ ∀ ask ∈ asks, ¬ TimesOut ask :=
  ⟨not_timesOut_of_eq, sweepEach_eq_of⟩

/-- **So does the loop of the source**, over a watch list that was read. -/
theorem runUpgradeSweep_iff (watch : List WatchEntry) (resolver : ContractArtifactResolver) :
    runUpgradeSweep (.ok watch) resolver = decideEach (watch.map fun entry => (entry, resolver)) ↔
      ∀ entry ∈ watch, ¬ TimesOut (entry, resolver) := by
  rw [runUpgradeSweep_eq]
  refine ⟨fun heq entry hentry => not_timesOut_of_eq heq _ (List.mem_map_of_mem hentry), fun h => sweepEach_eq_of fun ask hask => ?_⟩
  obtain ⟨entry, hentry, rfl⟩ := List.mem_map.mp hask
  exact h entry hentry

def timingOut : ContractArtifactResolver := ⟨fun _ => .error (.resolve .timeout "contract metadata lookup timed out"), none⟩

/-- **A lookup that times out revokes.** -/
theorem timeout_revokes : sweepEach [(⟨"CTOKEN", "ab"⟩, timingOut)] ≠ decideEach [(⟨"CTOKEN", "ab"⟩, timingOut)] := by
  intro h
  have hcount := congrArg (fun f : Act ℕ =>
    match f (attestedWorld [.ok sweepEnv, .ok sweepEnv]) with
    | .ok n _ => n
    | .error _ _ => 0) h
  exact absurd hcount (by decide)

end Decision

/-! ## What a pass over a watch list leaves -/

section Coverage

variable {w w' : World} {resolver : ContractArtifactResolver} {watch full : List WatchEntry} {entry : WatchEntry} {n : ℕ}

/-- The next `n` requests are answered, and the attestor's transactions succeed. -/
structure Reliable (n : ℕ) (w : World) : Prop where
  enough : n ≤ w.answers.length
  ok : ∀ a ∈ w.answers, ∃ env, a = .ok env ∧ AttestationRegistry.Authorized env w.registry

theorem Reliable.cons (h : Reliable (n + 1) w) :
    ∃ env rest, w.answers = .ok env :: rest ∧ AttestationRegistry.Authorized env w.registry ∧
      Reliable n { w with answers := rest } := by
  obtain ⟨registry, answers, metrics⟩ := w
  cases answers with
  | nil => exact absurd h.enough (by simp)
  | cons a rest =>
    obtain ⟨env, rfl, hauth⟩ := h.ok a List.mem_cons_self
    exact ⟨env, rest, rfl, hauth, Nat.le_of_succ_le_succ h.enough, fun a ha => h.ok a (List.mem_cons_of_mem _ ha)⟩

theorem Reliable.mono {m : ℕ} (h : Reliable n w) (hmn : m ≤ n) : Reliable m w := ⟨hmn.trans h.enough, h.ok⟩

theorem isAttested_reliable (contractId : String) (h : Reliable (n + 1) w) : ∃ w', Reliable n w' ∧ w'.registry = w.registry ∧
    Returns (isAttested contractId) w (w.registry.attestation ⟨contractId⟩).isSome w' := by
  obtain ⟨env, rest, hanswers, -, hrest⟩ := h.cons
  refine ⟨{ w with answers := rest }, hrest, rfl, ?_⟩
  show isAttested contractId w = .ok _ _
  unfold isAttested read
  rw [hanswers]

theorem revoke_reliable (contractId : String) (h : Reliable (n + 1) w) : ∃ w', Reliable n w' ∧
    w'.registry = { w.registry with attestation := Function.update w.registry.attestation ⟨contractId⟩ none } ∧
    Returns (revoke contractId) w () w' := by
  obtain ⟨env, rest, hanswers, hauth, hrest⟩ := h.cons
  have hrevoke : AttestationRegistry.revoke env w.registry ⟨contractId⟩ = .ok _ :=
    AttestationRegistry.revoke_ok.mpr ⟨hauth, rfl⟩
  exact ⟨{ w with
      answers := rest
      registry := { w.registry with attestation := Function.update w.registry.attestation ⟨contractId⟩ none } },
    ⟨hrest.enough, hrest.ok⟩, rfl, invoke_returns.mpr ⟨env, rest, _, hanswers, hrevoke, rfl⟩⟩

open Classical in
/-- The records that are left when the contracts of a list are revoked on what the resolver answers. -/
noncomputable def leftBy (resolver : ContractArtifactResolver) (watch : List WatchEntry)
    (attestation : Address → Option AttestationRegistry.Attestation) (c : Address) : Option AttestationRegistry.Attestation :=
  if ∃ entry ∈ watch, Address.mk entry.contractId = c ∧ RevokesOn entry resolver then none else attestation c

/-- **One entry**, over a reliable network. -/
theorem sweepEntry_reliable (resolver : ContractArtifactResolver) (entry : WatchEntry) (h : Reliable (n + 2) w) :
    ∃ k w', Reliable n w' ∧
    w'.registry.attestation = leftBy resolver [entry] w.registry.attestation ∧
    Returns (sweepEntry resolver entry) w k w' := by
  classical
  obtain ⟨w₁, h₁, hsame, hattested⟩ := isAttested_reliable entry.contractId h
  rw [sweepEntry_eq]
  by_cases hrevoke : (w.registry.attestation ⟨entry.contractId⟩).isSome = true ∧ RevokesOn entry resolver
  · obtain ⟨w₂, h₂, hregistry, hrevoked⟩ := revoke_reliable entry.contractId h₁
    refine ⟨1, { w₂ with metrics := w₂.metrics ++ [.revoked] }, ⟨h₂.enough, h₂.ok⟩, ?_, ?_⟩
    · rw [hregistry, hsame]
      funext c
      unfold leftBy
      by_cases hc : Address.mk entry.contractId = c
      · rw [if_pos ⟨entry, List.mem_singleton_self _, hc, hrevoke.2⟩, ← hc]
        exact Function.update_self ..
      · rw [if_neg (by rintro ⟨e, he, hec, -⟩; exact hc (List.mem_singleton.mp he ▸ hec))]
        exact Function.update_of_ne (Ne.symm hc) ..
    · refine returns_bind.mpr ⟨_, w₁, hattested, ?_⟩
      rw [if_pos hrevoke]
      exact returns_bind.mpr ⟨(), w₂, hrevoked, returns_bind.mpr ⟨(), _, emit_returns.mpr rfl, returns_pure.mpr ⟨rfl, rfl⟩⟩⟩
  · refine ⟨0, w₁, h₁.mono (Nat.le_succ n), ?_, ?_⟩
    · rw [hsame]
      funext c
      unfold leftBy
      by_cases hex : ∃ e ∈ [entry], Address.mk e.contractId = c ∧ RevokesOn e resolver
      · obtain ⟨e, he, rfl, hon⟩ := hex
        obtain rfl := List.mem_singleton.mp he
        rw [if_pos ⟨e, he, rfl, hon⟩]
        exact Option.not_isSome_iff_eq_none.mp fun hsome => hrevoke ⟨hsome, hon⟩
      · rw [if_neg hex]
    · refine returns_bind.mpr ⟨_, w₁, hattested, ?_⟩
      rw [if_neg hrevoke]
      exact returns_pure.mpr ⟨rfl, rfl⟩

/-- **The whole pass**, over a reliable network: what it revokes on is gone, and nothing else. -/
theorem runUpgradeSweep_reliable (resolver : ContractArtifactResolver) (h : Reliable (2 * watch.length) w) :
    ∃ k w', w'.registry.attestation = leftBy resolver watch w.registry.attestation ∧
      Returns (runUpgradeSweep (.ok watch) resolver) w k w' := by
  classical
  show ∃ k w', _ ∧ Returns (sweepLoop resolver watch) w k w'
  induction watch generalizing w with
  | nil =>
    refine ⟨0, w, ?_, returns_pure.mpr ⟨rfl, rfl⟩⟩
    funext c
    unfold leftBy
    rw [if_neg (by simp)]
  | cons entry rest ih =>
    obtain ⟨k, w₁, h₁, hleft, hentry⟩ := sweepEntry_reliable resolver entry (n := 2 * rest.length) h
    obtain ⟨m, w₂, hleft₂, hrest⟩ := ih h₁
    refine ⟨k + m, w₂, ?_, returns_bind.mpr ⟨k, w₁, hentry.attempt, returns_bind.mpr ⟨m, w₂, hrest, returns_pure.mpr ⟨rfl, rfl⟩⟩⟩⟩
    rw [hleft₂, hleft]
    funext c
    unfold leftBy
    by_cases hrest : ∃ e ∈ rest, Address.mk e.contractId = c ∧ RevokesOn e resolver
    · obtain ⟨e, he, hon⟩ := hrest
      rw [if_pos ⟨e, he, hon⟩, if_pos ⟨e, List.mem_cons_of_mem _ he, hon⟩]
    · rw [if_neg hrest]
      refine if_congr ⟨?_, ?_⟩ rfl rfl
      · rintro ⟨e, he, hon⟩
        exact ⟨e, List.mem_cons.mpr (.inl (List.mem_singleton.mp he)), hon⟩
      · rintro ⟨e, he, hon⟩
        rcases List.mem_cons.mp he with rfl | he
        · exact ⟨e, List.mem_singleton_self _, hon⟩
        · exact absurd ⟨e, he, hon⟩ hrest

/-- The resolver answers for every contract: a hash, or that there is no such wasm contract. -/
def AnswersAll (resolver : ContractArtifactResolver) : Prop :=
  ∀ contractId, (∃ hash, resolver.resolveDeployedHash contractId = .ok hash) ∨
    ∃ code message, resolver.resolveDeployedHash contractId = .error (.resolve code message) ∧ (code = .notFound ∨ code = .notWasm)

/-- After a pass over `watch` no stale contract of `full` is attested. -/
def NoneEscapes (watch full : List WatchEntry) : Prop :=
  ∀ resolver, AnswersAll resolver → ∀ w, Reliable (2 * watch.length) w → ∀ entry ∈ full, decisive entry resolver = true →
    ((runUpgradeSweep (.ok watch) resolver).after w).registry.attestation ⟨entry.contractId⟩ = none

theorem attestation_after (resolver : ContractArtifactResolver) (h : Reliable (2 * watch.length) w) :
    ((runUpgradeSweep (.ok watch) resolver).after w).registry.attestation = leftBy resolver watch w.registry.attestation := by
  obtain ⟨k, w', hleft, hreturns⟩ := runUpgradeSweep_reliable resolver h
  rw [hreturns.after_eq, hleft]

/-- No contract exists any more. -/
def goneResolver : ContractArtifactResolver := ⟨fun _ => .error (.resolve .notFound "contract not found on-chain"), none⟩

theorem reliable_attestedWorld (n : ℕ) : Reliable n (attestedWorld (List.replicate n (.ok sweepEnv))) where
  enough := List.length_replicate.ge
  ok _ ha := ⟨sweepEnv, List.eq_of_mem_replicate ha, ⟨⟨"A"⟩, rfl, List.mem_singleton_self _⟩⟩

/-- **A pass covers what the watch list names**, and nothing else. -/
theorem noneEscapes_iff (hsub : watch ⊆ full) (hnodup : (full.map WatchEntry.contractId).Nodup) :
    NoneEscapes watch full ↔ full ⊆ watch := by
  constructor
  · intro h entry hentry
    have hgone := h goneResolver (fun contractId => .inr ⟨.notFound, _, rfl, .inl rfl⟩) _ (reliable_attestedWorld _) entry hentry rfl
    rw [attestation_after _ (reliable_attestedWorld _)] at hgone
    unfold leftBy at hgone
    split at hgone
    · rename_i hex
      obtain ⟨e, he, hid, -⟩ := hex
      have hid : e.contractId = entry.contractId := congrArg Address.strkey hid
      exact List.inj_on_of_nodup_map hnodup (hsub he) hentry hid ▸ he
    · cases hgone
  · intro h resolver hanswers w hw entry hentry hdecisive
    rw [attestation_after _ hw]
    unfold leftBy
    have hrevokes : RevokesOn entry resolver := (@revokesOn_iff (entry, resolver)).mpr (.inl hdecisive)
    rw [if_pos ⟨entry, h hentry, rfl, hrevokes⟩]

end Coverage

/-! ## The two watch lists -/

section Watch

/-- `limit` of `runUpgradeSweep`, which `index.ts` leaves to its default. -/
def SWEEP_LIMIT : ℕ := 100

/-- The contracts whose latest terminal record is verified, with its attested hash: in the table, -/
def pgVerified (latest : List PgJobStore.Row) : List WatchEntry :=
  (latest.filter fun row => row.status = .verified).filterMap PgJobStore.watchEntry

/-- and in memory. -/
def memoryVerified (s : MemoryJobStore.Store) : List WatchEntry :=
  (s.rows.foldl MemoryJobStore.latestStep Table.empty).rows.filterMap MemoryJobStore.watchEntry

/-- Entries named after their rows have the ids of the rows. -/
theorem map_filterMap_sublist {ρ : Type} {f : ρ → Option WatchEntry} {id : ρ → String}
    (hf : ∀ r entry, f r = some entry → entry.contractId = id r) (rows : List ρ) :
    List.Sublist ((rows.filterMap f).map WatchEntry.contractId) (rows.map id) := by
  induction rows with
  | nil => exact List.Sublist.slnil
  | cons r rows ih =>
    cases hr : f r with
    | none =>
      rw [List.filterMap_cons_none hr]
      exact ih.cons _
    | some entry =>
      rw [List.filterMap_cons_some hr, List.map_cons, List.map_cons, hf r entry hr]
      exact ih.cons_cons _

/-- A list is within its first elements when there are no others. -/
theorem subset_take_iff {α : Type} {l : List α} (hnodup : l.Nodup) (n : ℕ) : l ⊆ l.take n ↔ l.length ≤ n := by
  constructor
  · intro h
    have hle := (List.subperm_of_subset hnodup h).length_le
    rw [List.length_take] at hle
    exact hle.trans (min_le_left _ _)
  · intro h
    rw [List.take_of_length_le h]
    exact List.Subset.refl _

theorem pgVerified_nodup {t : PgJobStore.Store} {latest : List PgJobStore.Row} (h : PgJobStore.LatestPerContract t latest) :
    ((pgVerified latest).map WatchEntry.contractId).Nodup := by
  have hsub := map_filterMap_sublist (f := PgJobStore.watchEntry) (fun row entry he => (watchEntryOf_eq_some.mp he).1)
    (latest.filter fun row => row.status = .verified)
  exact h.distinct.sublist (hsub.trans (List.filter_sublist.map _))

theorem memoryVerified_nodup (s : MemoryJobStore.Store) : ((memoryVerified s).map WatchEntry.contractId).Nodup := by
  have hentry : ∀ row entry, MemoryJobStore.watchEntry row = some entry → entry.contractId = row.job.contractId :=
    fun row entry he => by
      unfold MemoryJobStore.watchEntry at he
      split at he
      · exact (watchEntryOf_eq_some.mp he).1
      · cases he
  exact (Table.nodup _).sublist (map_filterMap_sublist hentry _)

/-- **No stale attestation escapes a pass** exactly when the contracts to be watched fit in the watch list: in the table none
with a hash comes after the first hundred, in memory there are at most a hundred. -/
theorem sweep_covers_iff {t : PgJobStore.Store} {latest : List PgJobStore.Row} (h : PgJobStore.LatestPerContract t latest)
    (s : MemoryJobStore.Store) :
    (NoneEscapes (PgJobStore.listLatestVerified latest SWEEP_LIMIT) (pgVerified latest) ↔
      ∀ row ∈ (latest.filter fun row => row.status = .verified).drop SWEEP_LIMIT, PgJobStore.watchEntry row = none) ∧
    (NoneEscapes (MemoryJobStore.listLatestVerified s SWEEP_LIMIT) (memoryVerified s) ↔
      (memoryVerified s).length ≤ SWEEP_LIMIT) := by
  constructor
  · have hsplit : pgVerified latest = PgJobStore.listLatestVerified latest SWEEP_LIMIT ++
        ((latest.filter fun row => row.status = .verified).drop SWEEP_LIMIT).filterMap PgJobStore.watchEntry := by
      unfold pgVerified PgJobStore.listLatestVerified
      rw [← List.filterMap_append, List.take_append_drop]
    have hnodup := pgVerified_nodup h
    rw [noneEscapes_iff (by rw [hsplit]; exact List.subset_append_left _ _) hnodup]
    constructor
    · intro hsub row hrow
      by_contra hsome
      obtain ⟨entry, hentry⟩ := Option.ne_none_iff_exists'.mp hsome
      have hdropped : entry ∈ ((latest.filter fun row => row.status = .verified).drop SWEEP_LIMIT).filterMap PgJobStore.watchEntry :=
        List.mem_filterMap.mpr ⟨row, hrow, hentry⟩
      have hkept := hsub (hsplit ▸ List.mem_append_right _ hdropped)
      have hapart := List.disjoint_of_nodup_append (hsplit ▸ hnodup.of_map)
      exact hapart hkept hdropped
    · intro hnone entry hentry
      rw [hsplit] at hentry
      rcases List.mem_append.mp hentry with hkept | hdropped
      · exact hkept
      · obtain ⟨row, hrow, hsome⟩ := List.mem_filterMap.mp hdropped
        rw [hnone row hrow] at hsome
        cases hsome
  · have hnodup := memoryVerified_nodup s
    rw [← subset_take_iff hnodup.of_map]
    exact noneEscapes_iff (List.take_subset _ _) hnodup

/-- The contract ids of a crowd, as strkeys spell them. -/
def crowdId (i : ℕ) : List Char :=
  'C' :: Char.ofNat ('A'.toNat + i / 20) :: Char.ofNat ('A'.toNat + i % 20) :: List.replicate 53 'A'

/-- The only record of a contract, verified. -/
def verifiedRow (i : ℕ) : PgJobStore.Row where
  id := String.ofList (crowdId i)
  contractId := String.ofList (crowdId i)
  status := .verified
  createdAt := 0
  updatedAt := 1
  record :=
    { id := String.ofList (crowdId i)
      contractId := String.ofList (crowdId i)
      sourceType := .repo
      repoUrl := some "https://github.com/owner/repo"
      commitHash := some "0123456789abcdef0123456789abcdef01234567"
      sourceArchiveRef := none
      toolchainVersion := "1.81.0"
      buildFlags := none
      lockfileHash := none
      traceId := none
      traceParentSpanId := none
      outputHash := some "ab"
      deployedHash := some "ab"
      matchMode := some .exact
      log := none
      statusDetail := none
      status := .verified
      createdAt := some 0
      updatedAt := some 1
      attempts := some 1 }

theorem crowdIds_nodup : ((List.range 101).map crowdId).Nodup := by decide +kernel

theorem crowd_nodup {n : ℕ} (hn : n ≤ 101) (id : PgJobStore.Row → String)
    (hid : ∀ i, id (verifiedRow i) = String.ofList (crowdId i)) : (((List.range n).map verifiedRow).map id).Nodup := by
  have hids : ((List.range n).map crowdId).Nodup := crowdIds_nodup.sublist ((List.range_sublist.mpr hn).map _)
  have hnames : (((List.range n).map crowdId).map String.ofList).Nodup := hids.map fun _ _ h => String.ofList_injective h
  rw [List.map_map] at hnames ⊢
  rw [List.map_congr_left fun i _ => show (id ∘ verifiedRow) i = (String.ofList ∘ crowdId) i from hid i]
  exact hnames

/-- A table in which every contract of a crowd is verified. -/
def crowd (n : ℕ) (hn : n ≤ 101) : PgJobStore.Store := 
  ⟨(List.range n).map verifiedRow, crowd_nodup hn _ fun _ => rfl⟩

theorem crowd_latest {n : ℕ} (hn : n ≤ 101) : PgJobStore.LatestPerContract (crowd n hn) (crowd n hn).rows where
  mem row hrow := by
    refine ⟨hrow, ?_⟩
    obtain ⟨i, -, rfl⟩ := List.mem_map.mp hrow
    exact .inl rfl
  newest row hrow row' hrow' _ _ := by
    obtain ⟨i, -, rfl⟩ := List.mem_map.mp hrow
    obtain ⟨j, -, rfl⟩ := List.mem_map.mp hrow'
    exact le_rfl
  distinct := crowd_nodup hn _ fun _ => rfl
  covers row hrow _ := List.mem_map_of_mem hrow

/-- The watch list of one contract is covered, -/
theorem sweep_covers_one :
    NoneEscapes (PgJobStore.listLatestVerified (crowd 1 (by decide)).rows SWEEP_LIMIT) (pgVerified (crowd 1 (by decide)).rows) :=
  (sweep_covers_iff (crowd_latest (by decide)) Table.empty).1.mpr fun row hrow => by
    have hnil : ((crowd 1 (by decide)).rows.filter fun row => row.status = .verified).drop SWEEP_LIMIT = [] := rfl
    rw [hnil] at hrow
    exact absurd hrow List.not_mem_nil

/-- **The hundred and first contract escapes.** -/
theorem hundred_and_first_escapes : ¬ ∀ t latest, PgJobStore.LatestPerContract t latest →
    NoneEscapes (PgJobStore.listLatestVerified latest SWEEP_LIMIT) (pgVerified latest) := by
  intro h
  have hlatest := crowd_latest (n := 101) le_rfl
  have hnodup := pgVerified_nodup hlatest
  have hwatched : PgJobStore.listLatestVerified (crowd 101 le_rfl).rows SWEEP_LIMIT ⊆ pgVerified (crowd 101 le_rfl).rows :=
    fun entry hentry => by
      obtain ⟨row, hrow, hsome⟩ := List.mem_filterMap.mp hentry
      exact List.mem_filterMap.mpr ⟨row, List.mem_of_mem_take hrow, hsome⟩
  have hsub := (noneEscapes_iff hwatched hnodup).mp (h _ _ hlatest)
  have hle := (List.subperm_of_subset hnodup.of_map hsub).length_le
  have hall : (pgVerified (crowd 101 le_rfl).rows).length = 101 := by decide +kernel
  have hfew : (PgJobStore.listLatestVerified (crowd 101 le_rfl).rows SWEEP_LIMIT).length = 100 := by decide +kernel
  omega

end Watch

end Vellar.Worker.Attestor
