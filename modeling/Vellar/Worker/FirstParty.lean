import Vellar.Policy.Templates
import Vellar.Worker.AttestedArtifact
import Vellar.Worker.Verify

/-!
# Vellar.Worker.FirstParty — first-party contracts and the tolerant path

`isFirstPartyContract` of `services/worker-service/src/first-party.ts` against what it stands for: the artifacts
pinned in the policy templates, and the repositories whose publisher is the organization.  `tolerant_iff` says when
a verified outcome is not exact; `exactOnly_iff` and `always_exact_iff` say for which first-party contracts that is
ruled out.
-/

set_option autoImplicit false

namespace Vellar.Worker

open Wasm

/-! ## First-party contracts -/

/-- `parseHttpsRepoUrl` of `repo-url-guard.ts`: the URL, or the message of the `RepoUrlError`. -/
def parseHttpsRepoUrl (P : Platform) (repoUrl : String) : Except String Url :=
  match P.parseUrl repoUrl with
  | none => .error ("repoUrl is not a valid URL: " ++ repoUrl)
  | some url =>
    if url.protocol ≠ "https:" then
      .error ("repoUrl must use https (got " ++ url.protocol ++ "); file/git/ssh/http are blocked.")
    else if url.username ≠ "" ∨ url.password ≠ "" then
      .error "repoUrl must not embed credentials (userinfo)."
    else .ok url

/-- The hashes the policy templates pin. -/
def pinnedWasmHashes (P : Platform) : List String :=
  (Policy.templates P).filterMap fun t =>
    match t.enforcement with
    | .policyContract wasmHash _ => some wasmHash
    | _ => none

/-- A contract is first-party by its deployed hash or by the publisher of its source. -/
inductive FirstParty (P : Platform) (repoUrl : Option String) (deployedHash : String) : Prop where
  | pinned {pin : String} (hpin : pin ∈ pinnedWasmHashes P) (heq : hashesMatch P deployedHash pin = true)
  | published {repo : String} {url : Url} (hrepo : repoUrl = some repo) (hurl : parseHttpsRepoUrl P repo = .ok url)
    (hpub : canonicalPublisher P repo = some "github.com/vellar-wallet")

/-- No pin of the templates is in the worker's list. -/
theorem pins_not_listed (P : Platform) : ∀ pin ∈ pinnedWasmHashes P, pin ∉ FIRST_PARTY_WASM_HASHES := by
  show ∀ pin ∈ [Policy.SPENDING_POLICY_WASM_HASH, Policy.TOKEN_SPENDING_POLICY_WASM_HASH,
    Policy.VERIFIED_RECIPIENT_WASM_HASH], _
  decide

/-! ## The tolerant path -/

section Tolerant

variable {P : Platform} {deps : RunVerificationDeps} {job : VerificationJobInput} {deployedHash : String}

/-- The rebuilt bytes and the deployed ones differ, in toolchain stamps only. -/
structure StampsOnly (P : Platform) (deps : RunVerificationDeps) (job : VerificationJobInput) (deployedHash : String)
    (build : BuildResult) (deployedWasm : Bytes) (keys : List String) : Prop where
  signed : checkSignature deps job = .ok ()
  built : deps.executor job.toBuildInput = .ok build
  differ : hashesMatch P build.wasmHash deployedHash = false
  described : hashArtifact build.wasm = normalizeHash P build.wasmHash
  fetched : ∃ fetchDeployedWasm, deps.resolver.fetchDeployedWasm = some fetchDeployedWasm ∧
    fetchDeployedWasm deployedHash = .ok deployedWasm
  stamps : compareWasm build.wasm deployedWasm = .toolchainMetadata keys

/-- A verified outcome passed the signature check. -/
theorem checkSignature_of_verified {o : VerificationOutcome} (h : runVerification P deps job = .ok o)
    (hv : o.status = .verified) : checkSignature deps job = .ok () := by
  cases hsig : checkSignature deps job with
  | ok u => rfl
  | error reason =>
    simp only [runVerification, hsig, Except.ok.injEq] at h
    rw [← h] at hv
    cases hv

/-- A contract that is not recognized and differs in stamps only is verified. -/
theorem StampsOnly.runVerification (hresolve : deps.resolver.resolveDeployedHash job.contractId = .ok deployedHash)
    (hfirst : isFirstPartyContract P job.repoUrl deployedHash = false) {build : BuildResult} {deployedWasm : Bytes}
    {keys : List String} (h : StampsOnly P deps job deployedHash build deployedWasm keys) :
    Worker.runVerification P deps job = .ok (toolchainMatch deps deployedHash build keys) := by
  obtain ⟨fetchDeployedWasm, hsome, hwasm⟩ := h.fetched
  have hbytes : compareBytes P deps deployedHash build deployedWasm = toolchainMatch deps deployedHash build keys := by
    simp only [compareBytes, if_neg (not_not.mpr h.described), h.stamps]
  simp only [Worker.runVerification, h.signed, hresolve, h.built, compareBuild, h.differ, hfirst, hsome, hwasm, hbytes]
  rfl

/-- **The tolerant path**: a verified outcome is not exact when the contract is not recognized as first-party and
differs in stamps only, and in no other case. -/
theorem tolerant_iff (hresolve : deps.resolver.resolveDeployedHash job.contractId = .ok deployedHash) :
    (∃ o, Worker.runVerification P deps job = .ok o ∧ o.status = .verified ∧ o.matchMode ≠ some .exact) ↔
      isFirstPartyContract P job.repoUrl deployedHash = false ∧
        ∃ build deployedWasm keys, StampsOnly P deps job deployedHash build deployedWasm keys := by
  refine ⟨?_, ?_⟩
  · rintro ⟨o, hrun, hv, hmode⟩
    obtain ⟨hash, build, hverified⟩ := runVerification_verified hrun hv
    obtain rfl : hash = deployedHash := Except.ok.inj (hverified.resolved.symm.trans hresolve)
    rcases hverified.how with ⟨-, rfl⟩ | ⟨hdiffer, hfirst, hdescribed, fetch, wasm, keys, hsome, hwasm, hstamps, -⟩
    · exact absurd rfl hmode
    · exact ⟨hfirst, build, wasm, keys, checkSignature_of_verified hrun hv, hverified.built, hdiffer, hdescribed,
        ⟨fetch, hsome, hwasm⟩, hstamps⟩
  · rintro ⟨hfirst, build, wasm, keys, h⟩
    exact ⟨_, h.runVerification hresolve hfirst, rfl, by simp [toolchainMatch]⟩

/-- A first-party contract verifies exactly or not at all. -/
def ExactOnly (P : Platform) (deps : RunVerificationDeps) (job : VerificationJobInput) : Prop :=
  ∀ deployedHash, deps.resolver.resolveDeployedHash job.contractId = .ok deployedHash →
    FirstParty P job.repoUrl deployedHash →
    ∀ o, Worker.runVerification P deps job = .ok o → o.status = .verified → o.matchMode = some .exact

/-- **First-party contracts are exact-only exactly when they are recognized** or do not come near the tolerant
path. -/
theorem exactOnly_iff :
    ExactOnly P deps job ↔
      ∀ deployedHash, deps.resolver.resolveDeployedHash job.contractId = .ok deployedHash →
        FirstParty P job.repoUrl deployedHash →
        isFirstPartyContract P job.repoUrl deployedHash = true ∨
          ¬ ∃ build deployedWasm keys, StampsOnly P deps job deployedHash build deployedWasm keys := by
  unfold ExactOnly
  refine forall_congr' fun deployedHash => forall_congr' fun hresolve => forall_congr' fun _ => ?_
  have hiff := not_congr (tolerant_iff (P := P) hresolve)
  rw [not_and_or, Bool.not_eq_false] at hiff
  rw [← hiff]
  refine ⟨fun h => ?_, fun h o hrun hv => ?_⟩
  · rintro ⟨o, hrun, hv, hmode⟩
    exact hmode (h o hrun hv)
  · by_contra hmode
    exact h ⟨o, hrun, hv, hmode⟩

end Tolerant

/-! ## Whatever the executor and the resolver do -/

section Always

open Attestor

/-- One of two modules that differ in their stamps has another hash than the deployed one. -/
theorem exists_other_stamp (P : Platform) (deployedHash : String) :
    ∃ v w, hashesMatch P (hashArtifact (stamped v)) deployedHash = false ∧
      compareWasm (stamped v) (stamped w) = .toolchainMetadata ["rsver"] := by
  by_cases h : hashesMatch P (hashArtifact (stamped 65)) deployedHash = true
  · refine ⟨66, 65, ?_, by decide +kernel⟩
    rw [Bool.eq_false_iff]
    intro h'
    unfold hashesMatch at h h'
    rw [decide_eq_true_eq, normalizeHash_canonical (isCanonicalHash_hashArtifact _)] at h h'
    exact hashArtifact_stamped_ne (h.1.trans h'.1.symm)
  · exact ⟨65, 66, by simpa using h, compareWasm_stamped⟩

/-- **Recognition is what it takes**: a job under a deployed hash is exact under every executor and resolver exactly
when the contract is recognized as first-party. -/
theorem always_exact_iff {P : Platform} {job : VerificationJobInput} {deployedHash : String} :
    (∀ deps : RunVerificationDeps, deps.resolver.resolveDeployedHash job.contractId = .ok deployedHash →
      ∀ o, runVerification P deps job = .ok o → o.status = .verified → o.matchMode = some .exact) ↔
      isFirstPartyContract P job.repoUrl deployedHash = true := by
  refine ⟨fun h => ?_, fun h deps hresolve o hrun hv => ?_⟩
  · by_contra hfirst
    obtain ⟨v, w, hdiffer, hstamps⟩ := exists_other_stamp P deployedHash
    let deps : RunVerificationDeps :=
      { depsOf (stamped v) (stamped w) with resolver := ⟨fun _ => .ok deployedHash, some fun _ => .ok (stamped w)⟩ }
    have hcase : StampsOnly P deps job deployedHash (builtAs (stamped v)) (stamped w) ["rsver"] :=
      ⟨rfl, rfl, hdiffer, (normalizeHash_canonical (isCanonicalHash_hashArtifact _)).symm, ⟨_, rfl, rfl⟩, hstamps⟩
    have hmode := h deps rfl _ (hcase.runVerification rfl (by simpa using hfirst)) rfl
    simp [toolchainMatch] at hmode
  · by_contra hmode
    have htolerant := (tolerant_iff hresolve).mp ⟨o, hrun, hv, hmode⟩
    rw [h] at htolerant
    exact absurd htolerant.1 (by simp)

/-! Two first-party contracts that are not recognized: one whose owner is spelled with `.git`, one that is pinned. -/

def gitRepo : String := "https://github.com/vellar-wallet.git/contracts"

/-- The platform on the texts of the two runs. -/
def gitPlatform : Platform := Platform.ascii fun s =>
  if s = gitRepo then some ⟨"https:", "", "", "github.com", "/vellar-wallet.git/contracts"⟩ else acmePlatform.parseUrl s

def gitJob : VerificationJobInput := ⟨⟨.repo, some gitRepo, some "abc1234", none, "1.94.0", none⟩, "CTOKEN", none, none⟩

/-- The chain runs the pinned spending policy. -/
def pinnedDeps : RunVerificationDeps :=
  { toolchainDeps with
    resolver := ⟨fun _ => .ok Policy.SPENDING_POLICY_WASM_HASH, some fun _ => .ok (stamped 66)⟩ }

/-- The tolerant path verifies a source of the organization, and a pinned policy artifact. -/
theorem first_party_verifies_tolerantly :
    ¬ ExactOnly gitPlatform toolchainDeps gitJob ∧ ¬ ExactOnly gitPlatform pinnedDeps acmeJob := by
  have hdescribed : hashArtifact (stamped 65) = normalizeHash gitPlatform (hashArtifact (stamped 65)) :=
    (normalizeHash_canonical (isCanonicalHash_hashArtifact _)).symm
  refine ⟨fun h => ?_, fun h => ?_⟩
  · have hcase : StampsOnly gitPlatform toolchainDeps gitJob (hashArtifact (stamped 66)) (builtAs (stamped 65))
        (stamped 66) ["rsver"] :=
      ⟨rfl, rfl, hashesMatch_stamped gitPlatform, hdescribed, ⟨_, rfl, rfl⟩, compareWasm_stamped⟩
    have hmode := h _ rfl (.published rfl rfl (by decide +kernel)) _
      (hcase.runVerification rfl (by decide +kernel)) rfl
    simp [toolchainMatch] at hmode
  · have hcase : StampsOnly gitPlatform pinnedDeps acmeJob Policy.SPENDING_POLICY_WASM_HASH (builtAs (stamped 65))
        (stamped 66) ["rsver"] := ⟨rfl, rfl, by decide +kernel, hdescribed, ⟨_, rfl, rfl⟩, compareWasm_stamped⟩
    have hpin : Policy.SPENDING_POLICY_WASM_HASH ∈ pinnedWasmHashes gitPlatform := List.mem_cons_self
    have hmode := h _ rfl (.pinned hpin (by decide +kernel)) _ (hcase.runVerification rfl (by decide +kernel)) rfl
    simp [toolchainMatch] at hmode

end Always

end Vellar.Worker
