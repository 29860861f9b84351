import Vellar.Worker.Attestor
import Vellar.Worker.MemoryJobStore
import Vellar.Worker.PgJobStore

/-!
# Vellar.Worker.AttestedArtifact — the attestation names the artifact on chain

From a verified outcome of `runVerification` through `reportOutcome` to the sweep that follows.  `NamesDeployed`
says that the registry's record, the watch list of either job store and the live hash are one hash.
`attestation_names_deployed_iff`: that is so exactly for an exact match, since the last write of `attest` is
under the rebuilt hash.
-/

set_option autoImplicit false

namespace Vellar.Worker.Attestor

open Effect

/-- A watch list a sweep can be handed once the outcome is recorded, as the contract's newest verdict. -/
inductive Watch (contractId : String) (o : VerificationOutcome) : List WatchEntry → Prop where
  | memory {s : MemoryJobStore.Store} {row : MemoryJobStore.Row} {now : ℤ} {limit : ℕ}
      (hrow : row ∈ s.rows) (hid : row.job.contractId = contractId)
      (hnewest : ∀ r ∈ s.rows, r.status.IsTerminal → r.job.contractId = contractId → r.recordId ≠ row.recordId →
        r.completedAtMs.getD 0 < now) :
      Watch contractId o (MemoryJobStore.listLatestVerified (MemoryJobStore.complete s row.recordId o now) limit)
  | postgres {t : PgJobStore.Store} {row : PgJobStore.Row} {now : ℤ} {latest : List PgJobStore.Row} {limit : ℕ}
      (hrow : row ∈ t.rows) (hbuilding : row.status = .building) (hid : row.contractId = contractId)
      (hnewest : ∀ r ∈ t.rows, r.status.IsTerminal → r.contractId = contractId → r.id ≠ row.id → r.updatedAt < now)
      (hlatest : PgJobStore.LatestPerContract (PgJobStore.complete t row.id o now) latest) :
      Watch contractId o (PgJobStore.listLatestVerified latest limit)

/-- The record for the contract holds the attested hash, which is the live one, and the publisher of the
source; the watch list holds the same hash, and the sweep that follows leaves the record. -/
def NamesDeployed (P : Platform) (deps : RunVerificationDeps) (contractId : String) (o : VerificationOutcome)
    (repoUrl : Option String) (w : World) : Prop :=
  ∃ record hash, w.registry.attestation ⟨contractId⟩ = some record ∧
    o.attestedHash = some hash ∧ bytes32 hash = some record.wasmHash ∧
    deps.resolver.resolveDeployedHash contractId = .ok hash ∧
    record.publisher = (publisherOfSource P repoUrl).bind bytes32 ∧
    (record.publisher.isSome ↔ (publisherOfSource P repoUrl).isSome) ∧
    ∀ watch, Watch contractId o watch →
      (∀ entry ∈ watch, entry.contractId = contractId → entry.outputHash = hash) ∧
      ∀ w₁ : World, w₁.registry = w.registry →
        ((runUpgradeSweep (.ok watch) deps.resolver).after w₁).registry.attestation ⟨contractId⟩ = some record

section

variable {contractId : String} {o : VerificationOutcome}

/-- The watch list holds the attested hash of the outcome just recorded. -/
theorem watch_attestedHash {watch : List WatchEntry} (hwatch : Watch contractId o watch) {entry : WatchEntry}
    (hentry : entry ∈ watch) (hid : entry.contractId = contractId) : o.attestedHash = some entry.outputHash := by
  have hverdict : o.status.toStatus.IsTerminal := by
    cases o.status
    · exact Or.inl rfl
    · exact Or.inr rfl
  cases hwatch with
  | @memory s row now limit hrow hrc hnewest =>
    have hfind : (MemoryJobStore.complete s row.recordId o now).find row.recordId =
        some (MemoryJobStore.completeRow o now row) := by
      rw [MemoryJobStore.find_complete, Table.find_of_mem hrow, Option.map_some, if_pos rfl]
    obtain ⟨hmem, -⟩ := Table.mem_of_find hfind
    have hentry' := MemoryJobStore.watched_newest hmem hverdict (fun r hr hterm hrid hne => ?_) hentry (hid.trans hrc.symm)
    · exact (MemoryJobStore.watchEntry_eq_some.mp hentry').2.2.1
    · -- The other rows are as they were.
      have hr' := Table.find_of_mem hr
      rw [MemoryJobStore.find_complete, Option.map_eq_some_iff] at hr'
      obtain ⟨r₀, hr₀, heq⟩ := hr'
      obtain ⟨hr₀mem, hr₀key⟩ := Table.mem_of_find hr₀
      rw [if_neg (by rw [hr₀key]; exact hne)] at heq
      subst heq
      exact hnewest r₀ hr₀mem hterm (hrid.trans hrc) hne
  | @postgres t row now latest limit hrow hbuilding hrc hnewest hlatest =>
    have hfind : (PgJobStore.complete t row.id o now).find row.id =
        some (PgJobStore.completeRow o.status now (PgJobStore.completeRecord row.record o now) row) := by
      rw [PgJobStore.find_complete, Table.find_of_mem hrow, Option.map_some, if_pos ⟨rfl, hbuilding⟩]
    obtain ⟨hmem, -⟩ := Table.mem_of_find hfind
    have hentry' := PgJobStore.watched_newest hlatest hmem hverdict (fun r hr hterm hrid hne => ?_) hentry
      (hid.trans hrc.symm)
    · exact (watchEntryOf_eq_some.mp hentry').2.1
    · have hr' := Table.find_of_mem hr
      rw [PgJobStore.find_complete, Option.map_eq_some_iff] at hr'
      obtain ⟨r₀, hr₀, heq⟩ := hr'
      obtain ⟨hr₀mem, hr₀key⟩ := Table.mem_of_find hr₀
      rw [if_neg fun h => hne (hr₀key.symm.trans h.1)] at heq
      subst heq
      exact hnewest r₀ hr₀mem hterm (hrid.trans hrc) hne

/-- The bytes of a canonical hash. -/
theorem bytes32_canonical {hash : String} (h : IsCanonicalHash hash) :
    ∃ bytes : Soroban.BytesN 32, bytes32 hash = some bytes ∧ hash = Hex.hexOf bytes.bytes := by
  obtain ⟨bytes, hlen, rfl⟩ := h
  have hsize : (Hex.fromHex (Hex.hexOf bytes)).length = 32 := by rw [Hex.fromHex_hexOf, hlen]
  refine ⟨⟨_, hsize⟩, dif_pos hsize, ?_⟩
  show Hex.hexOf bytes = Hex.hexOf (Hex.fromHex (Hex.hexOf bytes))
  rw [Hex.fromHex_hexOf]

theorem bytes32_injective {a b : String} (ha : IsCanonicalHash a) (hb : IsCanonicalHash b)
    (h : bytes32 a = bytes32 b) : a = b := by
  obtain ⟨x, hx, rfl⟩ := bytes32_canonical ha
  obtain ⟨y, hy, rfl⟩ := bytes32_canonical hb
  rw [hx, hy] at h
  rw [Option.some.inj h]

theorem truthy_canonical {hash : String} (h : IsCanonicalHash hash) : truthy (some hash) = some hash := by
  obtain ⟨bytes, hlen, rfl⟩ := h
  have hne : Hex.hexOf bytes ≠ "" := by
    intro heq
    have hsize := congrArg (fun s => (Hex.fromHex s).length) heq
    simp only [Hex.fromHex_hexOf, hlen] at hsize
    exact absurd hsize (by decide)
  unfold truthy
  simp [hne]

end

/-- **The attestation names the deployed artifact exactly when the match was exact**, for an executor that
reports the hash of its bytes, a resolver that returns canonical hashes, and a report no submitter call of
which throws. -/
theorem attestation_names_deployed_iff {P : Platform} {deps : RunVerificationDeps} {job : VerificationJobInput}
    {o : VerificationOutcome} {repoUrl : Option String} {ttl : ℕ} {w w' : World}
    (hexec : ∀ input build, deps.executor input = .ok build → build.wasmHash = hashArtifact build.wasm)
    (hres : ∀ id hash, deps.resolver.resolveDeployedHash id = .ok hash → IsCanonicalHash hash)
    (hrun : runVerification P deps job = .ok o) (hv : o.status = .verified)
    (hcalls : NoThrow (mirrorOutcome P ttl job.contractId o repoUrl) w)
    (hreport : Returns (reportOutcome P ttl job.contractId o repoUrl) w () w') :
    NamesDeployed P deps job.contractId o repoUrl w' ↔ o.matchMode = some .exact := by
  obtain ⟨deployedHash, build, hverified⟩ := runVerification_verified hrun hv
  have hwasm : IsCanonicalHash build.wasmHash := by
    rw [hexec _ _ hverified.built]
    exact isCanonicalHash_hashArtifact build.wasm
  have hdeployed : IsCanonicalHash deployedHash := hres _ _ hverified.resolved
  obtain ⟨u, w₁, hmirror⟩ := hcalls
  obtain ⟨-, rfl⟩ := hreport.unique (Returns.attempt hmirror)
  -- What the second write left, in both kinds of match.
  have hrecord : ∀ hash, o.attestedHash = some hash → IsCanonicalHash hash → o.outputHash = some build.wasmHash →
      ∃ bytes ledger expires, bytes32 build.wasmHash = some bytes ∧
        w'.registry.attestation ⟨job.contractId⟩ =
          some ⟨bytes, ledger, expires, (publisherOfSource P repoUrl).bind bytes32⟩ ∧
        (((publisherOfSource P repoUrl).bind bytes32).isSome ↔ (publisherOfSource P repoUrl).isSome) := by
    intro hash hatt hcanon hout
    obtain ⟨hex, bytes, ledger, expires, hhex, hbytes, hrec, hpub⟩ :=
      mirrorOutcome_returns hv (by rw [hatt]; exact truthy_canonical hcanon) hmirror
    rw [hout] at hhex
    cases hhex
    exact ⟨bytes, ledger, expires, hbytes, hrec, hpub⟩
  rcases hverified.how with ⟨hmatch, rfl⟩ | ⟨hno, -, -, fetch, deployedWasm, keys, -, -, -, rfl⟩
  · have hsame : build.wasmHash = deployedHash := (hashesMatch_canonical hwasm hdeployed).mp hmatch
    refine ⟨fun _ => rfl, fun _ => ?_⟩
    obtain ⟨bytes, ledger, expires, hbytes, hrec, hpub⟩ := hrecord build.wasmHash rfl hwasm rfl
    refine ⟨_, build.wasmHash, hrec, rfl, hbytes, by rw [hsame]; exact hverified.resolved, rfl, hpub,
      fun watch hwatch => ?_⟩
    have hentries : ∀ entry ∈ watch, entry.contractId = job.contractId → entry.outputHash = build.wasmHash :=
      fun entry hentry hid => (Option.some.inj (watch_attestedHash hwatch hentry hid)).symm
    refine ⟨hentries, fun w₂ hw₂ => ?_⟩
    refine keeps_runUpgradeSweep (fun entry hentry hid => ?_) w₂ (show Holds _ _ w₂ from ?_)
    · rw [hentries entry hentry hid, hsame]
      exact hverified.resolved
    · show w₂.registry.attestation _ = _
      rw [hw₂]
      exact hrec
  · refine ⟨fun hnames => ?_, fun hexact => absurd hexact (by simp [toolchainMatch])⟩
    obtain ⟨record, hash, hrec, hatt, hbytes, -⟩ := hnames
    cases hatt
    obtain ⟨bytes, ledger, expires, hbytes', hrec', -⟩ := hrecord deployedHash rfl hdeployed rfl
    rw [hrec] at hrec'
    cases hrec'
    have heq : build.wasmHash = deployedHash := bytes32_injective hwasm hdeployed (hbytes'.trans hbytes.symm)
    rw [(hashesMatch_canonical hwasm hdeployed).mpr heq] at hno
    cases hno

/-! Two runs over one empty registry: a rebuild that matches byte for byte, and one whose compiler stamp differs
from the deployed module's. -/

def acmeRepo : String := "https://github.com/acme/token"

/-- The platform on the texts of the two runs. -/
def acmePlatform : Platform := Platform.ascii fun s =>
  if s = acmeRepo then some ⟨"https:", "", "", "github.com", "/acme/token"⟩ else none

/-- A module whose one section is `contractmetav0` with an `rsver` entry of one letter. -/
def stamped (v : UInt8) : Wasm.Bytes :=
  [0, 97, 115, 109, 1, 0, 0, 0, 0, 39, 14] ++ Wasm.utf8Bytes "contractmetav0" ++
    [0, 0, 0, 0, 0, 0, 0, 5, 114, 115, 118, 101, 114, 0, 0, 0, 0, 0, 0, 1, v, 0, 0, 0]

/-- What the executor returns for the bytes. -/
def builtAs (rebuilt : Wasm.Bytes) : BuildResult := ⟨rebuilt, hashArtifact rebuilt, ""⟩

/-- An executor that builds `rebuilt` and a chain that runs `deployed`. -/
def depsOf (rebuilt deployed : Wasm.Bytes) : RunVerificationDeps where
  executor := fun _ => .ok (builtAs rebuilt)
  resolver := ⟨fun _ => .ok (hashArtifact deployed), some fun _ => .ok deployed⟩
  retryAttempt := none
  baseDelayMs := none
  maxDelayMs := none
  jobSecret := none
  nowMs := 0
  random := 0

def acmeJob : VerificationJobInput :=
  ⟨⟨.repo, some acmeRepo, some "abc1234", none, "1.94.0", none⟩, "CTOKEN", none, none⟩

def attestorEnv : Soroban.Env := ⟨0, 1000, ⟨"CREGISTRY"⟩, [⟨"GATTESTOR"⟩]⟩

/-- An empty registry, and a network that answers the three requests of a report. -/
def freshWorld : World := ⟨AttestationRegistry.constructor ⟨"GATTESTOR"⟩, List.replicate 3 (.ok attestorEnv), []⟩

def exactDeps : RunVerificationDeps := depsOf (stamped 65) (stamped 65)

def exactOutcome : VerificationOutcome := exactMatch exactDeps (hashArtifact (stamped 65)) (builtAs (stamped 65))

theorem hashArtifact_stamped_ne : hashArtifact (stamped 65) ≠ hashArtifact (stamped 66) := by decide +kernel

theorem hashesMatch_stamped (P : Platform) :
    hashesMatch P (hashArtifact (stamped 65)) (hashArtifact (stamped 66)) = false := by
  rw [Bool.eq_false_iff]
  intro h
  have heq := (hashesMatch_canonical (isCanonicalHash_hashArtifact _) (isCanonicalHash_hashArtifact _)).mp h
  exact hashArtifact_stamped_ne heq

theorem compareWasm_stamped : Wasm.compareWasm (stamped 65) (stamped 66) = .toolchainMetadata ["rsver"] := by
  decide +kernel

theorem runVerification_exactDeps : runVerification acmePlatform exactDeps acmeJob = .ok exactOutcome := by
  have hmatch : hashesMatch acmePlatform (hashArtifact (stamped 65)) (hashArtifact (stamped 65)) = true :=
    (hashesMatch_canonical (isCanonicalHash_hashArtifact _) (isCanonicalHash_hashArtifact _)).mpr rfl
  show compareBuild acmePlatform exactDeps acmeJob (hashArtifact (stamped 65)) (builtAs (stamped 65)) = _
  unfold compareBuild
  exact if_pos hmatch

theorem attestation_names_deployed_iff_exact :
    NamesDeployed acmePlatform exactDeps "CTOKEN" exactOutcome (some acmeRepo)
      ((reportOutcome acmePlatform DEFAULT_TTL_LEDGERS "CTOKEN" exactOutcome (some acmeRepo)).after freshWorld) := by
  have hcalls : NoThrow (mirrorOutcome acmePlatform DEFAULT_TTL_LEDGERS "CTOKEN" exactOutcome (some acmeRepo)) freshWorld := by
    decide +kernel
  obtain ⟨u, w₁, hmirror⟩ := id hcalls
  have hreport : Returns (reportOutcome acmePlatform DEFAULT_TTL_LEDGERS "CTOKEN" exactOutcome (some acmeRepo)) freshWorld u w₁ :=
    Returns.attempt hmirror
  rw [hreport.after_eq]
  have hexec : ∀ input build, exactDeps.executor input = .ok build → build.wasmHash = hashArtifact build.wasm := by
    intro input build hb
    rw [← Except.ok.inj (show Except.ok (builtAs (stamped 65)) = Except.ok build from hb)]
    rfl
  have hres : ∀ id hash, exactDeps.resolver.resolveDeployedHash id = .ok hash → IsCanonicalHash hash := by
    intro id hash hh
    rw [← Except.ok.inj (show Except.ok (hashArtifact (stamped 65)) = Except.ok hash from hh)]
    exact isCanonicalHash_hashArtifact _
  exact (attestation_names_deployed_iff hexec hres runVerification_exactDeps rfl hcalls hreport).mpr rfl

def toolchainDeps : RunVerificationDeps := depsOf (stamped 65) (stamped 66)

def toolchainOutcome : VerificationOutcome :=
  toolchainMatch toolchainDeps (hashArtifact (stamped 66)) (builtAs (stamped 65)) ["rsver"]

/-- The verified third-party contract is recorded under the hash of the rebuild, which is nowhere on chain. -/
theorem second_write_names_rebuild :
    runVerification acmePlatform toolchainDeps acmeJob = .ok toolchainOutcome ∧
    NoThrow (mirrorOutcome acmePlatform DEFAULT_TTL_LEDGERS "CTOKEN" toolchainOutcome (some acmeRepo)) freshWorld ∧
    ¬ NamesDeployed acmePlatform toolchainDeps "CTOKEN" toolchainOutcome (some acmeRepo)
      ((reportOutcome acmePlatform DEFAULT_TTL_LEDGERS "CTOKEN" toolchainOutcome (some acmeRepo)).after freshWorld) := by
  refine ⟨?_, by decide +kernel, ?_⟩
  · have hfirst : isFirstPartyContract acmePlatform (some acmeRepo) (hashArtifact (stamped 66)) = false := by
      decide +kernel
    have hhash : hashArtifact (builtAs (stamped 65)).wasm = normalizeHash acmePlatform (builtAs (stamped 65)).wasmHash :=
      (normalizeHash_canonical (isCanonicalHash_hashArtifact _)).symm
    have hcompare : Wasm.compareWasm (builtAs (stamped 65)).wasm (stamped 66) = .toolchainMetadata ["rsver"] :=
      compareWasm_stamped
    have hbytes : compareBytes acmePlatform toolchainDeps (hashArtifact (stamped 66)) (builtAs (stamped 65)) (stamped 66) =
        toolchainOutcome := by
      unfold compareBytes
      rw [if_neg (not_not.mpr hhash), hcompare]
      rfl
    show compareBuild acmePlatform toolchainDeps acmeJob (hashArtifact (stamped 66)) (builtAs (stamped 65)) = _
    have hmatch : hashesMatch acmePlatform (builtAs (stamped 65)).wasmHash (hashArtifact (stamped 66)) = false :=
      hashesMatch_stamped acmePlatform
    unfold compareBuild
    rw [if_neg (by rw [hmatch]; simp),
      if_neg (by rw [show isFirstPartyContract acmePlatform acmeJob.repoUrl _ = false from hfirst]; simp)]
    exact congrArg Except.ok hbytes
  · rintro ⟨record, hash, hrec, hatt, hbytes, -⟩
    have hne : (((reportOutcome acmePlatform DEFAULT_TTL_LEDGERS "CTOKEN" toolchainOutcome (some acmeRepo)).after
        freshWorld).registry.attestation ⟨"CTOKEN"⟩).map (·.wasmHash) ≠ toolchainOutcome.attestedHash.bind bytes32 := by
      decide +kernel
    rw [hrec, hatt] at hne
    exact hne hbytes.symm

end Vellar.Worker.Attestor
