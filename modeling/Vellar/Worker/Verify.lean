import Vellar.Worker.Artifact
import Vellar.Worker.ErrorClassification
import Vellar.Worker.JobSignature
import Vellar.Worker.WasmCompare

/-!
# Vellar.Worker.Verify — one verification

`runVerification` of `services/worker-service/src/verify.ts`: check the signature, resolve the deployed hash,
rebuild, compare.  The executor and the resolver are parameters; each of their functions is called at most
once in a run, so what it does is a function of its argument.  `Verified` lists the two ways to a verified
outcome, and `runVerification_verified` says there is no third.
-/

set_option autoImplicit false

namespace Vellar.Worker

open Wasm

structure BuildResult where
  wasm : Bytes
  wasmHash : String
  log : String

/-- A `BuildExecutor`. -/
abbrev BuildExecutor := BuildInput → Except Thrown BuildResult

structure ContractArtifactResolver where
  resolveDeployedHash : String → Except Thrown String
  fetchDeployedWasm : Option (String → Except Thrown Bytes)

structure RunVerificationDeps where
  executor : BuildExecutor
  resolver : ContractArtifactResolver
  retryAttempt : Option ℕ
  baseDelayMs : Option ℕ
  maxDelayMs : Option ℕ
  jobSecret : Option String
  /-- The clock, and what `Math.random()` gives when the backoff draws. -/
  nowMs : ℤ
  random : ℚ

def BASE_DELAY_MS : ℕ := 1000

def MAX_DELAY_MS : ℕ := 30000

/-- `retryWithJitter`, which `calculateBackoffDelay` delegates to. -/
def retryWithJitter (random : ℚ) (attempt baseDelayMs maxDelayMs : ℕ) : ℕ :=
  ⌊random * (min maxDelayMs (baseDelayMs * 2 ^ attempt) : ℕ)⌋₊

section Run

variable (P : Platform) (deps : RunVerificationDeps)

/-- The retry fields of a failure: a delay when it is transient. -/
def retryDelay (isTransient : Bool) : Option ℕ :=
  if isTransient then
    some (retryWithJitter deps.random (deps.retryAttempt.getD 0) (deps.baseDelayMs.getD BASE_DELAY_MS)
      (deps.maxDelayMs.getD MAX_DELAY_MS))
  else none

/-- Step 0: the signature, when a secret is configured. -/
def checkSignature (job : VerificationJobInput) : Except SignatureReason Unit :=
  match truthy deps.jobSecret with
  | none => .ok ()
  | some secret => verifyJobSignature job secret ⟨none, deps.nowMs⟩

def signatureRejected (reason : SignatureReason) : VerificationOutcome where
  status := .failed
  outputHash := none
  deployedHash := none
  matchMode := none
  statusDetail := s!"Signature verification failed ({reason.text})."
  log := s!"Verification job rejected: payload signature verification failed ({reason.text}). Fail closed."
  isRetryable := some false
  retryDelayMs := none
  retryAttempt := some (deps.retryAttempt.getD 0)

/-- Step 1: a contract whose hash cannot be resolved; a timeout is thrown on. -/
def resolveFailed (e : Thrown) : Except Thrown VerificationOutcome :=
  match e with
  | .resolve code message =>
    if code = .timeout then .error e
    else
      let isTransient := isTransientFailure P e
      .ok
        { status := .failed
          outputHash := none
          deployedHash := none
          matchMode := none
          statusDetail := s!"Could not resolve the deployed contract ({code.text})."
          log := s!"Could not resolve the deployed contract: {message} ({code.text})."
          isRetryable := some isTransient
          retryDelayMs := retryDelay deps isTransient
          retryAttempt := some (deps.retryAttempt.getD 0) }
  | _ => .error e

def publicBuildHint : BuildErrorCode → Option String
  | .dependenciesUnresolved =>
    some ("Dependencies could not be resolved for an offline build: commit an up-to-date Cargo.lock that uses " ++
      "only crates.io and public https git dependencies (no submodules).")
  | .dependencyFetchFailed =>
    some "A dependency host was unreachable while pre-fetching from Cargo.lock; the build will be retried."
  | .insufficientDiskSpace =>
    some ("The verification worker does not have enough free disk space to pre-fetch dependencies; this is an " ++
      "operator issue, not a problem with the submission.")
  | _ => none

/-- Step 2: a build that failed. -/
def buildFailed (deployedHash : String) (e : Thrown) : Except Thrown VerificationOutcome :=
  match e with
  | .build code message log =>
    let isTransient := isTransientFailure P e
    .ok
      { status := .failed
        outputHash := none
        deployedHash := some deployedHash
        matchMode := none
        statusDetail := " ".intercalate (s!"Build failed ({code.text})." :: (publicBuildHint code).toList)
        log := trim s!"Build failed: {message} ({code.text}).\n\n{log}"
        isRetryable := some isTransient
        retryDelayMs := retryDelay deps isTransient
        retryAttempt := some (deps.retryAttempt.getD 0) }
  | _ => .error e

/-- Step 3: a byte-identical rebuild. -/
def exactMatch (deployedHash : String) (build : BuildResult) : VerificationOutcome where
  status := .verified
  outputHash := some build.wasmHash
  deployedHash := some deployedHash
  matchMode := some .exact
  statusDetail := "Rebuilt artifact matches the deployed wasm hash."
  log := s!"Verified: rebuilt artifact matches the deployed wasm hash.\n\n{build.log}"
  isRetryable := some false
  retryDelayMs := none
  retryAttempt := some (deps.retryAttempt.getD 0)

def mismatch (deployedHash : String) (build : BuildResult) (reason : String) : VerificationOutcome where
  status := .failed
  outputHash := some build.wasmHash
  deployedHash := some deployedHash
  matchMode := none
  statusDetail := "Rebuilt artifact does not match the deployed contract."
  log := "\n".intercalate
    ["Mismatch: the rebuilt artifact does not match the deployed contract.", s!"  rebuilt:  {build.wasmHash}",
      s!"  deployed: {deployedHash}", s!"  reason:   {reason}", "", build.log]
  isRetryable := some false
  retryDelayMs := none
  retryAttempt := some (deps.retryAttempt.getD 0)

/-- The deployed bytes cannot be fetched; a timeout is thrown on. -/
def fetchFailed (deployedHash : String) (build : BuildResult) (e : Thrown) : Except Thrown VerificationOutcome :=
  match e with
  | .resolve code message =>
    if code = .timeout then .error e
    else
      let isTransient := isTransientFailure P e
      .ok
        { status := .failed
          outputHash := some build.wasmHash
          deployedHash := some deployedHash
          matchMode := none
          statusDetail := s!"Could not fetch the deployed wasm ({code.text})."
          log := s!"Could not fetch the deployed wasm for comparison: {message} ({code.text})."
          isRetryable := some isTransient
          retryDelayMs := retryDelay deps isTransient
          retryAttempt := some (deps.retryAttempt.getD 0) }
  | _ => .error e

def toolchainMatch (deployedHash : String) (build : BuildResult) (normalizedKeys : List String) :
    VerificationOutcome where
  status := .verified
  outputHash := some build.wasmHash
  deployedHash := some deployedHash
  matchMode := some .toolchainMetadata
  statusDetail := "Rebuilt artifact matches the deployed contract; only toolchain version metadata differs."
  log := "\n".intercalate
    ["Verified (toolchain metadata normalized): every code, data, and interface section is",
      "byte-identical; only these contractmetav0 toolchain stamps differ:",
      "  " ++ ", ".intercalate normalizedKeys, s!"  rebuilt:  {build.wasmHash}", s!"  deployed: {deployedHash}",
      "", build.log]
  isRetryable := some false
  retryDelayMs := none
  retryAttempt := some (deps.retryAttempt.getD 0)

/-- The bytes, once they are there. -/
def compareBytes (deployedHash : String) (build : BuildResult) (deployedWasm : Bytes) : VerificationOutcome :=
  if hashArtifact build.wasm ≠ normalizeHash P build.wasmHash then
    mismatch deps deployedHash build "rebuilt bytes do not hash to the reported rebuilt hash"
  else
    match compareWasm build.wasm deployedWasm with
    | .none reason => mismatch deps deployedHash build reason
    | .exact => mismatch deps deployedHash build "rebuilt bytes match but the reported rebuilt hash does not"
    | .toolchainMetadata keys => toolchainMatch deps deployedHash build keys

/-- Steps 3 to 5: exact, first-party, toolchain stamps. -/
def compareBuild (job : VerificationJobInput) (deployedHash : String) (build : BuildResult) :
    Except Thrown VerificationOutcome :=
  if hashesMatch P build.wasmHash deployedHash then .ok (exactMatch deps deployedHash build)
  else if isFirstPartyContract P job.repoUrl deployedHash then
    .ok (mismatch deps deployedHash build "first-party contracts must match the canonical build byte-for-byte")
  else
    match deps.resolver.fetchDeployedWasm with
    | none => .ok (mismatch deps deployedHash build "byte-for-byte only")
    | some fetchDeployedWasm =>
      match fetchDeployedWasm deployedHash with
      | .error e => fetchFailed P deps deployedHash build e
      | .ok deployedWasm => .ok (compareBytes P deps deployedHash build deployedWasm)

def runVerification (job : VerificationJobInput) : Except Thrown VerificationOutcome :=
  match checkSignature deps job with
  | .error reason => .ok (signatureRejected deps reason)
  | .ok () =>
    match deps.resolver.resolveDeployedHash job.contractId with
    | .error e => resolveFailed P deps e
    | .ok deployedHash =>
      match deps.executor job.toBuildInput with
      | .error e => buildFailed P deps deployedHash e
      | .ok build => compareBuild P deps job deployedHash build

/-! ## Verified outcomes -/

/-- How a verified outcome comes about. -/
structure Verified (job : VerificationJobInput) (o : VerificationOutcome) (deployedHash : String)
    (build : BuildResult) : Prop where
  resolved : deps.resolver.resolveDeployedHash job.contractId = .ok deployedHash
  built : deps.executor job.toBuildInput = .ok build
  how : (hashesMatch P build.wasmHash deployedHash = true ∧ o = exactMatch deps deployedHash build) ∨
    (hashesMatch P build.wasmHash deployedHash = false ∧ isFirstPartyContract P job.repoUrl deployedHash = false ∧
      hashArtifact build.wasm = normalizeHash P build.wasmHash ∧
      ∃ fetchDeployedWasm deployedWasm keys, deps.resolver.fetchDeployedWasm = some fetchDeployedWasm ∧
        fetchDeployedWasm deployedHash = .ok deployedWasm ∧
        compareWasm build.wasm deployedWasm = .toolchainMetadata keys ∧
        o = toolchainMatch deps deployedHash build keys)

end Run

section Verified

variable {P : Platform} {deps : RunVerificationDeps} {job : VerificationJobInput} {o : VerificationOutcome}

theorem resolveFailed_ne_verified {e : Thrown} (h : resolveFailed P deps e = .ok o) : o.status ≠ .verified := by
  unfold resolveFailed at h
  split at h
  · split_ifs at h
    cases h
    simp
  · cases h

theorem buildFailed_ne_verified {deployedHash : String} {e : Thrown} (h : buildFailed P deps deployedHash e = .ok o) :
    o.status ≠ .verified := by
  unfold buildFailed at h
  split at h
  · cases h
    simp
  · cases h

theorem fetchFailed_ne_verified {deployedHash : String} {build : BuildResult} {e : Thrown}
    (h : fetchFailed P deps deployedHash build e = .ok o) : o.status ≠ .verified := by
  unfold fetchFailed at h
  split at h
  · split_ifs at h
    cases h
    simp
  · cases h

theorem compareBytes_verified {deployedHash : String} {build : BuildResult} {deployedWasm : Bytes}
    (h : (compareBytes P deps deployedHash build deployedWasm).status = .verified) :
    hashArtifact build.wasm = normalizeHash P build.wasmHash ∧
      ∃ keys, compareWasm build.wasm deployedWasm = .toolchainMetadata keys ∧
        compareBytes P deps deployedHash build deployedWasm = toolchainMatch deps deployedHash build keys := by
  unfold compareBytes at h ⊢
  by_cases hhash : hashArtifact build.wasm = normalizeHash P build.wasmHash
  · rw [if_neg (not_not.mpr hhash)] at h ⊢
    cases hcmp : compareWasm build.wasm deployedWasm with
    | exact => simp [hcmp, mismatch] at h
    | none reason => simp [hcmp, mismatch] at h
    | toolchainMetadata keys => exact ⟨hhash, keys, rfl, rfl⟩
  · rw [if_pos hhash] at h
    simp [mismatch] at h

/-- **No third way to a verified outcome**. -/
theorem runVerification_verified (h : runVerification P deps job = .ok o) (hv : o.status = .verified) :
    ∃ deployedHash build, Verified P deps job o deployedHash build := by
  unfold runVerification at h
  cases hsig : checkSignature deps job with
  | error reason =>
    rw [hsig] at h
    cases h
    simp [signatureRejected] at hv
  | ok u =>
    rw [hsig] at h
    cases hres : deps.resolver.resolveDeployedHash job.contractId with
    | error e =>
      simp only [hres] at h
      exact absurd hv (resolveFailed_ne_verified h)
    | ok deployedHash =>
      cases hbuild : deps.executor job.toBuildInput with
      | error e =>
        simp only [hres, hbuild] at h
        exact absurd hv (buildFailed_ne_verified h)
      | ok build =>
        simp only [hres, hbuild] at h
        refine ⟨deployedHash, build, hres, hbuild, ?_⟩
        unfold compareBuild at h
        by_cases hmatch : hashesMatch P build.wasmHash deployedHash = true
        · rw [if_pos hmatch] at h
          cases h
          exact Or.inl ⟨hmatch, rfl⟩
        · rw [if_neg hmatch] at h
          by_cases hfirst : isFirstPartyContract P job.repoUrl deployedHash = true
          · rw [if_pos hfirst] at h
            cases h
            simp [mismatch] at hv
          · rw [if_neg hfirst] at h
            cases hfetch : deps.resolver.fetchDeployedWasm with
            | none =>
              simp only [hfetch] at h
              cases h
              simp [mismatch] at hv
            | some fetchDeployedWasm =>
              cases hwasm : fetchDeployedWasm deployedHash with
              | error e =>
                simp only [hfetch, hwasm] at h
                exact absurd hv (fetchFailed_ne_verified h)
              | ok deployedWasm =>
                simp only [hfetch, hwasm] at h
                cases h
                obtain ⟨hhash, keys, hcmp, heq⟩ := compareBytes_verified hv
                exact Or.inr ⟨by simpa using hmatch, by simpa using hfirst, hhash, fetchDeployedWasm, deployedWasm,
                  keys, rfl, hwasm, hcmp, heq⟩

end Verified

end Vellar.Worker
