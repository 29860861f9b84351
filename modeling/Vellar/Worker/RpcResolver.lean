import Vellar.Worker.FirstParty

/-!
# Vellar.Worker.RpcResolver — the resolver over RPC, and what a verified outcome rests on

`createRpcArtifactResolver` of `services/worker-service/src/resolver.ts` and `withRpcFailover` of
`packages/service-kit/src/rpc-pool.ts`.  What the RPC servers answer, and when, is a parameter.  `verified_reproduced` says what
stands behind every verified outcome of `runVerification`.
-/

set_option autoImplicit false

namespace Vellar.Worker

open Hex Sha256 Wasm Soroban

/-! ## The RPC servers -/

/-- A promise: the milliseconds until it settles, with a value or with the message of what it is rejected with. -/
abbrev Pending (α : Type) := Option (ℕ × Except String α)

/-- What the instance entry of a contract executes. -/
inductive ContractExecutable where
  | wasm (wasmHash : BytesN 32)
  | stellarAsset

structure RpcServer where
  /-- The executable of the contract's instance entry. -/
  getContractData : String → Pending ContractExecutable
  getContractWasmByHash : Option (String → Pending Bytes)

def RPC_TIMEOUT : String := "__rpc_timeout__"

/-- `withTimeout`. -/
def withTimeout {α : Type} (promise : Pending α) (ms : ℕ) : Except String α :=
  match promise with
  | none => .error RPC_TIMEOUT
  | some (settlesAfter, settled) => if settlesAfter < ms then settled else .error RPC_TIMEOUT

section Resolver

variable (P : Platform) (timeoutMs : ℕ)

/-- `/not found|could not (be )?found|missing/i` -/
def saysNotFound (message : String) : Bool :=
  ["not found", "could not found", "could not be found", "missing"].any (includes (P.toLowerCase message))

/-- What a failed request is thrown as. -/
def requestFailed (timedOut absent message : String) : Thrown :=
  if message = RPC_TIMEOUT then .resolve .timeout timedOut
  else if saysNotFound P message then .resolve .notFound absent
  else .resolve .rpcError message

def lookup (server : RpcServer) (contractId : String) : Except Thrown String :=
  match withTimeout (server.getContractData contractId) timeoutMs with
  | .error message =>
    .error (requestFailed P s!"contract metadata lookup for {contractId} timed out after {timeoutMs}ms"
      s!"contract {contractId} not found on-chain" message)
  | .ok .stellarAsset =>
    .error (.resolve .notWasm s!"contract {contractId} is a built-in Stellar Asset Contract, not a wasm contract")
  | .ok (.wasm wasmHash) => .ok (normalizeHash P (hexOf wasmHash.bytes))

def fetchWasm (server : RpcServer) (wasmHash : String) : Except Thrown Bytes :=
  let hash := normalizeHash P wasmHash
  match server.getContractWasmByHash with
  | none => .error (.resolve .rpcError "resolver cannot fetch wasm bytes")
  | some getContractWasmByHash =>
    match withTimeout (getContractWasmByHash hash) timeoutMs with
    | .error message =>
      .error (requestFailed P s!"wasm fetch for {hash} timed out after {timeoutMs}ms" s!"wasm {hash} not found on-chain" message)
    | .ok bytes =>
      -- The ledger keys contract code by its hash: an RPC that returns anything else is not believed.
      if hashArtifact bytes ≠ hash then .error (.resolve .rpcError s!"RPC returned wasm that does not hash to {hash}")
      else .ok bytes

end Resolver

/-! ## Failover -/

/-- `withRpcFailover` over the candidates of the pool; with no candidate it throws `undefined`. -/
def withRpcFailover {α : Type} (isFailover : Thrown → Bool) (fn : String → Except Thrown α) :
    Thrown → List String → Except Thrown α
  | lastError, [] => .error lastError
  | _, url :: rest =>
    match fn url with
    | .ok a => .ok a
    | .error e => if isFailover e then withRpcFailover isFailover fn e rest else .error e

/-- An error about the endpoint, not about the contract. -/
def isEndpointError : Thrown → Bool
  | .resolve code _ => code = .rpcError ∨ code = .timeout
  | _ => false

/-- The candidates of the pool when the hash is resolved, and when the bytes are fetched. -/
structure RpcPool where
  atResolve : List String
  atFetch : List String

structure RpcArtifactResolverOptions where
  rpcUrl : String
  server : Option RpcServer
  rpcPool : Option RpcPool
  timeoutMs : Option ℕ

def DEFAULT_RPC_TIMEOUT_MS : ℕ := 10000

/-- A request to the fixed server, or to the endpoints of the pool in turn. -/
def overEndpoints {α : Type} (serverFor : String → RpcServer) (options : RpcArtifactResolverOptions)
    (candidates : RpcPool → List String) (fn : RpcServer → Except Thrown α) : Except Thrown α :=
  match options.server, options.rpcPool with
  | some server, _ => fn server
  | none, none => fn (serverFor options.rpcUrl)
  | none, some pool => withRpcFailover isEndpointError (fun url => fn (serverFor url)) .value (candidates pool)

/-- `createRpcArtifactResolver`; `serverFor` is the `rpc.Server` of an URL. -/
def createRpcArtifactResolver (P : Platform) (serverFor : String → RpcServer) (options : RpcArtifactResolverOptions) :
    ContractArtifactResolver :=
  let timeoutMs := options.timeoutMs.getD DEFAULT_RPC_TIMEOUT_MS
  { resolveDeployedHash := fun contractId =>
      overEndpoints serverFor options RpcPool.atResolve fun server => lookup P timeoutMs server contractId
    fetchDeployedWasm := some fun wasmHash =>
      overEndpoints serverFor options RpcPool.atFetch fun server => fetchWasm P timeoutMs server wasmHash }

section Answers

variable {P : Platform} {serverFor : String → RpcServer} {options : RpcArtifactResolverOptions}

/-- What failover answers an endpoint has answered. -/
theorem withRpcFailover_ok {α : Type} {isFailover : Thrown → Bool} {fn : String → Except Thrown α} {lastError : Thrown}
    {urls : List String} {a : α} (h : withRpcFailover isFailover fn lastError urls = .ok a) : ∃ url ∈ urls, fn url = .ok a := by
  induction urls generalizing lastError with
  | nil => cases h
  | cons url rest ih =>
    unfold withRpcFailover at h
    cases hurl : fn url with
    | ok b =>
      rw [hurl] at h
      obtain rfl : b = a := Except.ok.inj h
      exact ⟨url, List.mem_cons_self, hurl⟩
    | error e =>
      simp only [hurl] at h
      by_cases hnext : isFailover e = true
      · rw [if_pos hnext] at h
        obtain ⟨url', hmem, hok⟩ := ih h
        exact ⟨url', List.mem_cons_of_mem _ hmem, hok⟩
      · rw [if_neg hnext] at h
        cases h

theorem overEndpoints_ok {α : Type} {candidates : RpcPool → List String} {fn : RpcServer → Except Thrown α} {a : α}
    (h : overEndpoints serverFor options candidates fn = .ok a) : ∃ server, fn server = .ok a := by
  unfold overEndpoints at h
  split at h
  · exact ⟨_, h⟩
  · exact ⟨_, h⟩
  · obtain ⟨url, -, hok⟩ := withRpcFailover_ok h
    exact ⟨serverFor url, hok⟩

/-- A resolved hash is canonical. -/
theorem lookup_ok {timeoutMs : ℕ} {server : RpcServer} {contractId hash : String} (h : lookup P timeoutMs server contractId = .ok hash) :
    IsCanonicalHash hash := by
  unfold lookup at h
  split at h
  · cases h
  · cases h
  · next wasmHash _ =>
    have hcanonical : IsCanonicalHash (hexOf wasmHash.bytes) := ⟨wasmHash.bytes, wasmHash.size, rfl⟩
    rw [normalizeHash_canonical hcanonical] at h
    exact Except.ok.inj h ▸ hcanonical

/-- Fetched bytes hash to what they were fetched by. -/
theorem fetchWasm_ok {timeoutMs : ℕ} {server : RpcServer} {wasmHash : String} {bytes : Bytes}
    (h : fetchWasm P timeoutMs server wasmHash = .ok bytes) : hashArtifact bytes = normalizeHash P wasmHash := by
  unfold fetchWasm at h
  dsimp only at h
  split at h
  · cases h
  · split at h
    · cases h
    · next bytes' _ =>
      by_cases hhash : hashArtifact bytes' = normalizeHash P wasmHash
      · rw [if_neg (not_not.mpr hhash)] at h
        exact Except.ok.inj h ▸ hhash
      · rw [if_pos hhash] at h
        cases h

/-- **The fetched bytes are the deployed ones**: over RPC they hash to the hash that was resolved. -/
theorem hashArtifact_fetched {contractId deployedHash : String} {fetchDeployedWasm : String → Except Thrown Bytes} {deployedWasm : Bytes}
    (hresolve : (createRpcArtifactResolver P serverFor options).resolveDeployedHash contractId = .ok deployedHash)
    (hfetch : (createRpcArtifactResolver P serverFor options).fetchDeployedWasm = some fetchDeployedWasm)
    (hwasm : fetchDeployedWasm deployedHash = .ok deployedWasm) : hashArtifact deployedWasm = deployedHash := by
  obtain ⟨server, hlookup⟩ := overEndpoints_ok hresolve
  obtain rfl := Option.some.inj hfetch
  obtain ⟨server', hbytes⟩ := overEndpoints_ok hwasm
  rw [fetchWasm_ok hbytes, normalizeHash_canonical (lookup_ok hlookup)]

end Answers

/-! ## What a verified outcome rests on -/

section Reproduced

variable (P : Platform) (deps : RunVerificationDeps) (job : VerificationJobInput) (o : VerificationOutcome)
  (deployedHash : String) (build : BuildResult)

/-- The owner of a repository on GitHub. -/
def OnGithub (repo owner : String) : Prop :=
  ∃ url, P.parseUrl repo = some url ∧ P.toLowerCase url.hostname = "github.com" ∧
    ∃ segment, ((split url.pathname '/').filter (· ≠ "")).head? = some segment ∧ P.toLowerCase segment = owner

/-- A contract with neither a pinned hash nor a repository of the organization. -/
structure ThirdParty (repoUrl : Option String) : Prop where
  unpinned : normalizeHash P deployedHash ∉ FIRST_PARTY_WASM_HASHES
  foreign : ∀ repo, repoUrl = some repo → repo ≠ "" → ¬ OnGithub P repo "vellar-wallet"

/-- The two ways to reproduce the deployed artifact. -/
inductive Reproduced : Prop where
  | exact (mode : o.matchMode = some .exact) (nonempty : normalizeHash P build.wasmHash ≠ "")
    (same : normalizeHash P build.wasmHash = normalizeHash P deployedHash)
  | toolchain (mode : o.matchMode = some .toolchainMetadata) (thirdParty : ThirdParty P deployedHash job.repoUrl)
    (described : hashArtifact build.wasm = normalizeHash P build.wasmHash) {fetchDeployedWasm : String → Except Thrown Bytes}
    {deployedWasm : Bytes} {keys : List String} (fetches : deps.resolver.fetchDeployedWasm = some fetchDeployedWasm)
    (fetched : fetchDeployedWasm deployedHash = .ok deployedWasm) (stamps : compareWasm build.wasm deployedWasm = .toolchainMetadata keys)

variable {P deps job o deployedHash build}

theorem githubOwner_eq_some {repo owner : String} : githubOwner P repo = some owner ↔ OnGithub P repo owner := by
  unfold githubOwner OnGithub
  cases hurl : P.parseUrl repo with
  | none => simp
  | some url =>
    simp only [Option.some.injEq, exists_eq_left']
    by_cases hhost : P.toLowerCase url.hostname = "github.com"
    · rw [if_neg (not_not.mpr hhost), Option.map_eq_some_iff]
      exact ⟨fun h => ⟨hhost, h⟩, fun h => h.2⟩
    · rw [if_pos hhost]
      exact ⟨fun h => (by cases h), fun h => absurd h.1 hhost⟩

theorem thirdParty_iff {repoUrl : Option String} :
    isFirstPartyContract P repoUrl deployedHash = false ↔ ThirdParty P deployedHash repoUrl := by
  unfold isFirstPartyContract
  by_cases hpin : normalizeHash P deployedHash ∈ FIRST_PARTY_WASM_HASHES
  · rw [if_pos hpin]
    exact ⟨fun h => (by cases h), fun h => absurd hpin h.unpinned⟩
  · rw [if_neg hpin]
    constructor
    · intro h
      refine ⟨hpin, fun repo hrepo hne howner => ?_⟩
      have htruthy : truthy repoUrl = some repo := by
        rw [hrepo]
        simp [truthy, hne]
      rw [htruthy, Option.bind_some, githubOwner_eq_some.mpr howner] at h
      exact absurd h (by decide)
    · intro h
      cases howner : (truthy repoUrl).bind (githubOwner P) with
      | none => rfl
      | some owner =>
        obtain ⟨repo, htruthy, hgithub⟩ := Option.bind_eq_some_iff.mp howner
        obtain ⟨hrepo, hne⟩ := Option.filter_eq_some_iff.mp htruthy
        have hforeign := h.foreign repo hrepo (by simpa using hne)
        refine decide_eq_false fun hmem => ?_
        rw [List.mem_singleton.mp hmem] at hgithub
        exact hforeign (githubOwner_eq_some.mp hgithub)

/-- **No artifact is verified that was not reproduced**: behind every verified outcome is an equal hash, or a rebuild of a
third-party contract that differs in toolchain stamps only; over RPC the deployed bytes are those of the resolved hash. -/
theorem verified_reproduced (h : runVerification P deps job = .ok o) (hv : o.status = .verified) :
    ∃ deployedHash build, deps.resolver.resolveDeployedHash job.contractId = .ok deployedHash ∧
      deps.executor job.toBuildInput = .ok build ∧ o.outputHash = some build.wasmHash ∧ o.deployedHash = some deployedHash ∧
      Reproduced P deps job o deployedHash build ∧
      ∀ serverFor options, deps.resolver = createRpcArtifactResolver P serverFor options →
        ∀ fetchDeployedWasm deployedWasm, deps.resolver.fetchDeployedWasm = some fetchDeployedWasm →
          fetchDeployedWasm deployedHash = .ok deployedWasm → hashArtifact deployedWasm = deployedHash := by
  obtain ⟨deployedHash, build, hverified⟩ := runVerification_verified h hv
  have hrpc : ∀ serverFor options, deps.resolver = createRpcArtifactResolver P serverFor options →
      ∀ fetchDeployedWasm deployedWasm, deps.resolver.fetchDeployedWasm = some fetchDeployedWasm →
        fetchDeployedWasm deployedHash = .ok deployedWasm → hashArtifact deployedWasm = deployedHash := by
    intro serverFor options hresolver fetchDeployedWasm deployedWasm hfetch hwasm
    have hresolved := hverified.resolved
    rw [hresolver] at hresolved hfetch
    exact hashArtifact_fetched hresolved hfetch hwasm
  refine ⟨deployedHash, build, hverified.resolved, hverified.built, ?_⟩
  rcases hverified.how with ⟨hmatch, rfl⟩ | ⟨-, hfirst, hdescribed, fetch, deployedWasm, keys, hfetch, hwasm, hstamps, rfl⟩
  · obtain ⟨hsame, hlong⟩ := decide_eq_true_eq.mp hmatch
    refine ⟨rfl, rfl, .exact rfl (fun hempty => ?_) hsame, hrpc⟩
    rw [hempty] at hlong
    exact absurd hlong (by decide)
  · exact ⟨rfl, rfl, .toolchain rfl (thirdParty_iff.mp hfirst) hdescribed hfetch hwasm hstamps, hrpc⟩

open Attestor

/-- A server on which every contract runs the one module. -/
def oneModuleServer (wasm : Bytes) : RpcServer where
  getContractData := fun _ => some (5, .ok (.wasm ⟨sha256 wasm, length_sha256 _⟩))
  getContractWasmByHash := some fun _ => some (5, .ok wasm)

/-- A server that never answers. -/
def silentServer : RpcServer := ⟨fun _ => none, some fun _ => none⟩

section Servers

variable {timeoutMs : ℕ} {contractId : String} {wasm : Bytes}

theorem requestFailed_timeout (timedOut absent : String) :
    requestFailed P timedOut absent RPC_TIMEOUT = .resolve .timeout timedOut := if_pos rfl

theorem lookup_silent : ∃ e, lookup P timeoutMs silentServer contractId = .error e ∧ isEndpointError e = true :=
  ⟨_, congrArg Except.error (requestFailed_timeout _ _), rfl⟩

theorem fetchWasm_silent {wasmHash : String} :
    ∃ e, fetchWasm P timeoutMs silentServer wasmHash = .error e ∧ isEndpointError e = true :=
  ⟨_, congrArg Except.error (requestFailed_timeout _ _), rfl⟩

theorem lookup_oneModule (h : 5 < timeoutMs) : lookup P timeoutMs (oneModuleServer wasm) contractId = .ok (hashArtifact wasm) := by
  have hanswer : withTimeout ((oneModuleServer wasm).getContractData contractId) timeoutMs =
      .ok (.wasm ⟨sha256 wasm, length_sha256 _⟩) := if_pos h
  unfold lookup
  rw [hanswer]
  exact congrArg Except.ok (normalizeHash_canonical (isCanonicalHash_hashArtifact wasm))

theorem fetchWasm_oneModule (h : 5 < timeoutMs) : fetchWasm P timeoutMs (oneModuleServer wasm) (hashArtifact wasm) = .ok wasm := by
  have hnormal : normalizeHash P (hashArtifact wasm) = hashArtifact wasm := normalizeHash_canonical (isCanonicalHash_hashArtifact wasm)
  have hanswer : withTimeout (some (5, .ok wasm)) timeoutMs = .ok wasm := if_pos h
  unfold fetchWasm oneModuleServer
  simp only [hnormal, hanswer, ne_eq, not_true_eq_false, if_false]

theorem withRpcFailover_second {α : Type} {isFailover : Thrown → Bool} {fn : String → Except Thrown α} {down up : String}
    {lastError : Thrown} {a : α} (hdown : ∃ e, fn down = .error e ∧ isFailover e = true) (hup : fn up = .ok a) :
    withRpcFailover isFailover fn lastError [down, up] = .ok a := by
  obtain ⟨e, hfail, hnext⟩ := hdown
  unfold withRpcFailover
  simp only [hfail, if_pos hnext]
  unfold withRpcFailover
  rw [hup]

end Servers

/-- The pool's first endpoint does not answer. -/
def failoverResolver (P : Platform) (wasm : Bytes) : ContractArtifactResolver :=
  createRpcArtifactResolver P (fun url => if url = "https://down" then silentServer else oneModuleServer wasm)
    ⟨"https://down", none, some ⟨["https://down", "https://up"], ["https://down", "https://up"]⟩, none⟩

theorem failover_resolves (wasm : Bytes) (contractId : String) :
    (failoverResolver P wasm).resolveDeployedHash contractId = .ok (hashArtifact wasm) := by
  show withRpcFailover isEndpointError (fun url => lookup P DEFAULT_RPC_TIMEOUT_MS
    (if url = "https://down" then silentServer else oneModuleServer wasm) contractId) .value ["https://down", "https://up"] = _
  exact withRpcFailover_second lookup_silent (lookup_oneModule (by decide))

theorem failover_fetches (wasm : Bytes) : ∃ fetchDeployedWasm, (failoverResolver P wasm).fetchDeployedWasm = some fetchDeployedWasm ∧
    fetchDeployedWasm (hashArtifact wasm) = .ok wasm := by
  refine ⟨_, rfl, ?_⟩
  show withRpcFailover isEndpointError (fun url => fetchWasm P DEFAULT_RPC_TIMEOUT_MS
    (if url = "https://down" then silentServer else oneModuleServer wasm) (hashArtifact wasm)) .value ["https://down", "https://up"] = _
  exact withRpcFailover_second fetchWasm_silent (fetchWasm_oneModule (by decide))

def failoverDeps : RunVerificationDeps := { toolchainDeps with resolver := failoverResolver acmePlatform (stamped 66) }

def failoverOutcome : VerificationOutcome :=
  toolchainMatch failoverDeps (hashArtifact (stamped 66)) (builtAs (stamped 65)) ["rsver"]

theorem failover_reproduced :
    ∃ build, Reproduced acmePlatform failoverDeps acmeJob failoverOutcome (hashArtifact (stamped 66)) build := by
  have hdescribed : hashArtifact (stamped 65) = normalizeHash acmePlatform (hashArtifact (stamped 65)) :=
    (normalizeHash_canonical (isCanonicalHash_hashArtifact _)).symm
  have hcase : StampsOnly acmePlatform failoverDeps acmeJob (hashArtifact (stamped 66)) (builtAs (stamped 65)) (stamped 66) ["rsver"] :=
    { signed := rfl
      built := rfl
      differ := hashesMatch_stamped acmePlatform
      described := hdescribed
      fetched := @failover_fetches acmePlatform (stamped 66)
      stamps := compareWasm_stamped }
  have hrun : runVerification acmePlatform failoverDeps acmeJob = .ok failoverOutcome :=
    hcase.runVerification (@failover_resolves acmePlatform (stamped 66) _) (by decide +kernel)
  obtain ⟨deployedHash, build, -, -, -, hdeployed, hhow, -⟩ := verified_reproduced hrun rfl
  obtain rfl := Option.some.inj hdeployed
  exact ⟨build, hhow⟩

end Reproduced

end Vellar.Worker
