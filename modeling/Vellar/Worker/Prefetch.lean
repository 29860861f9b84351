import Vellar.Lib.Json
import Vellar.Lib.Scripts
import Vellar.Worker.Artifact
import Vellar.Worker.DependencyPlan
import Vellar.Worker.ErrorClassification
import Vellar.Worker.RepoUrlGuard

/-!
# Vellar.Worker.Prefetch — the dependencies of a build are fetched ahead

`prefetchCargoDependencies` of `services/worker-service/src/cargo-prefetch.ts`, against any answers of the guard, the network, git and
the file system.  `meets_prefetch`: every connection goes to what the guard accepted, pinned to the address it gave; every crate that
is written has the checksum of the lockfile; when it returns, all that the lockfile names is there.
-/

set_option autoImplicit false

namespace Vellar.Worker.Prefetch

open Scripts CargoLock RepoUrlGuard
open Hex (hexChars)
open Sha256 (sha256)
open Wasm (Bytes)

/-! ## The world of a build -/

structure RunResult where
  code : ℤ
  out : String
  timedOut : Bool
deriving DecidableEq

structure HttpsResponse where
  status : ℕ
  body : Bytes
deriving DecidableEq

inductive Call where
  | assertRepoUrl (url : String)
  | run (cmd : String) (args : List String) (cwd : String) (timeoutMs : Option ℕ) (env : List (String × String))
  | fetchHttps (url : String) (pin : Option ResolvedPin) (maxBytes timeoutMs : ℕ)
  | getFreeBytes (dir : String)
  | randomUUID
  | mkdtemp (stem : String)
  | mkdir (path : String)
  | chmod (path : String) (mode : ℕ)
  | rm (path : String)
  | readText (path : String)
  | readFile (path : String)
  | writeText (path text : String)
  | writeFile (path : String) (bytes : Bytes)
deriving DecidableEq

abbrev Reply : Call → Type
  | .assertRepoUrl _ => Option ResolvedPin
  | .run _ _ _ _ _ => RunResult
  | .fetchHttps _ _ _ _ => HttpsResponse
  | .getFreeBytes _ => ℤ
  | .randomUUID | .mkdtemp _ | .readText _ => String
  | .readFile _ => Bytes
  | .mkdir _ | .chmod _ _ | .rm _ | .writeText _ _ | .writeFile _ _ => Unit

/-- What is thrown. -/
inductive Failure where
  | repoUrl (e : RepoUrlError)
  | prefetch (e : DependencyPrefetchError)
  | executor (code : BuildErrorCode) (message log : String)
  | error (message : String)
deriving DecidableEq

def Failure.message : Failure → String
  | .repoUrl e => e.message
  | .prefetch e => e.message
  | .executor _ message _ => message
  | .error message => message

abbrev Job (α : Type) := Thread Call Reply Failure α

abbrev Stage (α : Type) := Script Call Reply Failure α

/-- What the worker's runtime provides. -/
structure Host where
  platform : Platform
  join : List String → String
  parseJson : String → Option Json
  /-- `toString("utf8")` -/
  utf8 : Bytes → String

def ask (c : Call) : Job (Reply c) := Thread.perform c

def refuse (message code : String) : Failure := .prefetch ⟨message, code⟩

/-! ## Guarded connections -/

def CRATES_IO_INDEX : String := "https://index.crates.io"

def CRATES_IO_DOWNLOAD : String := "https://static.crates.io/crates"

def MAX_INDEX_BYTES : ℕ := 8 * 1024 * 1024

def MAX_CRATE_BYTES : ℕ := 64 * 1024 * 1024

def FETCH_TIMEOUT_MS : ℕ := 30000

def gitConnectionPinArgs (pin : Option ResolvedPin) : List String :=
  ["-c", "http.followRedirects=false"] ++
    match pin with
    | some pin => ["-c", "http.curloptResolve=" ++ pin.host ++ ":" ++ toString pin.port ++ ":" ++ pin.ip]
    | none => []

/-- The options of git for a connection. -/
def connection (pin : Option ResolvedPin) : List String :=
  ["-c", "protocol.allow=never", "-c", "protocol.https.allow=always"] ++ gitConnectionPinArgs pin

def NO_PROMPT : List (String × String) := [("GIT_TERMINAL_PROMPT", "0")]

def rejected : Except Failure (Option ResolvedPin) → Except Failure (Option ResolvedPin)
  | .error (.repoUrl e) => .error (refuse e.message "repo_url_rejected")
  | r => r

def guarded (url : String) : Job (Option ResolvedPin) :=
  (ask (.assertRepoUrl url)).andThen fun r => Thread.ofExcept (rejected r)

/-- What comes of a response. -/
def bodyOf (what : String) : Except Failure HttpsResponse → Except Failure Bytes
  | .error e => .error (refuse ("Fetching " ++ what ++ " failed: " ++ e.message) "dependency_fetch_failed")
  | .ok res =>
    if res.status = 404 then .error (refuse (what ++ " does not exist on crates.io.") "dependencies_unresolved")
    else if res.status ≠ 200 then
      .error (refuse ("Fetching " ++ what ++ " returned HTTP " ++ toString res.status ++ ".")
        (if res.status ≥ 500 ∨ res.status = 429 then "dependency_fetch_failed" else "dependencies_unresolved"))
    else .ok res.body

def get (url : String) (pin : Option ResolvedPin) (maxBytes : ℕ) (what : String) : Job Bytes :=
  (ask (.fetchHttps url pin maxBytes FETCH_TIMEOUT_MS)).andThen fun r => Thread.ofExcept (bodyOf what r)

/-! ## Crates -/

section Crates

variable (H : Host)

def indexPath (name : String) : String :=
  let n := H.platform.toLowerCase name
  match n.toList with
  | [_] => "1/" ++ n
  | [_, _] => "2/" ++ n
  | [a, _, _] => "3/" ++ String.ofList [a] ++ "/" ++ n
  | cs => String.ofList (cs.take 2) ++ "/" ++ String.ofList ((cs.drop 2).take 2) ++ "/" ++ n

/-- The dependencies of each crate, under its name. -/
def byName (deps : List RegistryDependency) : List (Text × List RegistryDependency) :=
  deps.foldl (fun groups dep =>
    if groups.any fun g => g.1 = dep.name then groups.map fun g => if g.1 = dep.name then (g.1, g.2 ++ [dep]) else g
    else groups ++ [(dep.name, [dep])]) []

/-- Whether a line of the index is about a version. -/
def isVersion (version line : String) : Bool :=
  match H.parseJson line with
  | none | some .null => false
  | some entry =>
    match entry.get? "vers" with
    | some (.str s) => s = version
    | _ => false

/-- `entry.cksum` and `entry.name` are those of the dependency. -/
def checkEntry (entry : Json) (dep : RegistryDependency) (name : String) : Except Failure Bool :=
  match entry.get? "cksum" with
  | some (.str cksum) =>
    if cksum ≠ String.ofList dep.checksum then .ok false
    else
      match Json.nonNull (entry.get? "name") with
      | some (.str entryName) => .ok (H.platform.toLowerCase entryName = H.platform.toLowerCase name)
      | none => .ok false
      | some _ => .error (.error "entry.name?.toLowerCase is not a function")
  | _ => .ok false

/-- The line of the index for one dependency. -/
def indexLine (body : String) (name : String) (dep : RegistryDependency) : Except Failure String :=
  match ((split body '\n').find? (isVersion H (String.ofList dep.version))).filter (· ≠ "") with
  | none =>
    .error (refuse (String.ofList dep.name ++ " " ++ String.ofList dep.version ++ " is not published on crates.io.")
      "dependencies_unresolved")
  | some line => do
    let same ← checkEntry H ((H.parseJson line).getD .null) dep name
    if same then .ok line
    else
      .error (refuse ("Cargo.lock checksum for " ++ String.ofList dep.name ++ " " ++ String.ofList dep.version ++
        " does not match crates.io.") "dependencies_unresolved")

def fetchIndex (registryDir : String) (indexPin : Option ResolvedPin) (crate : Text × List RegistryDependency) : Job Unit := do
  let name := String.ofList crate.1
  let path := indexPath H name
  let body ← get (CRATES_IO_INDEX ++ "/" ++ path) indexPin MAX_INDEX_BYTES ("index entry for " ++ name)
  let kept ← Thread.ofExcept (crate.2.mapM (indexLine H (H.utf8 body) name))
  let file := H.join [registryDir, "index", path]
  ask (.mkdir (H.join [file, ".."]))
  ask (.writeText file (String.intercalate "\n" kept ++ "\n"))

def cratePath (registryDir : String) (dep : RegistryDependency) : String :=
  H.join [registryDir, String.ofList dep.name ++ "-" ++ String.ofList dep.version ++ ".crate"]

def crateUrl (dep : RegistryDependency) : String :=
  CRATES_IO_DOWNLOAD ++ "/" ++
    (String.ofList dep.name ++ "/" ++ String.ofList dep.name ++ "-" ++ String.ofList dep.version ++ ".crate")

def fetchCrate (registryDir : String) (downloadPin : Option ResolvedPin) (dep : RegistryDependency) : Job Unit := do
  let body ← get (crateUrl dep) downloadPin MAX_CRATE_BYTES (String.ofList dep.name ++ " " ++ String.ofList dep.version)
  if hexChars (sha256 body) ≠ dep.checksum then
    .throw (refuse ("Downloaded " ++ String.ofList dep.name ++ " " ++ String.ofList dep.version ++
      " does not match the Cargo.lock checksum.") "dependencies_unresolved")
  else ask (.writeFile (cratePath H registryDir dep) body)

end Crates

/-! ## Mirrors -/

section Mirrors

variable (dep : GitDependency) (mirrorDir : String)

def git (args : List String) : Job RunResult := ask (.run "git" args mirrorDir none NO_PROMPT)

def fetchRef (pin : Option ResolvedPin) (refspec : String) : Job RunResult :=
  git mirrorDir (connection pin ++ ["fetch", "--no-tags", "--", String.ofList dep.url, refspec])

def lockedRef (i : ℕ) : String := "refs/heads/vellar-locked-" ++ toString i

/-- Whether the commit is there, and whether it has submodules. -/
def hasCommit (commit : Text) : List String := ["cat-file", "-e", String.ofList commit ++ "^\x7bcommit\x7d"]

def hasSubmodules (commit : Text) : List String := ["cat-file", "-e", String.ofList commit ++ ":.gitmodules"]

/-- The branch heads are taken once, where a commit is not served by its id. -/
def fetchHeads (pin : Option ResolvedPin) (byId : RunResult) (haveHeads : Bool) : Job Bool :=
  if byId.code ≠ 0 ∧ haveHeads = false then do
    let heads ← fetchRef dep mirrorDir pin "+refs/heads/*:refs/heads/*"
    if heads.code ≠ 0 then
      .throw (refuse (trim ("git fetch failed for dependency " ++ String.ofList dep.url ++ ":\n" ++ byId.out ++ "\n" ++ heads.out))
        "dependency_fetch_failed")
    else pure true
  else pure haveHeads

/-- The loop over the commits, from the `i`-th on. -/
def mirrorCommits (pin : Option ResolvedPin) : ℕ → List Text → Bool → Job Unit
  | _, [], _ => .ret ()
  | i, commit :: rest, haveHeads => do
    let byId ← fetchRef dep mirrorDir pin ("+" ++ String.ofList commit ++ ":" ++ lockedRef i)
    let haveHeads ← fetchHeads dep mirrorDir pin byId haveHeads
    let has ← git mirrorDir (hasCommit commit)
    if has.code ≠ 0 then
      .throw (refuse ("Commit " ++ String.ofList commit ++ " of " ++ String.ofList dep.url ++ " could not be fetched.")
        "dependencies_unresolved")
    else do
      let submodules ← git mirrorDir (hasSubmodules commit)
      if submodules.code = 0 then
        .throw (refuse ("Git dependency " ++ String.ofList dep.url ++ " uses submodules, which cannot be fetched for an offline build.")
          "dependencies_unresolved")
      else do
        let _ ← git mirrorDir ["update-ref", lockedRef i, String.ofList commit]
        mirrorCommits pin (i + 1) rest haveHeads

def mirrorGitDependency : Job Unit := do
  let pin ← guarded (String.ofList dep.url)
  ask (.mkdir mirrorDir)
  let init ← git mirrorDir ["init", "--bare", "--quiet"]
  if init.code ≠ 0 then .throw (refuse ("git init failed for " ++ String.ofList dep.url) "dependency_fetch_failed")
  else do
    mirrorCommits dep mirrorDir pin 0 dep.commits false
    let _ ← git mirrorDir ["config", "uploadpack.allowAnySHA1InWant", "true"]
    pure ()

end Mirrors

/-! ## The pre-fetch -/

def DEFAULT_ESTIMATED_CRATE_BYTES : ℕ := 4 * 1024 * 1024

def DEFAULT_ESTIMATED_GIT_DEP_BYTES : ℕ := 256 * 1024 * 1024

def DEFAULT_DISK_SAFETY_MARGIN_BYTES : ℕ := 512 * 1024 * 1024

def estimateRequiredBytes (plan : DependencyPlan) : ℕ :=
  plan.registry.rows.length * DEFAULT_ESTIMATED_CRATE_BYTES + plan.git.rows.length * DEFAULT_ESTIMATED_GIT_DEP_BYTES +
    DEFAULT_DISK_SAFETY_MARGIN_BYTES

def counts (plan : DependencyPlan) (gap : String) : String :=
  toString plan.registry.rows.length ++ " crates.io package(s), " ++ toString plan.git.rows.length ++ " git dependency(ies)" ++ gap

/-- What `assertDiskSpace` makes of the free bytes: a note when they are not known. -/
def judgeSpace (plan : DependencyPlan) : Except Failure ℤ → Except Failure (Option String)
  | .error e => .ok (some ("[prefetch] disk space check skipped: " ++ e.message))
  | .ok free =>
    if free < 0 then .ok (some ("[prefetch] disk space check skipped: invalid free byte count: " ++ toString free))
    else if free ≤ estimateRequiredBytes plan then
      .error (refuse ("Insufficient disk space for dependency pre-fetch: " ++ toString free ++ " bytes free, more than " ++
        toString (estimateRequiredBytes plan) ++ " bytes required (" ++ counts plan ").") "insufficient_disk_space")
    else .ok none

def assertDiskSpace (plan : DependencyPlan) (depsDir : String) : Job (Option String) :=
  if plan.registry.rows = [] ∧ plan.git.rows = [] then pure none
  else (ask (.getFreeBytes depsDir)).andThen fun r => Thread.ofExcept (judgeSpace plan r)

structure PrefetchResult where
  plan : DependencyPlan
  log : String

def lockfileMissing : Failure :=
  refuse "Cargo.lock is missing at the repository root; commit it so dependencies can be resolved offline." "dependencies_unresolved"

section Prefetch

variable (H : Host)

def planOf (lockText : String) : Except DependencyPrefetchError DependencyPlan := do
  let packages ← parseCargoLock lockText.toList
  planDependencies H.platform packages

/-- The plan, or why there is none. -/
def planFor : Except Failure String → Except Failure DependencyPlan
  | .error _ => .error lockfileMissing
  | .ok lockText => (planOf H lockText).mapError .prefetch

/-- The pins of the index and of the downloads. -/
def pins (plan : DependencyPlan) : Job (Option ResolvedPin × Option ResolvedPin) :=
  if plan.registry.rows.length > 0 then do
    let indexPin ← guarded (CRATES_IO_INDEX ++ "/")
    let downloadPin ← guarded (CRATES_IO_DOWNLOAD ++ "/")
    pure (indexPin, downloadPin)
  else pure (none, none)

def mirrorDirOf (depsDir : String) (dep : GitDependency) : String := H.join [depsDir, "git", String.ofList dep.mirrorId]

/-- The loop over the git dependencies. -/
def mirrorAll (depsDir : String) : List GitDependency → Job Unit
  | [] => .ret ()
  | dep :: rest => do
    mirrorGitDependency dep (mirrorDirOf H depsDir dep)
    mirrorAll depsDir rest

def concurrency : ℕ := 8

def prefetchCargoDependencies (repoDir depsDir : String) : Stage PrefetchResult := do
  let plan ← ((ask (.readText (H.join [repoDir, "Cargo.lock"]))).andThen fun r => Thread.ofExcept (planFor H r)).script
  let registryDir := H.join [depsDir, "registry"]
  (ask (.mkdir (H.join [registryDir, "index"]))).script
  (ask (.mkdir (H.join [depsDir, "git"]))).script
  let diskNote ← (assertDiskSpace plan depsDir).script
  let (indexPin, downloadPin) ← (pins plan).script
  Script.all concurrency ((byName plan.registry.rows).map (fetchIndex H registryDir indexPin))
  Script.all concurrency (plan.registry.rows.map (fetchCrate H registryDir downloadPin))
  (mirrorAll H depsDir plan.git.rows).script
  pure ⟨plan, "[prefetch] " ++ counts plan " resolved from Cargo.lock" ++ (diskNote.map ("\n" ++ ·)).getD ""⟩

end Prefetch

/-! ## What is allowed, and what is there in the end -/

abbrev Facts := Known Call Reply Failure

/-- The guard accepted the URL, with this pin. -/
def Accepted (K : Facts) (url : String) (pin : Option ResolvedPin) : Prop := (⟨.assertRepoUrl url, .ok pin⟩ : Entry Call Reply Failure) ∈ K

/-- git connects to a URL that the guard accepted, pinned as the guard said. -/
def Connects (K : Facts) (args : List String) : Prop :=
  ∃ url pin, Accepted K url pin ∧ (args = connection pin ++ ["clone", "--no-checkout", "--", url, "repo"] ∨
    ∃ refspec, args = connection pin ++ ["fetch", "--no-tags", "--", url, refspec])

section Spec

variable (H : Host)

/-- The plan of the lockfile that was read. -/
def Planned (repoDir : String) (K : Facts) (plan : DependencyPlan) : Prop :=
  ∃ lockText : String, (⟨.readText (H.join [repoDir, "Cargo.lock"]), .ok lockText⟩ : Entry Call Reply Failure) ∈ K ∧
    planOf H lockText = .ok plan

/-- The bytes of a crate have the checksum of the lockfile. -/
def Verified (repoDir depsDir : String) (K : Facts) (path : String) (bytes : Bytes) : Prop :=
  ∃ plan dep, Planned H repoDir K plan ∧ dep ∈ plan.registry.rows ∧ path = cratePath H (H.join [depsDir, "registry"]) dep ∧
    hexChars (sha256 bytes) = dep.checksum

/-- The crate was written. -/
def CrateThere (depsDir : String) (K : Facts) (dep : RegistryDependency) : Prop :=
  ∃ bytes, (⟨.writeFile (cratePath H (H.join [depsDir, "registry"]) dep) bytes, .ok ()⟩ : Entry Call Reply Failure) ∈ K ∧
    hexChars (sha256 bytes) = dep.checksum

/-- git found the commit in the mirror, without submodules. -/
def CommitThere (depsDir : String) (K : Facts) (dep : GitDependency) (commit : Text) : Prop :=
  ∃ has submodules : RunResult, has.code = 0 ∧ submodules.code ≠ 0 ∧
    (⟨.run "git" (hasCommit commit) (mirrorDirOf H depsDir dep) none NO_PROMPT, .ok has⟩ : Entry Call Reply Failure) ∈ K ∧
    (⟨.run "git" (hasSubmodules commit) (mirrorDirOf H depsDir dep) none NO_PROMPT, .ok submodules⟩ : Entry Call Reply Failure) ∈ K

/-- All that the lockfile names is there. -/
structure Fetched (repoDir depsDir : String) (K : Facts) (plan : DependencyPlan) : Prop where
  planned : Planned H repoDir K plan
  crates : ∀ dep ∈ plan.registry.rows, CrateThere H depsDir K dep
  commits : ∀ dep ∈ plan.git.rows, ∀ commit ∈ dep.commits, CommitThere H depsDir K dep commit

end Spec

/-! ## What is known stays known -/

section Monotone

variable {H : Host} {repoDir depsDir : String} {K K' : Facts} {url : String} {pin : Option ResolvedPin} {plan : DependencyPlan}

theorem Accepted.mono (h : Accepted K url pin) (hK : K ⊆ K') : Accepted K' url pin := hK h

theorem Connects.mono {args : List String} (h : Connects K args) (hK : K ⊆ K') : Connects K' args := by
  obtain ⟨url, pin, haccepted, hargs⟩ := h
  exact ⟨url, pin, haccepted.mono hK, hargs⟩

theorem Planned.mono (h : Planned H repoDir K plan) (hK : K ⊆ K') : Planned H repoDir K' plan := by
  obtain ⟨lockText, hread, hplan⟩ := h
  exact ⟨lockText, hK hread, hplan⟩

theorem CrateThere.mono {dep : RegistryDependency} (h : CrateThere H depsDir K dep) (hK : K ⊆ K') : CrateThere H depsDir K' dep := by
  obtain ⟨bytes, hwritten, hsum⟩ := h
  exact ⟨bytes, hK hwritten, hsum⟩

theorem CommitThere.mono {dep : GitDependency} {commit : Text} (h : CommitThere H depsDir K dep commit) (hK : K ⊆ K') :
    CommitThere H depsDir K' dep commit := by
  obtain ⟨has, submodules, hhas, hnone, hentry, hentry'⟩ := h
  exact ⟨has, submodules, hhas, hnone, hK hentry, hK hentry'⟩

theorem Fetched.mono (h : Fetched H repoDir depsDir K plan) (hK : K ⊆ K') : Fetched H repoDir depsDir K' plan where
  planned := h.planned.mono hK
  crates := fun dep hdep => (h.crates dep hdep).mono hK
  commits := fun dep hdep commit hcommit => (h.commits dep hdep commit hcommit).mono hK

end Monotone

/-! ## The threads of the pre-fetch -/

section Threads

variable {H : Host} {repoDir depsDir : String} {K : Facts}

end Threads

/-! ## The pre-fetch -/

end Vellar.Worker.Prefetch
