import Vellar.Lib.GitConfig
import Vellar.Lib.Sha256
import Vellar.Lib.Table
import Vellar.Worker.CargoLock
import Vellar.Worker.WasmSections

/-!
# Vellar.Worker.DependencyPlan — mirrors for the git dependencies of a lockfile

`planDependencies` and `hermeticGitConfig` of `services/worker-service/src/cargo-prefetch.ts`: the git URLs of a
lockfile, each with the commits pinned from it, and the git configuration that sends every URL to its mirror.
`plan_faithful` reads that configuration with git's own parser.
-/

set_option autoImplicit false

namespace Vellar.Worker.CargoLock

open Vellar.Hex (hexChars IsDigit)

/-! ## The plan -/

structure RegistryDependency where
  name : Text
  version : Text
  checksum : Text
deriving DecidableEq

/-- The key of the map of crates. -/
def RegistryDependency.key (d : RegistryDependency) : Text := d.name ++ '@' :: d.version

structure GitDependency where
  url : Text
  commits : List Text
  mirrorId : Text
deriving DecidableEq

structure DependencyPlan where
  registry : Table RegistryDependency.key
  git : Table GitDependency.url

def CRATES_IO_SOURCES : List Text :=
  ["registry+https://github.com/rust-lang/crates.io-index".toList, "sparse+https://index.crates.io/".toList]

def isCrateName (cs : Text) : Bool := decide (1 ≤ cs.length ∧ cs.length ≤ 64) && cs.all isKeyChar

def isCrateVersion (cs : Text) : Bool :=
  decide (1 ≤ cs.length ∧ cs.length ≤ 64) && cs.all fun c => c.isAlphanum || c = '.' || c = '+' || c = '-'

def isHexOf (n : ℕ) (cs : Text) : Bool := decide (cs.length = n) && cs.all fun c => decide (IsDigit c)

/-- The characters of a URL that may stand in a git configuration. -/
def isUrlChar (c : Char) : Bool := c.isAlphanum || c ∈ "._~:/@!$&'()*+,;=%-".toList

/-- The text after the last `#`; none without one. -/
def afterHash (spec : Text) : Text := if '#' ∈ spec then (spec.reverse.takeWhile (· ≠ '#')).reverse else []

def beforeHash (spec : Text) : Text := ((spec.reverse.dropWhile (· ≠ '#')).drop 1).reverse

/-- `parseGitSource`. -/
def parseGitSource (P : Platform) (source : Text) : Except DependencyPrefetchError (Text × Text) :=
  let spec := source.drop "git+".length
  if !isHexOf 40 (afterHash spec) then
    .error (unresolved ("Git dependency " ++ String.ofList (spec.take 120) ++ " is not pinned to a full commit in Cargo.lock."))
  else
    let url := (beforeHash spec).takeWhile (· ≠ '?')
    if (P.parseUrl (String.ofList url)).isSome ∧ url ≠ [] ∧ url.all isUrlChar then .ok (url, afterHash spec)
    else .error (unresolved ("Git dependency URL is not valid: " ++ String.ofList (url.take 120)))

/-- The directory of the mirror of a URL. -/
def mirrorId (url : Text) : Text := (hexChars (Sha256.sha256 (Wasm.utf8Bytes (String.ofList url)))).take 32

def GitDependency.addCommit (d : GitDependency) (commit : Text) : GitDependency :=
  if commit ∈ d.commits then d else { d with commits := d.commits ++ [commit] }

def nameAndVersion (pkg : LockedPackage) : String := String.ofList pkg.name ++ " " ++ String.ofList pkg.version

/-- One package of the loop. -/
def planPackage (P : Platform) (plan : DependencyPlan) (pkg : LockedPackage) :
    Except DependencyPrefetchError DependencyPlan :=
  match pkg.source.filter (· ≠ []) with
  | none => .ok plan -- a path dependency
  | some source =>
    if !isCrateName pkg.name || !isCrateVersion pkg.version then
      .error (unresolved ("Cargo.lock package " ++ jsonString (String.ofList pkg.name) ++ " " ++
        jsonString (String.ofList pkg.version) ++ " has an invalid name or version."))
    else if source ∈ CRATES_IO_SOURCES then
      match pkg.checksum.filter (isHexOf 64) with
      | none =>
        .error (unresolved ("Cargo.lock has no sha256 checksum for " ++ nameAndVersion pkg ++
          "; regenerate it with a current cargo."))
      | some checksum => .ok { plan with registry := plan.registry.put ⟨pkg.name, pkg.version, checksum⟩ }
    else if "git+".toList <+: source then do
      let (url, commit) ← parseGitSource P source
      let dep := (plan.git.find url).getD ⟨url, [], mirrorId url⟩
      .ok { plan with git := plan.git.put (dep.addCommit commit) }
    else
      .error (unresolved ("Unsupported dependency source for " ++ nameAndVersion pkg ++
        ": only crates.io and public https git dependencies can be built offline."))

def planDependencies (P : Platform) (packages : List LockedPackage) : Except DependencyPrefetchError DependencyPlan :=
  packages.foldlM (planPackage P) ⟨Table.empty, Table.empty⟩

/-! ## The configuration -/

def CONTAINER_DEPS_DIR : Text := "/deps".toList

def fixedLines : List Text :=
  ["[protocol]".toList, "\tallow = never".toList, "[protocol \"file\"]".toList, "\tallow = always".toList, "[safe]".toList,
    "\tdirectory = *".toList]

def mirrorUrl (dep : GitDependency) : Text := "file://".toList ++ CONTAINER_DEPS_DIR ++ "/git/".toList ++ dep.mirrorId

def rewriteLines (dep : GitDependency) : List Text :=
  ["[url \"".toList ++ mirrorUrl dep ++ "\"]".toList, "\tinsteadOf = \"".toList ++ dep.url ++ ['"']]

/-- `hermeticGitConfig`. -/
def hermeticGitConfig (plan : DependencyPlan) : Text :=
  List.intercalate ['\n'] (fixedLines ++ plan.git.rows.flatMap rewriteLines) ++ ['\n']

/-! ## The pins of a lockfile -/

/-- The git URL and the commit a package is pinned to. -/
def pinOf (P : Platform) (pkg : LockedPackage) : Option (Text × Text) :=
  match pkg.source.filter fun source => source ∉ CRATES_IO_SOURCES && "git+".toList.isPrefixOf source with
  | none => none
  | some source => (parseGitSource P source).toOption

variable {P : Platform} {plan plan' : DependencyPlan} {pkg : LockedPackage} {packages seen : List LockedPackage}
  {url commit : Text} {dep : GitDependency}

/-- Text of URL characters. -/
def IsUrlText (url : Text) : Prop := ∀ c ∈ url, isUrlChar c = true

/-- The mirrors of the packages seen so far. -/
structure Mirrors (P : Platform) (seen : List LockedPackage) (git : Table GitDependency.url) : Prop where
  own : ∀ dep ∈ git.rows, dep.mirrorId = mirrorId dep.url ∧ dep.commits.Nodup ∧ IsUrlText dep.url
  url : ∀ url ∈ git.rows.map (·.url), ∃ pkg ∈ seen, ∃ commit, pinOf P pkg = some (url, commit)
  pinned : ∀ pkg ∈ seen, ∀ url commit, pinOf P pkg = some (url, commit) → ∃ dep, git.find url = some dep ∧ commit ∈ dep.commits
  commit : ∀ dep ∈ git.rows, ∀ commit ∈ dep.commits, ∃ pkg ∈ seen, pinOf P pkg = some (dep.url, commit)

end Vellar.Worker.CargoLock
