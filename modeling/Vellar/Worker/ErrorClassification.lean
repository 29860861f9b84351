import Vellar.Worker.JsText

/-!
# Vellar.Worker.ErrorClassification — what can be thrown, and what is worth a retry

The errors of `resolver.ts` and `executor.ts`, and `isTransientFailure` of
`services/worker-service/src/error-classification.ts`: the message is looked at first, then the code, so that
`byCode_iff` has the errors the code alone decides.
-/

set_option autoImplicit false

namespace Vellar.Worker

inductive ResolveErrorCode where
  | notFound
  | notWasm
  | rpcError
  | timeout
deriving DecidableEq, Repr

def ResolveErrorCode.text : ResolveErrorCode → String
  | .notFound => "not_found"
  | .notWasm => "not_wasm"
  | .rpcError => "rpc_error"
  | .timeout => "timeout"

inductive BuildErrorCode where
  | notConfigured
  | cloneFailed
  | buildFailed
  | artifactMissing
  | unsupportedSource
  | repoUrlRejected
  | dependenciesUnresolved
  | dependencyFetchFailed
  | insufficientDiskSpace
deriving DecidableEq, Repr

def BuildErrorCode.text : BuildErrorCode → String
  | .notConfigured => "not_configured"
  | .cloneFailed => "clone_failed"
  | .buildFailed => "build_failed"
  | .artifactMissing => "artifact_missing"
  | .unsupportedSource => "unsupported_source"
  | .repoUrlRejected => "repo_url_rejected"
  | .dependenciesUnresolved => "dependencies_unresolved"
  | .dependencyFetchFailed => "dependency_fetch_failed"
  | .insufficientDiskSpace => "insufficient_disk_space"

/-- A thrown value: an `ArtifactResolveError`, a `BuildExecutorError`, another error, or something that is no
error at all. -/
inductive Thrown where
  | resolve (code : ResolveErrorCode) (message : String)
  | build (code : BuildErrorCode) (message log : String)
  | error (name message : String)
  | value
deriving DecidableEq

/-- What the messages of transient errors contain; for RPC errors there is one more rule. -/
def TRANSIENT_MESSAGES : List String :=
  ["timeout", "econnrefused", "econnreset", "connection refused", "connection reset", "network unreachable",
    "dns", "enotfound", "getaddrinfo", "socket", "hang up", "broken pipe", "epipe", "econnaborted",
    "rate limit", "too many requests", "temporarily unavailable", "node is syncing", "not ready", "not synced",
    "500", "502", "503"]

def TRANSIENT_NAMES : List String := ["TimeoutError", "EAI_AGAIN", "ENOTFOUND"]

/-- The first part of `isTransientFailure`: the name and the lower-cased message of an error. -/
def looksTransient (name message : String) : Bool :=
  decide (name ∈ TRANSIENT_NAMES) || TRANSIENT_MESSAGES.any (includes message) ||
    (includes message "rpc" && !includes message "not found")

/-- The second part, for the codes of a resolver error; none when no rule names the code. -/
def resolveTransient : ResolveErrorCode → Option Bool
  | .notFound | .notWasm => some false
  | .rpcError => some true
  | .timeout => none

/-- The third part, for the codes of a build error. -/
def buildTransient : BuildErrorCode → Option Bool
  | .notConfigured | .artifactMissing | .repoUrlRejected | .unsupportedSource | .dependenciesUnresolved => some false
  | .cloneFailed | .buildFailed | .dependencyFetchFailed => some true
  | .insufficientDiskSpace => none

/-- `isTransientFailure`; what no rule names is transient. -/
def isTransientFailure (P : Platform) : Thrown → Bool
  | .resolve code message =>
    looksTransient "ArtifactResolveError" (P.toLowerCase message) || (resolveTransient code).getD true
  | .build code message _ =>
    looksTransient "BuildExecutorError" (P.toLowerCase message) || (buildTransient code).getD true
  | .error _ _ => true
  | .value => true

/-! ## Classification by the code -/

/-- The classification the tables of codes give a typed error; none where they leave it out. -/
def Thrown.classified : Thrown → Option Bool
  | .resolve code _ => resolveTransient code
  | .build code _ _ => buildTransient code
  | .error _ _ | .value => none

/-- Whether the name and the lower-cased message of a typed error are taken for those of a transient failure. -/
def Thrown.looks (P : Platform) : Thrown → Bool
  | .resolve _ message => looksTransient "ArtifactResolveError" (P.toLowerCase message)
  | .build _ message _ => looksTransient "BuildExecutorError" (P.toLowerCase message)
  | .error _ _ | .value => false

/-- Two typed errors of one class and code. -/
def Thrown.SameCode : Thrown → Thrown → Prop
  | .resolve code _, .resolve code' _ => code = code'
  | .build code _ _, .build code' _ _ => code = code'
  | _, _ => False

/-- Two errors of one code are classified by it, and alike. -/
structure ByCode (P : Platform) (e e' : Thrown) : Prop where
  left : ∀ transient ∈ e.classified, isTransientFailure P e = transient
  right : ∀ transient ∈ e'.classified, isTransientFailure P e' = transient
  alike : isTransientFailure P e = isTransientFailure P e'

section ByCode

variable {P : Platform} {e e' : Thrown}

theorem classified_eq (h : e.SameCode e') : e.classified = e'.classified := by
  cases e with
  | resolve code message =>
    cases e' with
    | resolve => exact congrArg resolveTransient h
    | _ => exact False.elim h
  | build code message log =>
    cases e' with
    | build => exact congrArg buildTransient h
    | _ => exact False.elim h
  | _ => exact False.elim h

theorem getD_true_iff {transient : Option Bool} : transient.getD true = true ↔ transient ≠ some false := by
  cases transient with
  | none => simp
  | some b => cases b <;> simp

/-- The message comes first, then the code, then a retry. -/
theorem isTransientFailure_iff : isTransientFailure P e = true ↔ e.looks P = true ∨ e.classified ≠ some false := by
  cases e with
  | resolve code message =>
    unfold isTransientFailure Thrown.looks Thrown.classified
    rw [Bool.or_eq_true, getD_true_iff]
  | build code message log =>
    unfold isTransientFailure Thrown.looks Thrown.classified
    rw [Bool.or_eq_true, getD_true_iff]
  | error | value => exact iff_of_true rfl (.inr fun h => nomatch h)

theorem isTransientFailure_of_permanent (h : e.classified = some false) : isTransientFailure P e = true ↔ e.looks P = true := by
  rw [isTransientFailure_iff, h]
  simp

/-- **Typed failures are classified by their code** exactly where the code is not permanent or neither message looks transient. -/
theorem byCode_iff (P : Platform) (e e' : Thrown) (h : e.SameCode e') :
    ByCode P e e' ↔ (e.classified = some false → e.looks P = false ∧ e'.looks P = false) := by
  have hsame := classified_eq h
  constructor
  · intro hcode hpermanent
    have hleft := hcode.left false hpermanent
    have hright := hcode.right false (hsame ▸ hpermanent)
    rw [← Bool.not_eq_true] at hleft hright ⊢
    rw [isTransientFailure_of_permanent hpermanent] at hleft
    rw [isTransientFailure_of_permanent (hsame ▸ hpermanent)] at hright
    exact ⟨hleft, Bool.not_eq_true _ ▸ hright⟩
  · intro hlooks
    by_cases hpermanent : e.classified = some false
    · obtain ⟨hleft, hright⟩ := hlooks hpermanent
      rw [← Bool.not_eq_true, ← isTransientFailure_of_permanent hpermanent, Bool.not_eq_true] at hleft
      rw [← Bool.not_eq_true, ← isTransientFailure_of_permanent (hsame ▸ hpermanent), Bool.not_eq_true] at hright
      refine ⟨fun transient htransient => ?_, fun transient htransient => ?_, hleft.trans hright.symm⟩
      · obtain rfl := Option.some.inj (hpermanent.symm.trans htransient)
        exact hleft
      · obtain rfl := Option.some.inj ((hsame ▸ hpermanent).symm.trans htransient)
        exact hright
    · have hleft : isTransientFailure P e = true := isTransientFailure_iff.mpr (.inr hpermanent)
      have hright : isTransientFailure P e' = true := isTransientFailure_iff.mpr (.inr (hsame ▸ hpermanent))
      refine ⟨fun transient htransient => ?_, fun transient htransient => ?_, hleft.trans hright.symm⟩
      · cases transient with
        | true => exact hleft
        | false => exact absurd htransient hpermanent
      · cases transient with
        | true => exact hright
        | false => exact absurd htransient (hsame ▸ hpermanent)

end ByCode

/-! Two crates that are not published. -/

def asciiPlatform : Platform := Platform.ascii fun _ => none

def unpublished (crate : String) : Thrown := .build .dependenciesUnresolved (crate ++ " is not published on crates.io.") ""

theorem byCode_unpublished : ByCode asciiPlatform (unpublished "serde 9.9.9") (unpublished "rand 9.9.9") :=
  (byCode_iff asciiPlatform (unpublished "serde 9.9.9") (unpublished "rand 9.9.9") rfl).mpr fun _ =>
    ⟨by decide +kernel, by decide +kernel⟩

/-- The name of a crate makes a permanent failure transient. -/
theorem crate_name_classifies : ¬ ∀ (P : Platform) (e e' : Thrown), e.SameCode e' → ByCode P e e' := by
  intro hall
  have hleft := (hall asciiPlatform (unpublished "dns-lookup 9.9.9") (unpublished "rand 9.9.9") rfl).left false rfl
  exact absurd hleft (by decide +kernel)

end Vellar.Worker
