import Vellar.Worker.Artifact

/-!
# Vellar.Worker.JobSignature — signed jobs

`services/worker-service/src/job-signature.ts`: the canonical text of a job and its HMAC.
-/

set_option autoImplicit false

namespace Vellar.Worker

open Hex Sha256 Wasm

inductive SignatureReason where
  | missingSignature
  | invalidSignature
  | expired
  | malformed
deriving DecidableEq, Repr

def SignatureReason.text : SignatureReason → String
  | .missingSignature => "missing_signature"
  | .invalidSignature => "invalid_signature"
  | .expired => "expired"
  | .malformed => "malformed"

def SourceType.text : SourceType → String
  | .repo => "repo"
  | .upload => "upload"

/-- `JSON.stringify(field ?? null)` -/
def jsonOptional (field : Option String) : String := (field.map jsonString).getD "null"

/-- `canonicalizeJobPayload`: the job as one line of JSON. -/
def canonicalizeJobPayload (job : VerificationJobInput) : String :=
  let flags := ",".intercalate ((job.buildFlags.getD []).map jsonString)
  "\x7b" ++ ",".intercalate
    ["\"contractId\":" ++ jsonString job.contractId,
      "\"sourceType\":" ++ jsonString job.sourceType.text,
      "\"repoUrl\":" ++ jsonOptional job.repoUrl,
      "\"commitHash\":" ++ jsonOptional job.commitHash,
      "\"sourceArchiveRef\":" ++ jsonOptional job.sourceArchiveRef,
      "\"toolchainVersion\":" ++ jsonString job.toolchainVersion,
      "\"buildFlags\":[" ++ flags ++ "]",
      "\"timestamp\":" ++ toString (job.timestamp.getD 0)] ++ "\x7d"

def signJobPayload (job : VerificationJobInput) (secret : String) : String :=
  hexOf (hmac (utf8Bytes secret) (utf8Bytes (canonicalizeJobPayload job)))

/-- The options of `verifyJobSignature`, and the clock it falls back to. -/
structure SignatureOptions where
  maxAgeMs : Option ℤ
  nowMs : ℤ

/-- The job is too old, or dated in the future; not asked when there is no age limit or no timestamp. -/
def isExpired (job : VerificationJobInput) (options : SignatureOptions) : Bool :=
  match options.maxAgeMs, job.timestamp with
  | some maxAgeMs, some timestamp =>
    decide (maxAgeMs ≠ 0 ∧ timestamp ≠ 0 ∧
      (options.nowMs - timestamp > maxAgeMs ∨ timestamp > options.nowMs + 60000))
  | _, _ => false

/-- `verifyJobSignature`: the reason the job is rejected, if it is. -/
def verifyJobSignature (job : VerificationJobInput) (secret : String) (options : SignatureOptions) :
    Except SignatureReason Unit :=
  match truthy job.signature with
  | none => .error .missingSignature
  | some signature =>
    if isExpired job options then .error .expired
    else if fromHex (signJobPayload job secret) = fromHex signature then .ok ()
    else .error .invalidSignature

theorem truthy_hexOf {bytes : List UInt8} (h : 0 < bytes.length) : truthy (some (hexOf bytes)) = some (hexOf bytes) := by
  unfold truthy
  refine Option.filter_some_pos (decide_eq_true fun hempty => ?_)
  have hchars := length_hexChars bytes
  rw [show hexChars bytes = [] from String.ofList_injective hempty, List.length_nil] at hchars
  omega

/-- **Round trip**: a job that carries what `signJobPayload` gives for it verifies while it is not too old: the signature
is no part of what is signed. -/
theorem verifyJobSignature_sign {job : VerificationJobInput} {options : SignatureOptions} (secret : String)
    (hfresh : isExpired job options = false) :
    verifyJobSignature { job with signature := some (signJobPayload job secret) } secret options = .ok () := by
  have hlength : 0 < (hmac (utf8Bytes secret) (utf8Bytes (canonicalizeJobPayload job))).length := by
    rw [hmac, length_sha256]
    omega
  have hsigned : truthy (some (signJobPayload job secret)) = some (signJobPayload job secret) := truthy_hexOf hlength
  have hexpired : isExpired { job with signature := some (signJobPayload job secret) } options = false := hfresh
  unfold verifyJobSignature
  simp only [hsigned, hexpired, Bool.false_eq_true, if_false]
  exact if_pos rfl

end Vellar.Worker
