import Vellar.Lib.Hex
import Vellar.Lib.Sha256
import Vellar.Worker.JsText
import Vellar.Worker.Types
import Vellar.Worker.WasmSections

/-!
# Vellar.Worker.Artifact — artifact hashes, first-party contracts, publishers

`services/worker-service/src/artifact.ts` and `first-party.ts`, and `packages/service-kit/src/publisher.ts`.
The hash of a deployed artifact is written in canonical form (`IsCanonicalHash`): the lower-case hexadecimal
of 32 bytes, which `normalizeHash` leaves alone.
-/

set_option autoImplicit false

namespace Vellar.Worker

open Hex Sha256 Wasm

/-! ## `artifact.ts` -/

/-- `hashArtifact`: lower-case hexadecimal SHA-256. -/
def hashArtifact (wasm : Bytes) : String := hexOf (sha256 wasm)

/-- `replace(/^0x/i, "")`. -/
def dropHexPrefix (s : String) : String :=
  match s.toList with
  | c :: d :: rest => if c = '0' ∧ (d = 'x' ∨ d = 'X') then String.ofList rest else s
  | _ => s

section Artifact

variable (P : Platform)

def normalizeHash (hash : String) : String := P.toLowerCase (dropHexPrefix (trim hash))

def hashesMatch (a b : String) : Bool :=
  decide (normalizeHash P a = normalizeHash P b ∧ (normalizeHash P a).length > 0)

/-! ## `first-party.ts` -/

def FIRST_PARTY_WASM_HASHES : List String :=
  ["0f6b858d61799a33efdc2303c60eb0c148fd2983b7d2336fc345b5492a24b791",
    "a57efbf969d6e574e2b40d98985a145fd87d1760224ef6d10e268ea1f6080960"]

def FIRST_PARTY_GITHUB_OWNERS : List String := ["vellar-wallet"]

def githubOwner (repoUrl : String) : Option String :=
  match P.parseUrl repoUrl with
  | none => none
  | some url =>
    if P.toLowerCase url.hostname ≠ "github.com" then none
    else ((split url.pathname '/').filter (· ≠ "")).head?.map P.toLowerCase

def isFirstPartyContract (repoUrl : Option String) (deployedHash : String) : Bool :=
  if normalizeHash P deployedHash ∈ FIRST_PARTY_WASM_HASHES then true
  else ((truthy repoUrl).bind (githubOwner P)).any fun owner => owner ∈ FIRST_PARTY_GITHUB_OWNERS

/-! ## `publisher.ts` -/

def isAsciiLetter (c : Char) : Bool := ('a' ≤ c && c ≤ 'z') || ('A' ≤ c && c ≤ 'Z')

def isAsciiDigit (c : Char) : Bool := '0' ≤ c && c ≤ '9'

/-- `/^[a-z][a-z0-9+.-]*:\/\//i` -/
def hasScheme (s : String) : Bool :=
  match s.toList with
  | c :: rest =>
    isAsciiLetter c &&
      (rest.dropWhile fun d => isAsciiLetter d || isAsciiDigit d || d ∈ ['+', '.', '-']).take 3 == [':', '/', '/']
  | [] => false

/-- `replace(/\.git$/, "")` -/
def dropGitSuffix (s : String) : String :=
  if ['.', 'g', 'i', 't'] <:+ s.toList then String.ofList (s.toList.take (s.toList.length - 4)) else s

/-- `/^[a-z0-9][a-z0-9._-]*$/` -/
def isOwnerName (s : String) : Bool :=
  match s.toList with
  | c :: rest =>
    (('a' ≤ c && c ≤ 'z') || isAsciiDigit c) &&
      rest.all fun d => ('a' ≤ d && d ≤ 'z') || isAsciiDigit d || d ∈ ['.', '_', '-']
  | [] => false

/-- `canonicalPublisher`: host and owner, lower-cased. -/
def canonicalPublisher (input : String) : Option String :=
  let trimmed := trim input
  if trimmed = "" then none
  else
    let withScheme := if hasScheme trimmed then trimmed else "https://" ++ trimmed
    match P.parseUrl withScheme with
    | none => none
    | some url =>
      let host := P.toLowerCase url.hostname
      match (((split url.pathname '/').map trim).filter (· ≠ "")).head? with
      | none => none
      | some owner =>
        let cleaned := dropGitSuffix (P.toLowerCase owner)
        if host = "" then none
        else if isOwnerName cleaned then some (host ++ "/" ++ cleaned)
        else none

def publisherIdHex (canonical : String) : String := hexOf (sha256 (utf8Bytes canonical))

def publisherIdFor (input : String) : Option String := (canonicalPublisher P input).map publisherIdHex

end Artifact

/-! ## Canonical hashes -/

/-- The lower-case hexadecimal of 32 bytes. -/
def IsCanonicalHash (hash : String) : Prop := ∃ bytes : List UInt8, bytes.length = 32 ∧ hash = hexOf bytes

theorem isCanonicalHash_hashArtifact (wasm : Bytes) : IsCanonicalHash (hashArtifact wasm) :=
  ⟨sha256 wasm, length_sha256 wasm, rfl⟩

section Canonical

variable {P : Platform} {hash : String}

theorem isDigit_spec {c : Char} (h : IsDigit c) :
    isJsSpace c = false ∧ lowerChar c = c ∧ c.toNat < 128 ∧ c ≠ 'x' ∧ c ≠ 'X' := by
  have hcases : ∀ n < 128, IsDigit (Char.ofNat n) → isJsSpace (Char.ofNat n) = false ∧
      lowerChar (Char.ofNat n) = Char.ofNat n ∧ Char.ofNat n ≠ 'x' ∧ Char.ofNat n ≠ 'X' := by
    decide
  have hlt : c.toNat < 128 := by
    have hle : ∀ d : Char, c ≤ d → c.toNat ≤ d.toNat := fun d hd => hd
    rcases h with ⟨-, h9⟩ | ⟨-, hf⟩
    · exact lt_of_le_of_lt (hle '9' h9) (by decide)
    · exact lt_of_le_of_lt (hle 'f' hf) (by decide)
  have hc : Char.ofNat c.toNat = c := Char.ofNat_toNat c
  have := hcases c.toNat hlt (hc.symm ▸ h)
  rw [hc] at this
  exact ⟨this.1, this.2.1, hlt, this.2.2⟩

/-- A canonical hash is already normalized. -/
theorem normalizeHash_canonical (h : IsCanonicalHash hash) : normalizeHash P hash = hash := by
  obtain ⟨bytes, -, rfl⟩ := h
  have hdigit : ∀ c ∈ (hexOf bytes).toList, IsDigit c := by
    unfold hexOf
    rw [String.toList_ofList]
    exact fun c => isDigit_of_mem
  have hdropped : dropHexPrefix (hexOf bytes) = hexOf bytes := by
    unfold dropHexPrefix
    split
    · next c d rest heq =>
      have hd : d ∈ (hexOf bytes).toList := by rw [heq]; simp
      obtain ⟨-, -, -, hx, hX⟩ := isDigit_spec (hdigit d hd)
      rw [if_neg fun hc => hc.2.elim hx hX]
    · rfl
  unfold normalizeHash
  rw [trim_eq_self fun c hc => (isDigit_spec (hdigit c hc)).1, hdropped,
    P.toLowerCase_ascii _ fun c hc => (isDigit_spec (hdigit c hc)).2.2.1,
    asciiLower_eq_self fun c hc => (isDigit_spec (hdigit c hc)).2.1]

/-- Canonical hashes match when they are the same text. -/
theorem hashesMatch_canonical {a b : String} (ha : IsCanonicalHash a) (hb : IsCanonicalHash b) :
    hashesMatch P a b = true ↔ a = b := by
  unfold hashesMatch
  rw [normalizeHash_canonical ha, normalizeHash_canonical hb, decide_eq_true_eq]
  refine ⟨fun h => h.1, fun h => ⟨h, ?_⟩⟩
  obtain ⟨bytes, hlen, rfl⟩ := ha
  unfold hexOf
  rw [String.length_ofList, length_hexChars, hlen]
  decide

end Canonical

end Vellar.Worker
