import Vellar.Web.Sep7

/-!
# Vellar.Web.Sep7Origin — who a payment request comes from

`verifySep7Origin` of `apps/web/lib/sep7.ts`.  The signature is checked on the text of the request without its last
field: `stripSignature_spec` says what that text is.
-/

set_option autoImplicit false

namespace Vellar.Web.Sep7

open WebText (Text text unit)
open Utf16 (encodeUtf8)
open Extension.Sanitization (isJsSpace)
open Wallet.Create (base64Bytes)

/-! ## What is outside -/

/-- The calls that are made, none where one throws. -/
structure OriginVerifyDeps where
  /-- Whether the answer is `ok`, and its text. -/
  fetch : Text → Option (Bool × Option Text)
  /-- `keyCache.get`, where there is a cache. -/
  keyCache : Option (Text → Option Text)
  /-- `Keypair.fromPublicKey(key).verify(data, signature)` -/
  verify : Text → List UInt8 → List UInt8 → Option Bool

inductive OriginVerification where
  | none
  | verified (domain : Text)
  | invalid (domain : Text) (reason : String)
deriving DecidableEq

/-! ## The signature and the key -/

def SIGNATURE_PREFIX : Text := text "stellar.sep.7 - URI Scheme"

def sep7SignaturePayload (uriWithoutSignature : Text) : List UInt8 :=
  List.replicate 35 0 ++ 4 :: encodeUtf8 (SIGNATURE_PREFIX ++ uriWithoutSignature)

/-- The text before the last ampersand, if the field after it is the signature. -/
def stripSignature (uri : Text) : Option Text :=
  let last := (uri.reverse.takeWhile fun c => c ≠ unit '&').reverse
  if last.length < uri.length ∧ (text "signature=").isPrefixOf last then
    some (uri.take (uri.length - last.length - 1))
  else none

/-- `toml.split(/\r?\n/)` -/
def tomlLines (toml : Text) : List Text :=
  let lines := toml.splitOn (unit '\n')
  lines.dropLast.map (fun line => if line.getLast? = some (unit '\r') then line.dropLast else line) ++
    [lines.getLastD []]

/-- `.` -/
def isLineTerminator (c : UInt16) : Bool := c.toNat ∈ [10, 13, 0x2028, 0x2029]

def skipSpace (t : Text) : Text := t.dropWhile isJsSpace

/-- What follows the given text. -/
def afterText (start : String) (t : Text) : Option Text :=
  if (text start).isPrefixOf t then some (t.drop (text start).length) else none

/-- `^\s*URI_REQUEST_SIGNING_KEY\s*=\s*"([^"]*)"\s*(?:#.*)?$` -/
def signingKeyOf (line : Text) : Option Text := do
  let rest ← afterText "URI_REQUEST_SIGNING_KEY" (skipSpace line)
  let rest ← afterText "=" (skipSpace rest)
  let rest ← afterText "\"" (skipSpace rest)
  let tail ← afterText "\"" (rest.dropWhile fun c => c ≠ unit '"')
  let comment := skipSpace tail
  if comment = [] ∨ comment.head? = some (unit '#') ∧ comment.any isLineTerminator = false then
    some (rest.takeWhile fun c => c ≠ unit '"')
  else none

/-- The key of the top level. -/
def signingKeyFrom : List Text → Option Text
  | [] => none
  | line :: lines =>
    if (text "[").isPrefixOf (skipSpace line) then none
    else
      match signingKeyOf line with
      | some key => some key
      | none => signingKeyFrom lines

def signingKeyFromToml (toml : Text) : Option Text := signingKeyFrom (tomlLines toml)

def atobDigit (c : UInt16) : Option ℕ :=
  if 65 ≤ c.toNat ∧ c.toNat ≤ 90 then some (c.toNat - 65)
  else if 97 ≤ c.toNat ∧ c.toNat ≤ 122 then some (c.toNat - 71)
  else if 48 ≤ c.toNat ∧ c.toNat ≤ 57 then some (c.toNat + 4)
  else if c = unit '+' then some 62
  else if c = unit '/' then some 63
  else none

/-- One padding sign less. -/
def dropPadding (t : Text) : Text := if t.getLast? = some (unit '=') then t.dropLast else t

/-- `atob`; none where it throws. -/
def atob (data : Text) : Option (List UInt8) :=
  let data := data.filter fun c => c.toNat ∉ [9, 10, 12, 13, 32]
  let digits := if data.length % 4 = 0 then dropPadding (dropPadding data) else data
  if digits.length % 4 = 1 then none else (digits.mapM atobDigit).map base64Bytes

/-! ## Verification -/

section Model

variable (sdk : Sdk) (deps : OriginVerifyDeps)

/-- The `stellar.toml` of a domain. -/
def tomlOf (domain : Text) : Option Text :=
  match deps.fetch (text "https://" ++ domain ++ text "/.well-known/stellar.toml") with
  | some (true, toml) => toml
  | _ => none

/-- The key that a domain publishes. -/
def publishedKey (domain : Text) : Option Text :=
  ((tomlOf deps domain).bind signingKeyFromToml).filter sdk.isValidEd25519PublicKey

/-- The signature of the key on the text. -/
def isSigned (key unsigned signature : Text) : Bool :=
  match atob signature with
  | none => false
  | some signature => (deps.verify key (sep7SignaturePayload unsigned) signature).getD false

/-- `verifySep7Origin`, and the key that the cache is given for the domain. -/
def verifySep7Origin (request : Sep7PayRequest) : OriginVerification × Option Text :=
  match given request.originDomain with
  | none => (.none, none)
  | some domain =>
    match (stripSignature request.uri).filter (· ≠ []), given request.signature with
    | some unsigned, some signature =>
      match tomlOf deps domain with
      | none => (.invalid domain "The origin's stellar.toml couldn't be loaded.", none)
      | some toml =>
        match (signingKeyFromToml toml).filter sdk.isValidEd25519PublicKey with
        | none => (.invalid domain "The origin doesn't publish a request-signing key.", none)
        | some key =>
          if (given (deps.keyCache.bind fun get => get domain)).any (· ≠ key) then
            (.invalid domain "The origin's signing key changed since your last request from it.", none)
          else if atob signature = none then (.invalid domain "The request's signature is malformed.", none)
          else if isSigned deps key unsigned signature = false then
            (.invalid domain "The request's signature doesn't match its origin.", none)
          else (.verified domain, some key)
    | _, _ => (.invalid domain "The signature must be the request's last field.", none)

end Model

/-! ## What is signed -/

theorem exists_verified {sdk : Sdk} {deps : OriginVerifyDeps} {request : Sep7PayRequest} {domain : Text}
    (h : (verifySep7Origin sdk deps request).1 = .verified domain) :
    request.originDomain = some domain ∧ ∃ unsigned key signature, stripSignature request.uri = some unsigned ∧
      request.signature = some signature ∧ publishedKey sdk deps domain = some key ∧
      isSigned deps key unsigned signature = true := by
  rw [verifySep7Origin] at h
  rcases horigin : given request.originDomain with _ | origin
  · rw [horigin] at h
    exact absurd h nofun
  rw [horigin] at h
  dsimp only at h
  rcases hunsigned : (stripSignature request.uri).filter (· ≠ []) with _ | unsigned
  · rw [hunsigned] at h
    exact absurd h nofun
  rcases hsignature : given request.signature with _ | signature
  · rw [hunsigned, hsignature] at h
    exact absurd h nofun
  rw [hunsigned, hsignature] at h
  dsimp only at h
  rcases htoml : tomlOf deps origin with _ | toml
  · rw [htoml] at h
    exact absurd h nofun
  rw [htoml] at h
  dsimp only at h
  rcases hkey : (signingKeyFromToml toml).filter sdk.isValidEd25519PublicKey with _ | key
  · rw [hkey] at h
    exact absurd h nofun
  rw [hkey] at h
  dsimp only at h
  split_ifs at h with hcached hatob hsigned
  obtain rfl := OriginVerification.verified.inj h
  have hpublished : publishedKey sdk deps origin = some key := by
    rw [publishedKey, htoml]
    exact hkey
  exact ⟨(Option.filter_eq_some_iff.mp horigin).1, unsigned, key, signature,
    (Option.filter_eq_some_iff.mp hunsigned).1, (Option.filter_eq_some_iff.mp hsignature).1, hpublished,
    Bool.not_eq_false _ ▸ hsigned⟩

/-- A text whose last ampersand is followed by the signature. -/
theorem stripSignature_spec {uri unsigned : Text} (h : stripSignature uri = some unsigned) :
    ∃ value, uri = unsigned ++ unit '&' :: (text "signature=" ++ value) ∧ unit '&' ∉ value := by
  rw [stripSignature] at h
  split_ifs at h with hboth
  obtain ⟨hlength, hprefix⟩ := hboth
  obtain rfl := Option.some.inj h
  obtain ⟨value, hvalue⟩ := List.isPrefixOf_iff_prefix.mp hprefix
  have hsplit : (uri.reverse.takeWhile fun c => c ≠ unit '&') ++ (uri.reverse.dropWhile fun c => c ≠ unit '&') =
      uri.reverse := List.takeWhile_append_dropWhile
  have hfree : unit '&' ∉ (uri.reverse.takeWhile fun c => c ≠ unit '&') := by
    intro hmem
    have hne := List.mem_takeWhile_imp (p := fun c => decide (c ≠ unit '&')) hmem
    exact absurd hne (by decide)
  have hhead := List.head?_dropWhile_not (fun c => decide (c ≠ unit '&')) uri.reverse
  rw [List.length_reverse] at hlength
  rw [List.length_reverse]
  revert hsplit hfree hhead hlength hvalue
  generalize (uri.reverse.takeWhile fun c => c ≠ unit '&') = last
  generalize (uri.reverse.dropWhile fun c => c ≠ unit '&') = before
  intro hlength hvalue hsplit hfree hhead
  cases before with
  | nil =>
    rw [List.append_nil] at hsplit
    rw [hsplit, List.length_reverse] at hlength
    exact absurd hlength (lt_irrefl _)
  | cons c before =>
    obtain rfl : c = unit '&' := by simpa using hhead
    have huri : uri = before.reverse ++ unit '&' :: last.reverse := by
      rw [← List.reverse_reverse uri, ← hsplit, List.reverse_append, List.reverse_cons, List.append_assoc]
      rfl
    have hunsigned : uri.take (uri.length - last.length - 1) = before.reverse := by
      have hcount : uri.length - last.length - 1 = before.reverse.length := by
        rw [huri, List.length_append, List.length_cons, List.length_reverse, List.length_reverse]
        omega
      rw [hcount, huri, List.take_left]
    refine ⟨value, ?_, fun hmem => hfree (List.mem_reverse.mp (hvalue ▸ List.mem_append_right _ hmem))⟩
    rw [hunsigned, hvalue]
    exact huri

end Vellar.Web.Sep7
