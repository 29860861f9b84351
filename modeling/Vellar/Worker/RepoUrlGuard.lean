import Vellar.Lib.Inet
import Vellar.Worker.JsText

/-!
# Vellar.Worker.RepoUrlGuard — which hosts a clone may reach

Models `services/worker-service/src/repo-url-guard.ts`: `isBlockedAddress` reads the text of an address, and
`assertPublicHttpsRepoUrl` looks at the address a URL names or at every address its host resolves to.
`spelling_iff` has the texts on which the check and the address they denote agree.
-/

set_option autoImplicit false

namespace Vellar.Worker.RepoUrlGuard

open Vellar.Inet
open Vellar.Hex (hexValue hexDigit)

/-! ## Addresses -/

/-- The rules for the numbers of an address of the fourth version. -/
def blockedParts (parts : List ℕ) : Bool :=
  match parts with
  | [a, b, _, _] =>
    if parts.any fun p => 255 < p then true
    else if a = 0 then true -- 0.0.0.0/8
    else if a = 10 then true
    else if a = 127 then true
    else if a = 169 ∧ b = 254 then true
    else if a = 172 ∧ 16 ≤ b ∧ b ≤ 31 then true
    else if a = 192 ∧ b = 168 then true
    else decide (224 ≤ a)
  | _ => true

/-- The prefixes of link-local, unique-local and multicast texts. -/
def leads (lower : List Char) : Bool :=
  "fe80".toList.isPrefixOf lower || "fc".toList.isPrefixOf lower || "fd".toList.isPrefixOf lower ||
    "ff".toList.isPrefixOf lower

/-- `\d+\.\d+\.\d+\.\d+`. -/
def dotted (cs : List Char) : Bool :=
  decide ((cs.splitOn '.').length = 4) && (cs.splitOn '.').all fun p => p ≠ [] && p.all isDigit

/-- What `/::ffff:(\d+\.\d+\.\d+\.\d+)$/` captures: the leftmost match. -/
def mapped : List Char → Option (List Char)
  | [] => none
  | c :: cs =>
    if "::ffff:".toList <+: c :: cs ∧ dotted ((c :: cs).drop 7) then some ((c :: cs).drop 7) else mapped cs

/-- One reading of an address; `again` reads an embedded one. -/
def blockedBy (again : List Char → Bool) (ip : List Char) : Bool :=
  match isIP ip with
  | 4 => blockedParts ((ip.splitOn '.').map decimal)
  | 6 =>
    let lower := ip.map lowerChar
    if lower = "::1".toList ∨ lower = "::".toList then true
    else if leads lower then true
    else
      match mapped lower with
      | some embedded => again embedded
      | none => false
  | _ => true -- not a literal: blocked

/-- `isBlockedAddress`: an embedded address is dotted, and read by a second call that makes no third. -/
def isBlockedAddress (ip : List Char) : Bool := blockedBy (blockedBy fun _ => true) ip

/-! ## The guard -/

/-- A URL with its port; empty for the one of the scheme. -/
structure RepoUrl extends Url where
  port : String

structure RepoUrlError where
  message : String
deriving DecidableEq

structure ResolvedPin where
  host : String
  port : ℕ
  ip : String
deriving DecidableEq

/-- `parseHttpsRepoUrl`; `newURL` is the URL parser. -/
def parseHttpsRepoUrl (newURL : String → Option RepoUrl) (repoUrl : String) : Except RepoUrlError RepoUrl :=
  match newURL repoUrl with
  | none => .error ⟨"repoUrl is not a valid URL: " ++ repoUrl⟩
  | some url =>
    if url.protocol ≠ "https:" then
      .error ⟨"repoUrl must use https (got " ++ url.protocol ++ "); file/git/ssh/http are blocked."⟩
    else if url.username ≠ "" ∨ url.password ≠ "" then
      .error ⟨"repoUrl must not embed credentials (userinfo)."⟩
    else .ok url

/-- `assertPublicHttpsRepoUrl`; a failing `resolve` gives its message. -/
def assertPublicHttpsRepoUrl (newURL : String → Option RepoUrl) (resolve : String → Except String (List String))
    (repoUrl : String) : Except RepoUrlError (Option ResolvedPin) := do
  let url ← parseHttpsRepoUrl newURL repoUrl
  if isIP url.hostname.toList ≠ 0 then
    if isBlockedAddress url.hostname.toList then
      .error ⟨"repoUrl host " ++ url.hostname ++ " is a private/loopback/link-local address."⟩
    else .ok none -- the host is the address that was checked
  else
    match resolve url.hostname with
    | .error message => .error ⟨"repoUrl host " ++ url.hostname ++ " could not be resolved: " ++ message⟩
    | .ok [] => .error ⟨"repoUrl host " ++ url.hostname ++ " did not resolve to any address."⟩
    | .ok (first :: rest) =>
      match (first :: rest).find? fun addr => isBlockedAddress addr.toList with
      | some addr => .error ⟨"repoUrl host " ++ url.hostname ++ " resolves to a blocked address (" ++ addr ++ ")."⟩
      | none => .ok (some ⟨url.hostname, if url.port = "" then 443 else decimal url.port.toList, first⟩)

/-! ## What a text denotes and how it is written -/

/-- The groups of an address that must never be reached. -/
def Reserved (address : List ℕ) : Prop :=
  address = [0, 0, 0, 0, 0, 0, 0, 0] ∨ address = [0, 0, 0, 0, 0, 0, 0, 1] ∨
    (∃ h, address.head? = some h ∧ (h / 64 = 0xfe80 / 64 ∨ h / 512 = 0xfc00 / 512 ∨ h / 256 = 0xff00 / 256)) ∨
    ∃ x y, address = [0, 0, 0, 0, 0, 0xffff, x, y] ∧ blockedParts [x / 256, x % 256, y / 256, y % 256] = true

/-- The first groups of which every spelling has one of the prefixes looked for. -/
def Known (address : List ℕ) : Prop :=
  ∃ h, address.head? = some h ∧ (h = 0xfe80 ∨ h / 512 = 0xfc00 / 512 ∨ h / 256 = 0xff00 / 256)

/-- Written as the check has it. -/
def Literal (s : List Char) : Prop := s.map lowerChar = "::1".toList ∨ s.map lowerChar = "::".toList

instance (s : List Char) : Decidable (Literal s) := inferInstanceAs (Decidable (_ ∨ _))

/-- A prefix is read in a first group of less than four digits. -/
def ShortGroup (s : List Char) : Prop := (s.takeWhile (· ≠ ':')).length < 4 ∧ leads (s.map lowerChar) = true

/-- The text ends in `::ffff:` and four numbers that are no public address. -/
def EndsMapped (s : List Char) : Prop :=
  ∃ d, "::ffff:".toList ++ d <:+ s.map lowerChar ∧ dotted d = true ∧
    ∀ octets, parseV4 d = some octets → blockedParts octets = true

/-- A reserved address written so that the check sees it. -/
def Caught (s : List Char) (address : List ℕ) : Prop := Known address ∨ Literal s ∨ EndsMapped s

/-- An address written so that the check blocks it whatever it is. -/
def Odd (s : List Char) : Prop := ShortGroup s ∨ EndsMapped s

/-! ## The prefixes -/

variable {s s' p d cs : List Char} {a : List ℕ} {v : ℕ} {f g : List Char → Bool}

theorem lowerChar_of_hexValue {c : Char} (h : hexValue c = some v) : v < 16 ∧ lowerChar c = hexDigit v := by
  have hc : Char.ofNat c.toNat = c := Char.ofNat_toNat c
  unfold hexValue at h
  split_ifs at h with hdigit hlower hupper
  all_goals cases h
  · have hlo : 48 ≤ c.toNat := hdigit.1
    have hhi : c.toNat ≤ 57 := hdigit.2
    rw [← hc]
    generalize c.toNat = n at hlo hhi
    interval_cases n <;> decide
  · have hlo : 97 ≤ c.toNat := hlower.1
    have hhi : c.toNat ≤ 102 := hlower.2
    rw [← hc]
    generalize c.toNat = n at hlo hhi
    interval_cases n <;> decide
  · have hlo : 65 ≤ c.toNat := hupper.1
    have hhi : c.toNat ≤ 70 := hupper.2
    rw [← hc]
    generalize c.toNat = n at hlo hhi
    interval_cases n <;> decide

/-- A group in lower case is the digits of its number. -/
theorem lower_of_mapM {ds : List ℕ} (h : p.mapM hexValue = some ds) :
    p.map lowerChar = ds.map hexDigit ∧ ∀ d ∈ ds, d < 16 := by
  induction p generalizing ds with
  | nil =>
    cases h
    exact ⟨rfl, fun d hd => absurd hd List.not_mem_nil⟩
  | cons c p ih =>
    rw [List.mapM_cons] at h
    obtain ⟨x, hx, h⟩ := Option.bind_eq_some_iff.mp h
    obtain ⟨xs, hxs, heq⟩ := Option.bind_eq_some_iff.mp h
    cases heq
    obtain ⟨hlt, hlower⟩ := lowerChar_of_hexValue hx
    obtain ⟨hmap, hall⟩ := ih hxs
    refine ⟨by rw [List.map_cons, List.map_cons, hlower, hmap], fun d hd => ?_⟩
    rcases List.mem_cons.mp hd with rfl | hd
    · exact hlt
    · exact hall d hd

theorem hexDigit_beq {x : ℕ} (h : x < 16) :
    ('f' == hexDigit x) = decide (x = 15) ∧ ('e' == hexDigit x) = decide (x = 14) ∧
      ('d' == hexDigit x) = decide (x = 13) ∧ ('c' == hexDigit x) = decide (x = 12) ∧
      ('8' == hexDigit x) = decide (x = 8) ∧ ('0' == hexDigit x) = decide (x = 0) := by
  revert x
  decide

/-- The prefixes looked for, on the digits of a first group. -/
def leadsDigits : List ℕ → Bool
  | x :: y :: ds => decide (x = 15) && (decide (y = 12) || decide (y = 13) || decide (y = 15) ||
      (decide (y = 14) && decide (ds = [8, 0])))
  | _ => false

theorem leads_digits {ds : List ℕ} (rest : List Char) (hlen : ds.length ≤ 4) (hds : ∀ d ∈ ds, d < 16) :
    leads (ds.map hexDigit ++ ':' :: rest) = leadsDigits ds := by
  have hbeq : ∀ d ∈ ds, _ := fun d hd => hexDigit_beq (hds d hd)
  match ds, hlen with
  | [], _ => rfl
  | [x], _ => simp [leads, leadsDigits, List.isPrefixOf]
  | [x, y], _ =>
    obtain ⟨hf, -⟩ := hbeq x (by simp)
    obtain ⟨hyf, hye, hyd, hyc, -⟩ := hbeq y (by simp)
    rw [Bool.eq_iff_iff]
    simp [leads, leadsDigits, List.isPrefixOf, hf, hyf, hye, hyd, hyc]
    tauto
  | [x, y, z], _ =>
    obtain ⟨hf, -⟩ := hbeq x (by simp)
    obtain ⟨hyf, hye, hyd, hyc, -⟩ := hbeq y (by simp)
    rw [Bool.eq_iff_iff]
    simp [leads, leadsDigits, List.isPrefixOf, hf, hyf, hye, hyd, hyc]
    tauto
  | [x, y, z, w], _ =>
    obtain ⟨hf, -⟩ := hbeq x (by simp)
    obtain ⟨hyf, hye, hyd, hyc, -⟩ := hbeq y (by simp)
    obtain ⟨-, -, -, -, hz, -⟩ := hbeq z (by simp)
    obtain ⟨-, -, -, -, -, hw⟩ := hbeq w (by simp)
    rw [Bool.eq_iff_iff]
    simp [leads, leadsDigits, List.isPrefixOf, hf, hyf, hye, hyd, hyc, hz, hw]
    tauto

/-- The prefixes are those of known groups when all four digits are written. -/
theorem leadsDigits_four {x y z w : ℕ} (h : ∀ d ∈ [x, y, z, w], d < 16) :
    leadsDigits [x, y, z, w] = true ↔
      (hexadecimal [x, y, z, w] = 0xfe80 ∨ hexadecimal [x, y, z, w] / 512 = 0xfc00 / 512 ∨
        hexadecimal [x, y, z, w] / 256 = 0xff00 / 256) := by
  have hx := h x (by simp)
  have hy := h y (by simp)
  have hz := h z (by simp)
  have hw := h w (by simp)
  have hval : hexadecimal [x, y, z, w] = 4096 * x + 256 * y + 16 * z + w := by
    simp only [hexadecimal, List.foldl_cons, List.foldl_nil]
    omega
  rw [hval]
  simp only [leadsDigits, Bool.and_eq_true, Bool.or_eq_true, decide_eq_true_eq, List.cons.injEq, and_true]
  omega

/-- A shorter group is a small number, and not zero where a prefix is read. -/
theorem hexadecimal_short {ds : List ℕ} (hds : ∀ d ∈ ds, d < 16) (hlen : ds.length < 4) :
    hexadecimal ds < 4096 ∧ (leadsDigits ds = true → 0 < hexadecimal ds) := by
  match ds, hlen with
  | [], _ => exact ⟨by decide, fun h => nomatch h⟩
  | [x], _ =>
    have hx := hds x (by simp)
    refine ⟨?_, fun h => nomatch h⟩
    simp only [hexadecimal, List.foldl_cons, List.foldl_nil]
    omega
  | [x, y], _ =>
    have hx := hds x (by simp)
    have hy := hds y (by simp)
    simp only [leadsDigits, Bool.and_eq_true, decide_eq_true_eq, hexadecimal, List.foldl_cons, List.foldl_nil]
    exact ⟨by omega, fun h => by omega⟩
  | [x, y, z], _ =>
    have hx := hds x (by simp)
    have hy := hds y (by simp)
    have hz := hds z (by simp)
    simp only [leadsDigits, Bool.and_eq_true, decide_eq_true_eq, hexadecimal, List.foldl_cons, List.foldl_nil]
    exact ⟨by omega, fun h => by omega⟩

theorem takeWhile_first {rest : List Char} (h : ':' ∉ p) : (p ++ ':' :: rest).takeWhile (· ≠ ':') = p := by
  have hall : ∀ c ∈ p, decide (c ≠ ':') = true := fun c hc => decide_eq_true fun heq => h (by rwa [heq] at hc)
  rw [List.takeWhile_append_of_pos hall, List.takeWhile_cons_of_neg (by simp), List.append_nil]

/-- What the first group of an address text says of its first number. -/
theorem first_cases (h : parseV6 s = some a) :
    ∃ v, a.head? = some v ∧
      ((leads (s.map lowerChar) = false ∧ v < 4096) ∨
        (leads (s.map lowerChar) = true ∧ ShortGroup s ∧ 0 < v ∧ v < 4096) ∨
          (¬ShortGroup s ∧ (leads (s.map lowerChar) = true ↔ v = 0xfe80 ∨ v / 512 = 0xfc00 / 512 ∨ v / 256 = 0xff00 / 256))) := by
  rcases parseV6_first h with ⟨hhead, rest, rfl⟩ | ⟨p, rest, v, rfl, hcolon, hv, hhead⟩
  · exact ⟨0, hhead, .inl ⟨rfl, by decide⟩⟩
  · refine ⟨v, hhead, ?_⟩
    unfold hextet at hv
    split_ifs at hv with hlen
    obtain ⟨ds, hds, rfl⟩ := Option.map_eq_some_iff.mp hv
    obtain ⟨hlower, hlt⟩ := lower_of_mapM hds
    have hsame : ds.length = p.length := by
      have := congrArg List.length hlower
      rwa [List.length_map, List.length_map, eq_comm] at this
    have hleads : leads ((p ++ ':' :: rest).map lowerChar) = leadsDigits ds := by
      rw [List.map_append, List.map_cons, hlower]
      exact leads_digits (rest.map lowerChar) (by omega) hlt
    by_cases hshort : p.length < 4
    · obtain ⟨hsmall, hpos⟩ := hexadecimal_short hlt (by omega)
      cases hread : leadsDigits ds with
      | false => exact .inl ⟨hleads.trans hread, hsmall⟩
      | true =>
        have htrue := hleads.trans hread
        exact .inr (.inl ⟨htrue, ⟨by rwa [takeWhile_first hcolon], htrue⟩, hpos hread, hsmall⟩)
    · refine .inr (.inr ⟨fun hodd => hshort (by have := hodd.1; rwa [takeWhile_first hcolon] at this), ?_⟩)
      rw [hleads]
      have hfour : ds.length = 4 := by omega
      match ds, hfour with
      | [x, y, z, w], _ => exact leadsDigits_four hlt

theorem known_iff {h : ℕ} (hhead : a.head? = some h) :
    Known a ↔ h = 0xfe80 ∨ h / 512 = 0xfc00 / 512 ∨ h / 256 = 0xff00 / 256 := by
  constructor
  · rintro ⟨h', hhead', hknown⟩
    obtain rfl := Option.some.inj (hhead.symm.trans hhead')
    exact hknown
  · exact fun hknown => ⟨h, hhead, hknown⟩

/-- **The prefixes** stand for the known groups and for short ones. -/
theorem leads_iff (h : parseV6 s = some a) : leads (s.map lowerChar) = true ↔ Known a ∨ ShortGroup s := by
  obtain ⟨v, hhead, hcases⟩ := first_cases h
  rw [known_iff hhead]
  rcases hcases with ⟨hleads, hlt⟩ | ⟨hleads, hshort, -, hlt⟩ | ⟨hshort, hiff⟩
  · rw [hleads]
    refine iff_of_false (fun hno => nomatch hno) fun hor => ?_
    rcases hor with hknown | hshort
    · omega
    · rw [hshort.2] at hleads
      cases hleads
  · exact iff_of_true hleads (.inr hshort)
  · rw [hiff]
    exact ⟨.inl, fun hor => hor.resolve_right hshort⟩

theorem reserved_of_known (h : Known a) : Reserved a := by
  obtain ⟨v, hhead, hv⟩ := h
  refine .inr (.inr (.inl ⟨v, hhead, ?_⟩))
  rcases hv with rfl | hv | hv
  · exact .inl rfl
  · exact .inr (.inl hv)
  · exact .inr (.inr hv)

/-- A short group with a prefix starts no reserved address. -/
theorem not_reserved_of_short (h : parseV6 s = some a) (hshort : ShortGroup s) : ¬Reserved a := by
  obtain ⟨v, hhead, hcases⟩ := first_cases h
  have hv : 0 < v ∧ v < 4096 := by
    rcases hcases with ⟨hleads, -⟩ | ⟨-, -, hv⟩ | ⟨hno, -⟩
    · rw [hshort.2] at hleads
      cases hleads
    · exact hv
    · exact absurd hshort hno
  rintro (rfl | rfl | ⟨v', hhead', hv'⟩ | ⟨x, y, rfl, -⟩)
  · cases hhead
    omega
  · cases hhead
    omega
  · obtain rfl := Option.some.inj (hhead.symm.trans hhead')
    omega
  · cases hhead
    omega

/-! ## The embedded address -/

theorem no_colon_of_dotted (h : dotted d = true) : ':' ∉ d := by
  intro hmem
  unfold dotted at h
  rw [Bool.and_eq_true, List.all_eq_true] at h
  rcases mem_splitOn (x := '.') hmem with heq | ⟨q, hq, hc⟩
  · exact absurd heq (by decide)
  · have hdigits := (Bool.and_eq_true _ _ ▸ h.2 q hq).2
    exact absurd (List.all_eq_true.mp hdigits ':' hc) (by decide)

/-- What follows the last colon. -/
theorem after_last {front front' d' : List Char} (h : front ++ ':' :: d = front' ++ ':' :: d') (hd : ':' ∉ d)
    (hd' : ':' ∉ d') : d = d' := by
  have hback : ∀ front d : List Char, ':' ∉ d → (front ++ ':' :: d).reverse.takeWhile (· ≠ ':') = d.reverse := by
    intro front d hd
    rw [List.reverse_append, List.reverse_cons, List.append_assoc]
    exact takeWhile_first fun hmem => hd (List.mem_reverse.mp hmem)
  have heq := congrArg (fun l : List Char => l.reverse.takeWhile (· ≠ ':')) h
  simp only [hback _ _ hd, hback _ _ hd'] at heq
  exact List.reverse_injective heq

/-- What the pattern captures: dotted numbers at the end, after `::ffff:`. -/
theorem mapped_iff : mapped cs = some d ↔ "::ffff:".toList ++ d <:+ cs ∧ dotted d = true := by
  induction cs with
  | nil =>
    refine iff_of_false (fun h => nomatch h) fun h => ?_
    have hlen := h.1.length_le
    simp at hlen
  | cons c cs ih =>
    unfold mapped
    split
    · next hhere =>
      obtain ⟨⟨d', hd'⟩, hdotted⟩ := hhere
      rw [← hd'] at hdotted ⊢
      have hdrop : ("::ffff:".toList ++ d').drop 7 = d' := rfl
      rw [hdrop] at hdotted ⊢
      constructor
      · intro h
        obtain rfl := Option.some.inj h
        exact ⟨List.suffix_rfl, hdotted⟩
      · rintro ⟨⟨front, hfront⟩, hd⟩
        have hsplit : (front ++ "::ffff".toList) ++ ':' :: d = "::ffff".toList ++ ':' :: d' := by
          rw [List.append_assoc]
          exact hfront
        rw [after_last hsplit (no_colon_of_dotted hd) (no_colon_of_dotted hdotted)]
    · next hhere =>
      rw [ih, List.suffix_cons_iff]
      refine ⟨fun h => ⟨.inr h.1, h.2⟩, fun h => ⟨h.1.resolve_left fun heq => hhere ?_, h.2⟩⟩
      rw [← heq]
      exact ⟨List.prefix_append _ _, h.2⟩

theorem map_of_mapM_octet {qs : List (List Char)} {octets : List ℕ} (h : qs.mapM octet = some octets) :
    qs.map decimal = octets := by
  induction qs generalizing octets with
  | nil =>
    cases h
    rfl
  | cons q qs ih =>
    rw [List.mapM_cons] at h
    obtain ⟨n, hn, h⟩ := Option.bind_eq_some_iff.mp h
    obtain ⟨ns, hns, heq⟩ := Option.bind_eq_some_iff.mp h
    cases heq
    unfold octet at hn
    split_ifs at hn
    cases hn
    rw [List.map_cons, ih hns]

/-- The verdict on a text that is no address of the sixth version. -/
theorem blockedBy_of_none (h : parseV6 s = none) :
    blockedBy f s = true ↔ ∀ octets, parseV4 s = some octets → blockedParts octets = true := by
  unfold blockedBy isIP
  rw [h]
  cases hfour : parseV4 s with
  | none => exact iff_of_true rfl fun octets hoctets => nomatch hoctets
  | some octets =>
    have hparts : (s.splitOn '.').map decimal = octets := by
      unfold parseV4 at hfour
      split_ifs at hfour
      exact map_of_mapM_octet hfour
    simp only [Option.isSome_some, if_true, hparts, Option.some.injEq, forall_eq']

/-- The verdict on an address of the sixth version. -/
theorem blockedBy_of_some (h : parseV6 s = some a) :
    blockedBy f s = true ↔
      Literal s ∨ leads (s.map lowerChar) = true ∨ ∃ d ∈ mapped (s.map lowerChar), f d = true := by
  unfold blockedBy
  rw [isIP_of_parseV6 h]
  show (if Literal s then true else _) = true ↔ _
  by_cases hliteral : Literal s
  · rw [if_pos hliteral]
    exact iff_of_true rfl (.inl hliteral)
  · rw [if_neg hliteral]
    cases hleads : leads (s.map lowerChar) with
    | true => simp
    | false =>
      cases hmapped : mapped (s.map lowerChar) with
      | none => simp [hliteral]
      | some d => simp [hliteral]

/-- An embedded address makes no further call, so that the nesting is the recursion of the source. -/
theorem isBlockedAddress_eq (ip : List Char) : isBlockedAddress ip = blockedBy isBlockedAddress ip := by
  unfold isBlockedAddress
  rw [Bool.eq_iff_iff]
  cases hip : parseV6 ip with
  | none => rw [blockedBy_of_none hip, blockedBy_of_none hip]
  | some a =>
    rw [blockedBy_of_some hip, blockedBy_of_some hip]
    refine or_congr_right (or_congr_right (exists_congr fun d => and_congr_right fun hd => ?_))
    have hnone := parseV6_of_no_colon (no_colon_of_dotted (mapped_iff.mp hd).2)
    rw [blockedBy_of_none hnone, blockedBy_of_none hnone]

/-! ## The verdict -/

theorem endsMapped_iff : EndsMapped s ↔ ∃ d ∈ mapped (s.map lowerChar), isBlockedAddress d = true := by
  unfold EndsMapped
  refine exists_congr fun d => ?_
  rw [Option.mem_def, mapped_iff, and_assoc]
  refine and_congr_right fun _ => and_congr_right fun hd => ?_
  rw [isBlockedAddress, blockedBy_of_none (parseV6_of_no_colon (no_colon_of_dotted hd))]

/-- **The verdict on an address** is that of its known first group or of how it is written. -/
theorem isBlockedAddress_iff (h : parseV6 s = some a) : isBlockedAddress s = true ↔ Caught s a ∨ Odd s := by
  rw [isBlockedAddress_eq, blockedBy_of_some h, leads_iff h, ← endsMapped_iff]
  unfold Caught Odd
  tauto

theorem eq_of_lowerChar {c x : Char} (h : lowerChar c = x) (hx : x.toNat < 97) : c = x := by
  unfold lowerChar at h
  split at h
  · next hupper =>
    have hlo : 65 ≤ c.toNat := hupper.1
    have hhi : c.toNat ≤ 90 := hupper.2
    have hval : (Char.ofNat (c.toNat + 32)).toNat = c.toNat + 32 := by
      generalize c.toNat = n at hlo hhi
      interval_cases n <;> rfl
    rw [← h, hval] at hx
    omega
  · exact h

theorem reserved_of_literal (h : parseV6 s = some a) (hliteral : Literal s) : Reserved a := by
  have hself : ∀ t : List Char, (∀ x ∈ t, x.toNat < 97) → s.map lowerChar = t → s = t := by
    intro t ht hs
    rw [← hs] at ht ⊢
    refine (List.map_congr_left fun c hc => ?_).trans (List.map_id s) |>.symm
    exact (eq_of_lowerChar rfl (ht _ (List.mem_map_of_mem hc))).symm
  rcases hliteral with hone | hzero
  · have hparse : parseV6 [':', ':', '1'] = some [0, 0, 0, 0, 0, 0, 0, 1] := by decide
    rw [hself [':', ':', '1'] (by simp) hone, hparse] at h
    exact .inr (.inl (Option.some.inj h).symm)
  · have hparse : parseV6 [':', ':'] = some [0, 0, 0, 0, 0, 0, 0, 0] := by decide
    rw [hself [':', ':'] (by simp) hzero, hparse] at h
    exact .inl (Option.some.inj h).symm

theorem isBlockedAddress_of_reserved (h : parseV6 s = some a) (hreserved : Reserved a) :
    isBlockedAddress s = true ↔ Caught s a := by
  rw [isBlockedAddress_iff h]
  refine ⟨fun hor => hor.elim id fun hodd => ?_, .inl⟩
  rcases hodd with hshort | hends
  · exact absurd hreserved (not_reserved_of_short h hshort)
  · exact .inr (.inr hends)

theorem isBlockedAddress_of_not_reserved (h : parseV6 s = some a) (hreserved : ¬Reserved a) :
    isBlockedAddress s = true ↔ Odd s := by
  rw [isBlockedAddress_iff h]
  refine ⟨fun hor => hor.elim (fun hcaught => ?_) id, .inr⟩
  rcases hcaught with hknown | hliteral | hends
  · exact absurd (reserved_of_known hknown) hreserved
  · exact absurd (reserved_of_literal h hliteral) hreserved
  · exact .inr hends

/-- A text the guard refuses: an address by the above, or a text that is no public address of the fourth version. -/
def Refused (s : List Char) : Prop :=
  (∃ a, parseV6 s = some a ∧ (Caught s a ∨ Odd s)) ∨
    (parseV6 s = none ∧ ∀ octets, parseV4 s = some octets → blockedParts octets = true)

/-- A reserved address the check does not see. -/
def Slips (s : List Char) : Prop := ∃ a, parseV6 s = some a ∧ Reserved a ∧ ¬Caught s a

theorem refused_iff : isBlockedAddress s = true ↔ Refused s := by
  unfold Refused
  cases h : parseV6 s with
  | none =>
    rw [isBlockedAddress, blockedBy_of_none h]
    exact ⟨fun hall => .inr ⟨rfl, hall⟩, fun hor => hor.elim (fun ⟨_, hno, _⟩ => nomatch hno) (·.2)⟩
  | some a =>
    rw [isBlockedAddress_iff h]
    exact ⟨fun hor => .inl ⟨a, rfl, hor⟩,
      fun hor => hor.elim (fun ⟨a', ha', hor'⟩ => Option.some.inj ha' ▸ hor') fun ⟨hno, _⟩ => nomatch hno⟩

/-! ## The guard -/

variable {newURL : String → Option RepoUrl} {resolve : String → Except String (List String)} {repoUrl : String}

/-- The addresses of a URL: the one its host is, or those its host resolves to. -/
def addresses (newURL : String → Option RepoUrl) (resolve : String → Except String (List String)) (repoUrl : String) :
    List String :=
  match newURL repoUrl with
  | none => []
  | some url =>
    if isIP url.hostname.toList ≠ 0 then [url.hostname]
    else
      match resolve url.hostname with
      | .error _ => []
      | .ok answers => answers

/-- **What the guard admits**: a well-formed URL with an address, none of them blocked. -/
theorem admits_iff :
    (∃ pin, assertPublicHttpsRepoUrl newURL resolve repoUrl = .ok pin) ↔
      (∃ url, parseHttpsRepoUrl newURL repoUrl = .ok url) ∧ addresses newURL resolve repoUrl ≠ [] ∧
        ∀ x ∈ addresses newURL resolve repoUrl, isBlockedAddress x.toList ≠ true := by
  unfold assertPublicHttpsRepoUrl
  cases hparse : parseHttpsRepoUrl newURL repoUrl with
  | error e => exact iff_of_false (fun ⟨_, hno⟩ => nomatch hno) fun ⟨⟨_, hno⟩, _⟩ => nomatch hno
  | ok url =>
    have hurl : newURL repoUrl = some url := by
      unfold parseHttpsRepoUrl at hparse
      cases hnew : newURL repoUrl with
      | none =>
        rw [hnew] at hparse
        cases hparse
      | some url' =>
        rw [hnew] at hparse
        dsimp only at hparse
        split_ifs at hparse
        cases hparse
        rfl
    have hok : ∃ url', (Except.ok url : Except RepoUrlError RepoUrl) = .ok url' := ⟨url, rfl⟩
    rw [and_iff_right hok, addresses, hurl]
    show (∃ pin, (if isIP url.hostname.toList ≠ 0 then _ else _) = _) ↔ _
    by_cases hip : isIP url.hostname.toList ≠ 0
    · simp only [if_pos hip]
      cases hblocked : isBlockedAddress url.hostname.toList with
      | true => simp [hblocked]
      | false => simp [hblocked]
    · simp only [if_neg hip]
      cases hanswers : resolve url.hostname with
      | error message => simp
      | ok answers =>
        cases answers with
        | nil => simp
        | cons first rest =>
          cases hfind : (first :: rest).find? fun addr => isBlockedAddress addr.toList with
          | some addr =>
            have hblocked := List.find?_some hfind
            have hmem := List.mem_of_find?_eq_some hfind
            simp only [hfind]
            exact iff_of_false (fun ⟨_, hno⟩ => nomatch hno) fun h => h.2 addr hmem hblocked
          | none =>
            simp only [hfind]
            exact iff_of_true ⟨_, rfl⟩ ⟨List.cons_ne_nil _ _, List.find?_eq_none.mp hfind⟩

/-- Two spellings of an address get one verdict, and a reserved address is blocked. -/
structure Independent (s s' : List Char) (address : List ℕ) : Prop where
  alike : isBlockedAddress s = isBlockedAddress s'
  blocked : Reserved address → isBlockedAddress s = true

/-- No admitted host has a reserved address. -/
def Guarded (newURL : String → Option RepoUrl) (resolve : String → Except String (List String)) (repoUrl : String) :
    Prop :=
  ∀ pin, assertPublicHttpsRepoUrl newURL resolve repoUrl = .ok pin →
    ∀ x ∈ addresses newURL resolve repoUrl, ∀ address, parseV6 x.toList = some address → ¬Reserved address

theorem guarded_iff :
    Guarded newURL resolve repoUrl ↔
      ∀ x ∈ addresses newURL resolve repoUrl, Slips x.toList →
        (∀ url, parseHttpsRepoUrl newURL repoUrl ≠ .ok url) ∨
          ∃ y ∈ addresses newURL resolve repoUrl, Refused y.toList := by
  constructor
  · rintro hguarded x hx ⟨address, hparse, hreserved, -⟩
    by_contra hno
    obtain ⟨hurl, hall⟩ := not_or.mp hno
    obtain ⟨url, hurl⟩ := not_forall.mp hurl
    obtain ⟨pin, hpin⟩ : ∃ pin, assertPublicHttpsRepoUrl newURL resolve repoUrl = .ok pin :=
      admits_iff.mpr ⟨⟨url, not_not.mp hurl⟩, List.ne_nil_of_mem hx, fun y hy hblocked =>
        hall ⟨y, hy, refused_iff.mp hblocked⟩⟩
    exact hguarded pin hpin x hx address hparse hreserved
  · intro hall pin hpin x hx address hparse hreserved
    obtain ⟨⟨url, hurl⟩, -, hpublic⟩ := admits_iff.mp ⟨pin, hpin⟩
    have hslips : Slips x.toList :=
      ⟨address, hparse, hreserved, fun hcaught => hpublic x hx ((isBlockedAddress_of_reserved hparse hreserved).mpr hcaught)⟩
    rcases hall x hx hslips with hbad | ⟨y, hy, hrefused⟩
    · exact hbad url hurl
    · exact hpublic y hy (refused_iff.mpr hrefused)

/-- **The verdict is that of the address** exactly for reserved ones the check sees in both spellings and for others
that are both or neither written oddly; and the guard keeps to it exactly where no address slips by, or another is refused. -/
theorem spelling_iff (newURL : String → Option RepoUrl) (resolve : String → Except String (List String)) :
    (∀ (s s' : List Char) (address : List ℕ), parseV6 s = some address → parseV6 s' = some address →
      (Independent s s' address ↔
        (Reserved address → Caught s address ∧ Caught s' address) ∧ (¬Reserved address → (Odd s ↔ Odd s')))) ∧
    ∀ repoUrl, Guarded newURL resolve repoUrl ↔
      ∀ x ∈ addresses newURL resolve repoUrl, Slips x.toList →
        (∀ url, parseHttpsRepoUrl newURL repoUrl ≠ .ok url) ∨
          ∃ y ∈ addresses newURL resolve repoUrl, Refused y.toList := by
  refine ⟨fun s s' address h h' => ?_, fun repoUrl => guarded_iff⟩
  by_cases hreserved : Reserved address
  · have hs := isBlockedAddress_of_reserved h hreserved
    have hs' := isBlockedAddress_of_reserved h' hreserved
    constructor
    · rintro ⟨halike, hblocked⟩
      exact ⟨fun _ => ⟨hs.mp (hblocked hreserved), hs'.mp (halike ▸ hblocked hreserved)⟩, fun hno => absurd hreserved hno⟩
    · rintro ⟨hcaught, -⟩
      obtain ⟨hleft, hright⟩ := hcaught hreserved
      exact ⟨(hs.mpr hleft).trans (hs'.mpr hright).symm, fun _ => hs.mpr hleft⟩
  · have hs := isBlockedAddress_of_not_reserved h hreserved
    have hs' := isBlockedAddress_of_not_reserved h' hreserved
    constructor
    · rintro ⟨halike, -⟩
      exact ⟨fun hyes => absurd hyes hreserved, fun _ => by rw [← hs, ← hs', halike]⟩
    · rintro ⟨-, hodd⟩
      exact ⟨Bool.eq_iff_iff.mpr (hs.trans ((hodd hreserved).trans hs'.symm)), fun hyes => absurd hyes hreserved⟩

/-! Two spellings of a link-local address, and two of the address of the metadata service. -/

theorem spelling_fe80 : Independent "fe80::1".toList "FE80:0:0:0:0:0:0:1".toList [0xfe80, 0, 0, 0, 0, 0, 0, 1] := by
  refine ((spelling_iff (fun _ => none) fun _ => .ok []).1 "fe80::1".toList "FE80:0:0:0:0:0:0:1".toList
    [0xfe80, 0, 0, 0, 0, 0, 0, 1] (by decide) (by decide)).mpr ?_
  have hknown : Known [0xfe80, 0, 0, 0, 0, 0, 0, 1] := ⟨0xfe80, rfl, .inl rfl⟩
  exact ⟨fun _ => ⟨.inl hknown, .inl hknown⟩, fun hno => absurd (reserved_of_known hknown) hno⟩

/-- The address of the metadata service in hexadecimal is let through. -/
theorem hex_mapped_slips :
    ¬ ∀ (s s' : List Char) (address : List ℕ), parseV6 s = some address → parseV6 s' = some address →
      Independent s s' address := by
  intro hall
  have halike := (hall "::ffff:169.254.169.254".toList "::ffff:a9fe:a9fe".toList [0, 0, 0, 0, 0, 0xffff, 0xa9fe, 0xa9fe]
    (by decide) (by decide)).alike
  exact absurd halike (by decide)

end Vellar.Worker.RepoUrlGuard
