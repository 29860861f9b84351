import Vellar.Lib.JsNumber
import Vellar.Lib.Wildcard
import Vellar.Gateway.TokenBucket

/-!
# Vellar.Gateway.Boundary — the checks at the boundary of the gateway

The CORS layer and the `onRequest` hook of `services/api-gateway/src/server.ts`.  A configured origin becomes a regular
expression with its dots unescaped, and a content type is JSON when the text is anywhere in it: `boundary_kept_iff` says
which requests these let through against the intent.  Trace headers, which the hook rewrites first, are not read by it.
-/

set_option autoImplicit false

namespace Vellar.Gateway.Boundary

open Worker (trim split truthy)
open Wildcard (Atom Pattern Matches)
open TokenBucket (TokenBucketOptions Buckets tryConsume)

/-- A header as the HTTP parser admits it: one line of Latin-1. -/
structure HeaderValue where
  text : String
  latin : ∀ c ∈ text.toList, c.toNat < 256 ∧ c ≠ '\n' ∧ c ≠ '\r'

structure Config where
  corsOriginRaw : Option String
  maxBodyBytes : ℕ
  tenantBucket : TokenBucketOptions

structure Request where
  method : String
  url : String
  headers : String → Option HeaderValue
  /-- `Date.now()` when it arrives. -/
  now : ℤ

def Request.header (request : Request) (name : String) : Option String := (request.headers name).map HeaderValue.text

/-! ## Regular expressions -/

def isLineEnd (c : Char) : Bool := c = '\n' || c = '\r' || c.toNat = 0x2028 || c.toNat = 0x2029

/-- The characters that do not stand for themselves, but for the dot. -/
def syntaxCharacters : List Char := ['^', '$', '\\', '*', '+', '?', '(', ')', '[', ']', '{', '}', '|']

/-- What a character of a pattern takes. -/
def accepts (c : Char) : Char → Bool := if c = '.' then fun d => !isLineEnd d else fun d => d = c

/-- A pattern of single characters and stars, up to the `$` at its end. -/
def atoms : List Char → Option (Pattern Char)
  | [] => none
  | ['$'] => some []
  | c :: '*' :: cs => if c ∈ syntaxCharacters then none else (atoms cs).map (.many (accepts c) :: ·)
  | c :: cs => if c ∈ syntaxCharacters then none else (atoms cs).map (.one (accepts c) :: ·)

def anchored : List Char → Option (Pattern Char)
  | '^' :: cs => atoms cs
  | _ => none

/-- The regular expressions of JavaScript, of which the simple ones are spelled out. -/
structure RegExp where
  /-- `new RegExp(pattern).test(text)`; none when the pattern is refused. -/
  test : String → String → Option Bool
  test_anchored : ∀ pattern p text, anchored pattern.toList = some p →
    test pattern text = some (Wildcard.test p text.toList)

/-! ## The CORS layer -/

def DEFAULT_ALLOWED_ORIGINS : List String :=
  ["http://localhost:3000", "https://app.vellar.wallet", "https://vellar.wallet",
    "chrome-extension://vellar-wallet-extension"]

def corsOrigins (config : Config) : List String :=
  match truthy config.corsOriginRaw with
  | some raw => ((split raw ',').map trim).filter fun o => o ≠ ""
  | none => DEFAULT_ALLOWED_ORIGINS

/-- `"^" + allowed.replace(/\*/g, ".*") + "$"`. -/
def patternOf (allowed : String) : String :=
  String.ofList ('^' :: (allowed.toList.flatMap fun c => if c = '*' then ['.', '*'] else [c]) ++ ['$'])

/-- Whether some entry allows the origin; none when a pattern is refused. -/
def someAllows (R : RegExp) (origin : String) : List String → Option Bool
  | [] => some false
  | allowed :: rest =>
    if allowed = origin then some true
    else if '*' ∈ allowed.toList then
      (R.test (patternOf allowed) origin).bind fun matched => if matched then some true else someAllows R origin rest
    else someAllows R origin rest

/-- The answer to an `Origin`. -/
def corsAnswer (R : RegExp) (config : Config) (request : Request) : Option Bool :=
  match truthy (request.header "origin") with
  | none => some true
  | some origin => someAllows R origin (corsOrigins config)

/-! ## The hook -/

structure SendError where
  statusCode : ℕ
  code : String
  message : String
  /-- In seconds: the header `Retry-After` and the detail `retryAfter`. -/
  retryAfter : Option ℤ
deriving DecidableEq

def isMutation (request : Request) : Bool :=
  let method := request.method.map Char.toUpper
  method = "POST" || method = "PUT" || method = "PATCH"

def tenantId (request : Request) : Option String :=
  truthy (truthy (request.header "x-tenant-id") <|> request.header "x-session-id")

/-- The bucket of the tenant. -/
def tenantCheck (config : Config) (buckets : Buckets) (request : Request) : Option SendError × Buckets :=
  match tenantId request with
  | none => (none, buckets)
  | some key =>
    if request.url = "/health" then (none, buckets)
    else
      let (result, buckets) := tryConsume config.tenantBucket ⟨request.now, key, 1⟩ buckets
      if result.allowed then (none, buckets)
      else (some ⟨429, "too_many_requests", "Tenant rate limit exceeded. Please retry later.",
        some (result.retryAfterSeconds.getD 1)⟩, buckets)

def sizeCheck (config : Config) (request : Request) : Option SendError :=
  match JsNumber.ofString ((request.header "content-length").getD "0") with
  | .finite declaredLen =>
    if config.maxBodyBytes < declaredLen then
      some ⟨413, "payload_too_large", s!"Body exceeds {config.maxBodyBytes} bytes.", none⟩
    else none
  | _ => none

/-- `toLowerCase` of a Latin-1 character. -/
def lowerLatin (c : Char) : Char :=
  if 'A' ≤ c ∧ c ≤ 'Z' ∨ 0xc0 ≤ c.toNat ∧ c.toNat ≤ 0xde ∧ c.toNat ≠ 0xd7 then Char.ofNat (c.toNat + 32) else c

def jsonType : List Char := "application/json".toList

def contentType (request : Request) : List Char := ((request.header "content-type").getD "").toList.map lowerLatin

def typeCheck (request : Request) : Option SendError :=
  if isMutation request && !decide (jsonType <:+: contentType request) then
    some ⟨415, "unsupported_media_type", "Content-Type must be application/json.", none⟩
  else none

/-- The first check that fails answers. -/
def onRequest (config : Config) (buckets : Buckets) (request : Request) : Option SendError × Buckets :=
  let (limited, buckets) := tenantCheck config buckets request
  (limited <|> sizeCheck config request <|> typeCheck request, buckets)

/-! ## The intent -/

/-- A star is a gap, every other character stands for itself. -/
def globAtom (c : Char) : Atom Char := if c = '*' then .many fun _ => true else .one fun d => d = c

def Glob (entry origin : String) : Prop := Matches (entry.toList.map globAtom) origin.toList

/-- Some entry is the origin or takes it. -/
def Covered (entries : List String) (origin : String) : Prop := ∃ entry ∈ entries, entry = origin ∨ Glob entry origin

def isOws (c : Char) : Bool := c = ' ' || c = '\t'

/-- The content type before its parameters. -/
def essence (request : Request) : List Char := (contentType request).takeWhile (· ≠ ';')

def parameters (request : Request) : List Char := (contentType request).dropWhile (· ≠ ';')

def mediaType (request : Request) : List Char := ((essence request).dropWhile isOws).rdropWhile isOws

structure BoundaryKept (R : RegExp) (config : Config) (buckets : Buckets) (request : Request) : Prop where
  origin : ∀ origin, request.header "origin" = some origin →
    (corsAnswer R config request = some true ↔ Covered (corsOrigins config) origin)
  json : isMutation request = true → (onRequest config buckets request).1 = none → mediaType request = jsonType

/-! ## When it is met -/

/-- A dot stands for any character. -/
def dotAtom (c : Char) : Atom Char := if c = '.' then .one fun _ => true else globAtom c

/-- The entry takes the origin, but only as one of its dots stands for another character. -/
def ByDot (entry origin : String) : Prop :=
  '*' ∈ entry.toList ∧ Matches (entry.toList.map dotAtom) origin.toList ∧ ¬ Glob entry origin

/-- The entry is the origin, or takes it when its dots stand for any character. -/
def Allows (entry origin : String) : Prop := entry = origin ∨ '*' ∈ entry.toList ∧ Matches (entry.toList.map dotAtom) origin.toList

/-- The origin is tested against the entry: no entry before it allows the origin. -/
def ComesTo (entries : List String) (origin entry : String) : Prop :=
  '*' ∈ entry.toList ∧ entry ≠ origin ∧ ∃ before after, entries = before ++ entry :: after ∧ ∀ e ∈ before, ¬ Allows e origin

/-- No character but stars and dots has a meaning of its own. -/
def Plain (entry : String) : Prop := ∀ c ∈ entry.toList, c ∈ syntaxCharacters → c = '*'

structure NothingMisread (config : Config) (buckets : Buckets) (request : Request) : Prop where
  /-- An empty origin only where an entry has nothing but stars. -/
  empty : request.header "origin" = some "" → ∃ entry ∈ corsOrigins config, ∀ c ∈ entry.toList, c = '*'
  /-- Where a dot lets an origin in, another entry does. -/
  dots : ∀ origin, request.header "origin" = some origin →
    ∀ entry ∈ corsOrigins config, ByDot entry origin → Covered (corsOrigins config) origin
  /-- Of a mutation that gets as far as the content type, JSON is neither a part of another media type nor in the
  parameters of one. -/
  type : isMutation request = true → (tenantCheck config buckets request).1 = none → sizeCheck config request = none →
    jsonType <:+: essence request ∨ jsonType <:+: parameters request → mediaType request = jsonType

/-! ## Patterns of origins -/

section Patterns

variable {entry origin : String} {entries : List String} {c : Char} {cs s : List Char}

/-- What the source reads a character of an entry as. -/
def regexAtom (c : Char) : Atom Char := if c = '*' then .many (accepts '.') else .one (accepts c)

/-- What a star is replaced by does not begin with a star. -/
theorem replaced_head (cs : List Char) :
    ∃ d ds, (cs.flatMap fun c => if c = '*' then ['.', '*'] else [c]) ++ ['$'] = d :: ds ∧ d ≠ '*' := by
  cases cs with
  | nil => exact ⟨'$', [], rfl, by decide⟩
  | cons c cs =>
    by_cases hstar : c = '*'
    · exact ⟨'.', '*' :: _, by rw [List.flatMap_cons, if_pos hstar]; rfl, by decide⟩
    · exact ⟨c, _, by rw [List.flatMap_cons, if_neg hstar]; rfl, hstar⟩

theorem atoms_replaced (h : ∀ c ∈ cs, c ∈ syntaxCharacters → c = '*') :
    atoms ((cs.flatMap fun c => if c = '*' then ['.', '*'] else [c]) ++ ['$']) = some (cs.map regexAtom) := by
  induction cs with
  | nil => rfl
  | cons c cs ih =>
    obtain ⟨hc, hcs⟩ := List.forall_mem_cons.mp h
    have hrest := ih hcs
    rw [List.flatMap_cons, List.append_assoc, List.map_cons]
    by_cases hstar : c = '*'
    · have hdot : '.' ∉ syntaxCharacters := by decide
      rw [if_pos hstar, List.cons_append, List.cons_append, List.nil_append, atoms, if_neg hdot, hrest, regexAtom,
        if_pos hstar]
      rfl
    · obtain ⟨d, ds, hds, hd⟩ := replaced_head cs
      rw [hds] at hrest
      rw [if_neg hstar, List.cons_append, List.nil_append, hds, atoms, if_neg fun hsyntax => hstar (hc hsyntax), hrest,
        regexAtom, if_neg hstar]
      · rfl
      · rintro _ hnil
        exact List.cons_ne_nil _ _ hnil
      · intro _ hhead
        exact hd (List.cons.inj hhead).1

/-- **The pattern of a plain entry** reads its stars as gaps and its dots as any character. -/
theorem anchored_patternOf (h : Plain entry) :
    anchored (patternOf entry).toList = some (entry.toList.map regexAtom) := by
  rw [patternOf, String.toList_ofList, List.cons_append, anchored, atoms_replaced h]

/-- In a text without line ends the dot takes every character. -/
theorem takes_regexAtom (hline : ∀ d ∈ s, isLineEnd d = false) (c : Char) :
    (regexAtom c).Takes s ↔ (dotAtom c).Takes s := by
  have haccepts : ∀ d ∈ s, accepts '.' d = true := by
    intro d hd
    rw [accepts, if_pos rfl, hline d hd]
    rfl
  unfold regexAtom dotAtom globAtom
  by_cases hstar : c = '*'
  · have hdot : c ≠ '.' := by
      rintro rfl
      exact absurd hstar (by decide)
    rw [if_pos hstar, if_neg hdot, if_pos hstar]
    exact ⟨fun _ d _ => rfl, fun _ => haccepts⟩
  · rw [if_neg hstar, if_neg hstar]
    by_cases hdot : c = '.'
    · subst hdot
      rw [if_pos rfl]
      constructor
      · rintro ⟨d, hs, _⟩
        exact ⟨d, hs, rfl⟩
      · rintro ⟨d, hs, _⟩
        exact ⟨d, hs, haccepts d (hs ▸ List.mem_cons_self)⟩
    · rw [if_neg hdot, accepts, if_neg hdot]

theorem test_patternOf (R : RegExp) (hplain : Plain entry) (hline : ∀ d ∈ origin.toList, isLineEnd d = false) :
    R.test (patternOf entry) origin = some (Wildcard.test (entry.toList.map regexAtom) origin.toList) ∧
      (Wildcard.test (entry.toList.map regexAtom) origin.toList = true ↔
        Matches (entry.toList.map dotAtom) origin.toList) := by
  refine ⟨R.test_anchored _ _ _ (anchored_patternOf hplain), ?_⟩
  rw [Wildcard.test_iff]
  exact Wildcard.matches_congr (fun c u hu => takes_regexAtom (fun d hd => hline d (hu d hd)) c) _ fun _ h => h

/-- A dot takes what stands for itself. -/
theorem Glob.loose (h : Glob entry origin) : Matches (entry.toList.map dotAtom) origin.toList := by
  refine h.mono (List.forall₂_map_left_iff.mpr (List.forall₂_map_right_iff.mpr (List.forall₂_same.mpr ?_)))
  intro c _ u hu
  by_cases hdot : c = '.'
  · have hstar : c ≠ '*' := by
      rintro rfl
      exact absurd hdot (by decide)
    rw [globAtom, if_neg hstar] at hu
    rw [dotAtom, if_pos hdot]
    obtain ⟨d, hd, _⟩ := hu
    exact ⟨d, hd, rfl⟩
  · rwa [dotAtom, if_neg hdot]

theorem matches_globAtom (h : '*' ∉ cs) : Matches (cs.map globAtom) s ↔ cs = s := by
  induction cs generalizing s with
  | nil => exact eq_comm
  | cons c cs ih =>
    obtain ⟨hc, hcs⟩ := not_or.mp (mt List.mem_cons.mpr h)
    rw [List.map_cons, globAtom, if_neg (Ne.symm hc)]
    cases s with
    | nil => simp
    | cons d s => simp [ih hcs, eq_comm]

theorem matches_globAtom_nil : Matches (cs.map globAtom) [] ↔ ∀ c ∈ cs, c = '*' := by
  induction cs with
  | nil => simp
  | cons c cs ih =>
    rw [List.map_cons, List.forall_mem_cons, globAtom]
    split_ifs with hstar
    · simp [hstar, ih]
    · simp [hstar]

/-- An empty origin is taken by nothing but stars. -/
theorem covered_empty : Covered entries "" ↔ ∃ entry ∈ entries, ∀ c ∈ entry.toList, c = '*' := by
  refine exists_congr fun entry => and_congr_right fun _ => ?_
  unfold Glob
  rw [String.toList_empty, matches_globAtom_nil, or_iff_right_of_imp]
  rintro rfl c hc
  exact absurd hc List.not_mem_nil

theorem ComesTo.cons {e : String} (h : ComesTo entries origin e) (hentry : ¬ Allows entry origin) : ComesTo (entry :: entries) origin e := by
  obtain ⟨hstar, hne, before, after, rfl, hbefore⟩ := h
  exact ⟨hstar, hne, entry :: before, after, rfl, List.forall_mem_cons.mpr ⟨hentry, hbefore⟩⟩

/-- **The entries that allow an origin** are the ones that are it or take it with dots for any character. -/
theorem someAllows_iff (R : RegExp) (hplain : ∀ entry, ComesTo entries origin entry → Plain entry)
    (hline : ∀ d ∈ origin.toList, isLineEnd d = false) :
    someAllows R origin entries = some true ↔ ∃ entry ∈ entries, Allows entry origin := by
  induction entries with
  | nil => simp [someAllows]
  | cons entry entries ih =>
    have hskip : ¬ Allows entry origin → (someAllows R origin entries = some true ↔ ∃ e ∈ entry :: entries, Allows e origin) := by
      intro hnot
      rw [ih fun e he => hplain e (he.cons hnot), List.exists_mem_cons_iff, or_iff_right hnot]
    rw [someAllows]
    by_cases hequal : entry = origin
    · rw [if_pos hequal]
      exact iff_of_true rfl ⟨entry, List.mem_cons_self, .inl hequal⟩
    · rw [if_neg hequal]
      by_cases hstar : '*' ∈ entry.toList
      · obtain ⟨htest, hmatches⟩ := test_patternOf R (hplain entry ⟨hstar, hequal, [], entries, rfl, List.forall_mem_nil _⟩) hline
        rw [if_pos hstar, htest, Option.bind_some]
        split
        · rename_i hmatched
          exact iff_of_true rfl ⟨entry, List.mem_cons_self, .inr ⟨hstar, hmatches.mp hmatched⟩⟩
        · rename_i hunmatched
          exact hskip fun hallows => hallows.elim hequal fun hdot => hunmatched (hmatches.mpr hdot.2)
      · rw [if_neg hstar]
        exact hskip fun hallows => hallows.elim hequal fun hdot => hstar hdot.1

end Patterns

/-! ## The checks in order -/

section Checks

variable {config : Config} {buckets : Buckets} {request : Request}

theorem onRequest_iff : (onRequest config buckets request).1 = none ↔
    (tenantCheck config buckets request).1 = none ∧ sizeCheck config request = none ∧ typeCheck request = none := by
  unfold onRequest
  simp only [Option.orElse_eq_orElse, Option.orElse_eq_or, Option.or_eq_none_iff]

theorem typeCheck_iff : typeCheck request = none ↔ (isMutation request = true → jsonType <:+: contentType request) := by
  unfold typeCheck
  cases isMutation request <;> simp

/-- JSON is before the parameters or in them: it has no semicolon. -/
theorem infix_contentType : jsonType <:+: contentType request ↔
    jsonType <:+: essence request ∨ jsonType <:+: parameters request := by
  have hseparator : ';' ∉ jsonType := by decide
  have hnil : ¬ jsonType <:+: [] := by decide
  have hwhole : contentType request = essence request ++ parameters request := List.takeWhile_append_dropWhile.symm
  cases hparameters : parameters request with
  | nil => rw [hwhole, hparameters, List.append_nil, or_iff_left hnil]
  | cons c rest =>
    have hc : c = ';' := by
      have hhead := List.head?_dropWhile_not (· ≠ ';') (contentType request)
      rw [show (contentType request).dropWhile (· ≠ ';') = c :: rest from hparameters] at hhead
      simpa using hhead
    subst hc
    have hrest : jsonType <:+: ';' :: rest ↔ jsonType <:+: rest := by
      rw [← List.nil_append (';' :: rest), Wildcard.infix_append_cons hseparator, or_iff_right hnil]
    rw [hwhole, hparameters, Wildcard.infix_append_cons hseparator, hrest]

/-- An origin that the parser admits has no line end. -/
theorem isLineEnd_header {origin : String} (h : request.header "origin" = some origin) :
    ∀ d ∈ origin.toList, isLineEnd d = false := by
  obtain ⟨value, _, rfl⟩ := Option.map_eq_some_iff.mp h
  intro d hd
  obtain ⟨hlatin, hfeed, hreturn⟩ := value.latin d hd
  simp only [isLineEnd, Bool.or_eq_false_iff, decide_eq_false_iff_not]
  exact ⟨⟨⟨hfeed, hreturn⟩, by omega⟩, by omega⟩

/-- **The CORS layer keeps to the intent** unless an empty origin or a dot lets one in. -/
theorem corsAnswer_iff (R : RegExp) {origin : String} (horigin : request.header "origin" = some origin)
    (hplain : origin ≠ "" → ∀ entry, ComesTo (corsOrigins config) origin entry → Plain entry) :
    (corsAnswer R config request = some true ↔ Covered (corsOrigins config) origin) ↔
      (origin = "" → ∃ entry ∈ corsOrigins config, ∀ c ∈ entry.toList, c = '*') ∧
        ∀ entry ∈ corsOrigins config, ByDot entry origin → Covered (corsOrigins config) origin := by
  by_cases hempty : origin = ""
  · subst hempty
    have hanswer : corsAnswer R config request = some true := by
      rw [corsAnswer, horigin]
      rfl
    rw [← covered_empty]
    simp only [hanswer, true_iff, forall_const]
    exact ⟨fun h => ⟨h, fun _ _ _ => h⟩, And.left⟩
  · have hanswer : corsAnswer R config request = someAllows R origin (corsOrigins config) := by
      rw [corsAnswer, horigin, truthy, Option.filter_some, if_pos (decide_eq_true hempty)]
    rw [hanswer, someAllows_iff R (hplain hempty) (isLineEnd_header horigin)]
    constructor
    · intro h
      refine ⟨fun hnil => absurd hnil hempty, fun entry hentry hdot => ?_⟩
      exact h.mp ⟨entry, hentry, .inr ⟨hdot.1, hdot.2.1⟩⟩
    · rintro ⟨_, hdots⟩
      constructor
      · rintro ⟨entry, hentry, hequal | ⟨hstar, hmatches⟩⟩
        · exact ⟨entry, hentry, .inl hequal⟩
        · by_cases hglob : Glob entry origin
          · exact ⟨entry, hentry, .inr hglob⟩
          · exact hdots entry hentry ⟨hstar, hmatches, hglob⟩
      · rintro ⟨entry, hentry, hequal | hglob⟩
        · exact ⟨entry, hentry, .inl hequal⟩
        · by_cases hstar : '*' ∈ entry.toList
          · exact ⟨entry, hentry, .inr ⟨hstar, hglob.loose⟩⟩
          · exact ⟨entry, hentry, .inl (String.toList_injective ((matches_globAtom hstar).mp hglob))⟩

/-- **The hook keeps to the intent** unless JSON stands in another media type or in the parameters. -/
theorem onRequest_json_iff :
    (isMutation request = true → (onRequest config buckets request).1 = none → mediaType request = jsonType) ↔
      (isMutation request = true → (tenantCheck config buckets request).1 = none → sizeCheck config request = none →
        jsonType <:+: essence request ∨ jsonType <:+: parameters request → mediaType request = jsonType) := by
  rw [onRequest_iff, typeCheck_iff, infix_contentType]
  constructor
  · intro h hmutation htenant hsize hpart
    exact h hmutation ⟨htenant, hsize, fun _ => hpart⟩
  · rintro h hmutation ⟨htenant, hsize, hpart⟩
    exact h hmutation htenant hsize (hpart hmutation)

/-- **The boundary lets through what it is meant to** exactly where nothing is misread. -/
theorem boundary_kept_iff (R : RegExp) (config : Config) (buckets : Buckets) (request : Request)
    (hplain : ∀ origin, request.header "origin" = some origin → origin ≠ "" →
      ∀ entry, ComesTo (corsOrigins config) origin entry → Plain entry) :
    BoundaryKept R config buckets request ↔ NothingMisread config buckets request := by
  constructor
  · rintro ⟨horigin, hjson⟩
    refine ⟨fun hempty => ?_, fun origin hpresent => ?_, onRequest_json_iff.mp hjson⟩
    · exact ((corsAnswer_iff R hempty (hplain _ hempty)).mp (horigin _ hempty)).1 rfl
    · exact ((corsAnswer_iff R hpresent (hplain _ hpresent)).mp (horigin _ hpresent)).2
  · rintro ⟨hempty, hdots, htype⟩
    refine ⟨fun origin hpresent => ?_, onRequest_json_iff.mpr htype⟩
    exact (corsAnswer_iff R hpresent (hplain _ hpresent)).mpr ⟨fun hnil => hempty (hnil ▸ hpresent), hdots origin hpresent⟩

end Checks

/-! ## A misread origin and a misread type -/

/-- The regular expressions that are spelled out, without the others. -/
def simpleRegExp : RegExp where
  test pattern text := (anchored pattern.toList).map fun p => Wildcard.test p text.toList
  test_anchored := by
    intro pattern p text hp
    rw [hp, Option.map_some]

/-- Every site under a domain. -/
def subdomains : Config := ⟨some "https://*.vellar.wallet", 1024 * 1024, ⟨60, 10⟩⟩

def headerOf (text : String) (h : (text.toList.all fun c => c.toNat < 256 && c ≠ '\n' && c ≠ '\r') = true) :
    HeaderValue where
  text := text
  latin := by
    intro c hc
    have hall := List.all_eq_true.mp h c hc
    simp only [Bool.and_eq_true, decide_eq_true_eq] at hall
    exact ⟨hall.1.1, hall.1.2, hall.2⟩

def postFrom (origin type : HeaderValue) : Request where
  method := "POST"
  url := "/wallet"
  headers := fun name => if name = "origin" then some origin else if name = "content-type" then some type else none
  now := 0

/-- A text that names JSON in a parameter, from an origin with another character for a dot. -/
def misread : Request :=
  postFrom (headerOf "https://a.vellarxwallet" (by decide)) (headerOf "text/plain; x=application/json" (by decide))

/-- JSON from a site under the domain. -/
def wellRead : Request :=
  postFrom (headerOf "https://app.vellar.wallet" (by decide)) (headerOf "application/json; charset=utf-8" (by decide))

theorem corsOrigins_subdomains : corsOrigins subdomains = ["https://*.vellar.wallet"] := by decide

theorem plain_subdomains {origin entry : String} (h : ComesTo (corsOrigins subdomains) origin entry) : Plain entry := by
  obtain ⟨-, -, before, after, hentries, -⟩ := h
  have hmem : entry ∈ corsOrigins subdomains := hentries ▸ List.mem_append_right _ List.mem_cons_self
  rw [corsOrigins_subdomains] at hmem
  rw [List.mem_singleton.mp hmem]
  have hall : ("https://*.vellar.wallet".toList.all fun c => decide (c ∈ syntaxCharacters → c = '*')) = true := by
    decide
  exact fun c hc => of_decide_eq_true (List.all_eq_true.mp hall c hc)

theorem boundary_kept_wellRead : BoundaryKept simpleRegExp subdomains (fun _ => none) wellRead := by
  have hcovered : Covered (corsOrigins subdomains) "https://app.vellar.wallet" := by
    rw [corsOrigins_subdomains]
    refine ⟨_, List.mem_singleton_self _, .inr ?_⟩
    rw [Glob, ← Wildcard.test_iff]
    decide
  refine (boundary_kept_iff _ _ _ _ fun _ _ _ _ => plain_subdomains).mpr ⟨fun h => ?_, fun origin h _ _ _ => ?_, fun _ _ _ _ => ?_⟩
  · exact absurd (Option.some.inj h) (by decide)
  · exact Option.some.inj h ▸ hcovered
  · decide

/-- Neither the origin nor the type of the misread request is meant to pass, and both do. -/
theorem misread_passes :
    (corsAnswer simpleRegExp subdomains misread = some true ∧
      ¬ Covered (corsOrigins subdomains) "https://a.vellarxwallet") ∧
    isMutation misread = true ∧ (onRequest subdomains (fun _ => none) misread).1 = none ∧
      mediaType misread ≠ jsonType ∧ ¬ BoundaryKept simpleRegExp subdomains (fun _ => none) misread := by
  have hallowed : corsAnswer simpleRegExp subdomains misread = some true := by decide
  have huncovered : ¬ Covered (corsOrigins subdomains) "https://a.vellarxwallet" := by
    rw [corsOrigins_subdomains]
    rintro ⟨entry, hentry, hentry'⟩
    rw [List.mem_singleton.mp hentry, Glob, ← Wildcard.test_iff] at hentry'
    revert hentry'
    decide
  refine ⟨⟨hallowed, huncovered⟩, by decide +kernel, by decide +kernel, by decide, fun hkept => ?_⟩
  exact huncovered ((hkept.origin _ rfl).mp hallowed)

end Vellar.Gateway.Boundary
