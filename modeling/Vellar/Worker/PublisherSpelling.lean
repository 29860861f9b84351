import Vellar.Lib.UrlPaths
import Vellar.Worker.Artifact

/-!
# Vellar.Worker.PublisherSpelling — the spellings of a publisher

`packages/service-kit/src/publisher.ts`, over the URL parser.  The attestor and the policy builder both take a publisher's
id from `canonicalPublisher`, one from a repository URL and the other from what a user wrote.  It keeps a canonical
publisher and every other spelling of it exactly for the texts that are `Steady`: a single `.git` is dropped
(`dropGit_dropGit`), so an owner that ends in two of them has one id as a URL and another one as a publisher.
-/

set_option autoImplicit false

namespace Vellar.Worker

open UrlParser

/-! ## The URL parser of the platform -/

def urlOf (r : Record) : Url :=
  ⟨String.ofList (r.scheme ++ [':']), String.ofList r.username, String.ofList r.password, String.ofList r.hostname,
    String.ofList r.pathname⟩

/-- The platform with the URL parser. -/
def Platform.withUrls (P : Platform) (hosts : HostParser) : Platform :=
  { P with parseUrl := fun text => (parse hosts text.toList).map urlOf }

theorem withUrls_parseUrl (P : Platform) (hosts : HostParser) (text : String) :
    (P.withUrls hosts).parseUrl text = (parse hosts text.toList).map urlOf := rfl

/-! ## Host and owner -/

def https : Chars := ['h', 't', 't', 'p', 's', ':', '/', '/']

def withScheme (cs : Chars) : Chars := if hasScheme (String.ofList cs) then cs else https ++ cs

/-- The text that is parsed. -/
def urlText (s : String) : Chars := withScheme (trimChars s.toList)

/-- The host of a URL and the first segment of its path, in lower case. -/
def hostOwner (hosts : HostParser) (text : Chars) : Option (Chars × Chars) :=
  (parse hosts text).bind fun r =>
    if r.hostname = [] then none
    else
      match r.path with
      | .segments path => (lead path).map fun owner => (lower r.hostname, lower owner)
      | .text _ => none

def dropGit (owner : Chars) : Chars :=
  if ['.', 'g', 'i', 't'] <:+ owner then owner.take (owner.length - 4) else owner

/-- The publisher of a host and an owner. -/
def publisher (p : Chars × Chars) : Option String :=
  if isOwnerName (String.ofList (dropGit p.2)) then some (String.ofList (p.1 ++ '/' :: dropGit p.2)) else none

theorem lowerChar_eq (c : Char) : lowerChar c = c.toLower := by
  have hcases : ∀ n < 128, lowerChar (Char.ofNat n) = (Char.ofNat n).toLower := by decide
  by_cases hlt : c.toNat < 128
  · have := hcases c.toNat hlt
    rwa [Char.ofNat_toNat] at this
  · have hupper : ¬ c.isUpper = true := fun hu => by
      have halpha : c.isAlpha = true := by rw [Char.isAlpha, hu, Bool.true_or]
      have := isAlpha_iff.mp halpha
      omega
    rw [Char.toLower_eq_of_not_isUpper hupper, lowerChar, if_neg]
    rintro ⟨-, hle⟩
    have : c.toNat ≤ 'Z'.toNat := hle
    exact hlt (lt_of_le_of_lt this (by decide))

theorem dropGitSuffix_ofList (cs : Chars) : dropGitSuffix (String.ofList cs) = String.ofList (dropGit cs) := by
  rw [dropGitSuffix, dropGit, String.toList_ofList]
  split_ifs <;> rfl

section Spelling

variable (P : Platform) (hosts : HostParser)

theorem toLowerCase_plain {cs : Chars} (hcs : ∀ c ∈ cs, c.toNat < 0x7f) :
    P.toLowerCase (String.ofList cs) = String.ofList (lower cs) := by
  rw [P.toLowerCase_ascii _ fun c hc => ?_, asciiLower, String.toList_ofList]
  · exact congrArg String.ofList (List.map_congr_left fun c _ => lowerChar_eq c)
  · rw [String.toList_ofList] at hc
    exact lt_trans (hcs c hc) (by decide)

theorem isJsSpace_plain {c : Char} (h : 0x20 < c.toNat) (hlt : c.toNat < 0x7f) : isJsSpace c = false := by
  simp only [isJsSpace, List.mem_cons, List.not_mem_nil, or_false, Bool.or_eq_false_iff, decide_eq_false_iff_not,
    Bool.and_eq_false_iff]
  omega

/-- What the split path of a URL has for an owner. -/
theorem owner_of_segments {path : List Chars} (hpath : ∀ seg ∈ path, Plain seg) :
    (((split (String.ofList (path.flatMap ('/' :: ·))) '/').map trim).filter (· ≠ "")).head? =
      (lead path).map String.ofList := by
  have htrim : ∀ seg ∈ path, trim (String.ofList seg) = String.ofList seg := fun seg hseg => by
    refine trim_eq_self fun c hc => ?_
    rw [String.toList_ofList] at hc
    exact isJsSpace_plain (hpath seg hseg c hc).1 (hpath seg hseg c hc).2.1
  have hmap : (split (String.ofList (path.flatMap ('/' :: ·))) '/').map trim = "" :: path.map String.ofList := by
    rw [split, String.toList_ofList, splitOn_pathname hpath, List.map_cons, List.map_cons, List.map_map]
    exact congrArg₂ _ rfl (List.map_congr_left htrim)
  rw [hmap, List.head?_filter, List.find?_cons_of_neg (by simp), List.find?_map, lead]
  congr 2
  funext seg
  simp [String.ofList_eq_empty_iff]

theorem urlText_eq (s : String) :
    (if hasScheme (trim s) then trim s else "https://" ++ trim s).toList = urlText s := by
  unfold urlText withScheme
  rw [← trim]
  split_ifs
  · rw [trim, String.toList_ofList]
  · rw [String.toList_append, trim, String.toList_ofList, String.toList_ofList]
    rfl

theorem hostOwner_empty {s : String} (h : trimChars s.toList = []) : hostOwner hosts (urlText s) = none := by
  rw [urlText, h]
  rfl

/-- **`canonicalPublisher` reads the host and the owner of a URL.** -/
theorem canonicalPublisher_eq (s : String) :
    canonicalPublisher (P.withUrls hosts) s = (hostOwner hosts (urlText s)).bind publisher := by
  by_cases hempty : trim s = ""
  · rw [hostOwner_empty hosts (String.ofList_eq_empty_iff.mp hempty), canonicalPublisher]
    simp only [hempty, if_true]
    rfl
  · have hparse : (P.withUrls hosts).parseUrl (if hasScheme (trim s) then trim s else "https://" ++ trim s) =
        (parse hosts (urlText s)).map urlOf := by
      rw [withUrls_parseUrl, urlText_eq]
    unfold canonicalPublisher
    simp only [hempty, if_false, hparse]
    cases hr : parse hosts (urlText s) with
    | none => simp [hostOwner, hr]
    | some r =>
      have hlower : ∀ cs : Chars, (∀ c ∈ cs, c.toNat < 0x7f) →
          (P.withUrls hosts).toLowerCase (String.ofList cs) = String.ofList (lower cs) := fun _ => toLowerCase_plain P
      by_cases hhost : r.hostname = []
      · have hname : (urlOf r).hostname = String.ofList [] := congrArg String.ofList hhost
        have hzero : (P.withUrls hosts).toLowerCase (urlOf r).hostname = "" := by
          rw [hname, hlower [] (by simp)]
          rfl
        simp only [Option.map_some, hzero, hostOwner, hr, Option.bind_some, hhost, if_true, Option.bind_none]
        split <;> rfl
      · obtain ⟨htext, k, tail, -, hpath⟩ := parse_host hr hhost
        have hplain := plain_pathSegments k tail
        have hname : (P.withUrls hosts).toLowerCase (urlOf r).hostname = String.ofList (lower r.hostname) :=
          hlower _ fun c hc => (htext.chars c hc).2.1
        have hpathname : (urlOf r).pathname = String.ofList ((pathSegments k tail).flatMap ('/' :: ·)) := by
          rw [urlOf, Record.pathname, hpath]
        have hne : String.ofList (lower r.hostname) ≠ "" := by
          simpa [String.ofList_eq_empty_iff, lower_eq_nil] using hhost
        simp only [Option.map_some, hname, hpathname, owner_of_segments hplain, hostOwner, hr, Option.bind_some, hhost,
          if_false, hpath]
        cases hlead : lead (pathSegments k tail) with
        | none => rfl
        | some owner =>
          have howner : (P.withUrls hosts).toLowerCase (String.ofList owner) = String.ofList (lower owner) :=
            hlower _ fun c hc => (hplain owner (List.mem_of_find?_eq_some hlead) c hc).2.1
          simp only [Option.map_some, howner, dropGitSuffix_ofList, if_neg hne, Option.bind_some, publisher]
          refine if_congr Iff.rfl (congrArg some ?_) rfl
          rw [← String.toList_inj]
          simp

theorem hostOwner_some {text h o : Chars} (ho : hostOwner hosts text = some (h, o)) :
    ∃ r k tail owner, parse hosts text = some r ∧ r.hostname ≠ [] ∧ HostText r.hostname ∧ tail? text = some (k, tail) ∧
      r.path = .segments (pathSegments k tail) ∧ lead (pathSegments k tail) = some owner ∧
        h = lower r.hostname ∧ o = lower owner := by
  obtain ⟨r, hr, hro⟩ := Option.bind_eq_some_iff.mp ho
  split_ifs at hro with hhost
  obtain ⟨htext, k, tail, htail, hpath⟩ := parse_host hr hhost
  simp only [hpath, Option.map_eq_some_iff, Prod.mk.injEq] at hro
  obtain ⟨owner, hlead, hh, ho⟩ := hro
  exact ⟨r, k, tail, owner, hr, hhost, htext, htail, hpath, hlead, hh.symm, ho.symm⟩

theorem hostOwner_of {text : Chars} {r : Record} {path : List Chars} {owner : Chars} (hr : parse hosts text = some r)
    (hhost : r.hostname ≠ []) (hpath : r.path = .segments path) (hlead : lead path = some owner) :
    hostOwner hosts text = some (lower r.hostname, lower owner) := by
  rw [hostOwner, hr, Option.bind_some, if_neg hhost]
  simp only [hpath, hlead, Option.map_some]

/-- Letter case is of no account. -/
theorem hostOwner_lower (text : Chars) : hostOwner hosts (lower text) = hostOwner hosts text := by
  have hplace : ∀ text, hostOwner hosts text = ((parse hosts text).map Record.place).bind fun p =>
      if p.2.1 = [] then none
      else
        match p.2.2 with
        | .segments path => (lead path).map fun owner => (p.2.1, owner)
        | .text _ => none := by
    intro text
    rw [hostOwner, Option.bind_map]
    congr 1
    funext r
    simp only [Function.comp_apply, Record.place, lower_eq_nil]
    split_ifs
    · rfl
    · cases r.path with
      | text cs => rfl
      | segments path =>
        simp only [Path.lowered, lead, List.find?_map, Option.map_map, Function.comp_def, ne_eq, lower_eq_nil]
  rw [hplace, hplace, parse_lower]

theorem hostOwner_of_lower {cs ds : Chars} (h : lower cs = lower ds) : hostOwner hosts cs = hostOwner hosts ds := by
  rw [← hostOwner_lower, h, hostOwner_lower]

end Spelling

/-! ## Schemes -/

section Scheme

/-- A character of a scheme behind the first one. -/
def isSchemeTail (d : Char) : Bool := isAsciiLetter d || isAsciiDigit d || d ∈ ['+', '.', '-']

theorem hasScheme_cons (c : Char) (cs : Chars) :
    hasScheme (String.ofList (c :: cs)) = (isAsciiLetter c && (cs.dropWhile isSchemeTail).take 3 == [':', '/', '/']) := by
  rw [hasScheme, String.toList_ofList]
  rfl

theorem isSchemeTail_spec {d : Char} (h : isSchemeTail d = true) :
    isBlank d = false ∧ endsHost .web d = false ∧ isSlash .web d = false ∧ d ≠ '/' ∧ d ≠ ':' := by
  have hcases : ∀ n < 128, isSchemeTail (Char.ofNat n) = true → isBlank (Char.ofNat n) = false ∧
      endsHost .web (Char.ofNat n) = false ∧ isSlash .web (Char.ofNat n) = false ∧ Char.ofNat n ≠ '/' ∧
        Char.ofNat n ≠ ':' := by
    decide
  have hle : ∀ e : Char, d ≤ e → d.toNat ≤ e.toNat := fun e he => he
  have hlt : d.toNat < 128 := by
    simp only [isSchemeTail, isAsciiLetter, isAsciiDigit, Bool.or_eq_true, Bool.and_eq_true, decide_eq_true_eq,
      List.mem_cons, List.not_mem_nil, or_false] at h
    rcases h with ((⟨-, hz⟩ | ⟨-, hz⟩) | ⟨-, h9⟩) | rfl | rfl | rfl
    · exact lt_of_le_of_lt (hle 'z' hz) (by decide)
    · exact lt_of_le_of_lt (hle 'Z' hz) (by decide)
    · exact lt_of_le_of_lt (hle '9' h9) (by decide)
    all_goals decide
  have := hcases d.toNat hlt
  rw [Char.ofNat_toNat] at this
  exact this h

theorem isAsciiLetter_eq (c : Char) : isAsciiLetter c = c.isAlpha := by
  rw [Bool.eq_iff_iff, isAlpha_iff]
  simp only [isAsciiLetter, Bool.or_eq_true, Bool.and_eq_true, decide_eq_true_eq]
  exact or_comm

/-- `hasScheme`, as what it matches. -/
theorem hasScheme_iff {cs : Chars} :
    hasScheme (String.ofList cs) = true ↔
      ∃ c w rest, cs = c :: w ++ ':' :: '/' :: '/' :: rest ∧ isAsciiLetter c = true ∧ ∀ d ∈ w, isSchemeTail d = true := by
  cases cs with
  | nil => simp [hasScheme]
  | cons c cs =>
    rw [hasScheme_cons, Bool.and_eq_true, beq_iff_eq]
    constructor
    · rintro ⟨hc, htake⟩
      have hw : ∀ d ∈ cs.takeWhile isSchemeTail, isSchemeTail d = true := fun d hd => List.mem_takeWhile_imp hd
      refine ⟨c, cs.takeWhile isSchemeTail, (cs.dropWhile isSchemeTail).drop 3, ?_, hc, hw⟩
      have hdrop : cs.dropWhile isSchemeTail = ':' :: '/' :: '/' :: (cs.dropWhile isSchemeTail).drop 3 :=
        calc cs.dropWhile isSchemeTail
            = (cs.dropWhile isSchemeTail).take 3 ++ (cs.dropWhile isSchemeTail).drop 3 := (List.take_append_drop 3 _).symm
          _ = _ := by rw [htake]; rfl
      rw [← hdrop, List.cons_append, List.takeWhile_append_dropWhile]
    · rintro ⟨c', w, rest, hcs, hc, hw⟩
      rw [List.cons_append] at hcs
      obtain ⟨rfl, rfl⟩ := List.cons_eq_cons.mp hcs
      refine ⟨hc, ?_⟩
      rw [List.dropWhile_append_of_pos hw, List.dropWhile_cons_of_neg (by decide)]
      rfl

theorem hasScheme_lower (cs : Chars) : hasScheme (String.ofList (lower cs)) = hasScheme (String.ofList cs) := by
  cases cs with
  | nil => rfl
  | cons c cs =>
    have hblind : Blind isSchemeTail := by
      refine blind_of true fun d hd => ?_
      rw [isSchemeTail, isAsciiLetter_eq, hd]
      rfl
    rw [lower_cons, hasScheme_cons, hasScheme_cons, isAsciiLetter_eq, isAsciiLetter_eq, Char.isAlpha_toLower_eq_isAlpha,
      dropWhile_lower hblind]
    congr 1
    rw [Bool.eq_iff_iff, beq_iff_eq, beq_iff_eq]
    rcases cs.dropWhile isSchemeTail with _ | ⟨c, _ | ⟨d, _ | ⟨e, rest⟩⟩⟩
    all_goals simp [lower, toLower_eq_iff (d := ':') rfl, toLower_eq_iff (d := '/') rfl]

end Scheme

/-! ## A canonical publisher -/

section Canonical

variable {P : Platform} {hosts : HostParser} {h o : Chars}

def isOwnerChar (d : Char) : Bool := ('a' ≤ d && d ≤ 'z') || isAsciiDigit d || d ∈ ['.', '_', '-']

theorem isOwnerChar_spec {d : Char} (hd : isOwnerChar d = true) :
    (0x20 < d.toNat ∧ d.toNat < 0x7f) ∧ (inPathSet d = false ∧ d ≠ '/' ∧ d ≠ '\\') ∧ d.toLower = d ∧ d ≠ '%' := by
  have hcases : ∀ n < 128, isOwnerChar (Char.ofNat n) = true →
      (0x20 < (Char.ofNat n).toNat ∧ (Char.ofNat n).toNat < 0x7f) ∧
      (inPathSet (Char.ofNat n) = false ∧ Char.ofNat n ≠ '/' ∧ Char.ofNat n ≠ '\\') ∧
        (Char.ofNat n).toLower = Char.ofNat n ∧ Char.ofNat n ≠ '%' := by
    decide
  have hle : ∀ e : Char, d ≤ e → d.toNat ≤ e.toNat := fun e he => he
  have hlt : d.toNat < 128 := by
    simp only [isOwnerChar, isAsciiDigit, Bool.or_eq_true, Bool.and_eq_true, decide_eq_true_eq, List.mem_cons,
      List.not_mem_nil, or_false] at hd
    rcases hd with (⟨-, hz⟩ | ⟨-, h9⟩) | rfl | rfl | rfl
    · exact lt_of_le_of_lt (hle 'z' hz) (by decide)
    · exact lt_of_le_of_lt (hle '9' h9) (by decide)
    all_goals decide
  have := hcases d.toNat hlt
  rw [Char.ofNat_toNat] at this
  exact this hd

theorem isOwnerName_spec (ho : isOwnerName (String.ofList o) = true) :
    (∀ d ∈ o, isOwnerChar d = true) ∧ ∃ c rest, o = c :: rest ∧ c ≠ '.' := by
  cases o with
  | nil => cases ho
  | cons c rest =>
    rw [isOwnerName, String.toList_ofList] at ho
    simp only [Bool.and_eq_true, List.all_eq_true] at ho
    have hhead : isOwnerChar c = true := by
      rw [isOwnerChar, ho.1]
      rfl
    refine ⟨fun d hd => ?_, c, rest, rfl, ?_⟩
    · rcases List.mem_cons.mp hd with rfl | hd
      · exact hhead
      · exact ho.2 d hd
    · rintro rfl
      exact absurd ho.1 (by decide)

theorem isPlainSegment_owner (ho : isOwnerName (String.ofList o) = true) : IsPlainSegment o := by
  obtain ⟨hchars, c, rest, rfl, hc⟩ := isOwnerName_spec ho
  have hpercent := (isOwnerChar_spec (hchars c List.mem_cons_self)).2.2.2
  have hlower := (isOwnerChar_spec (hchars c List.mem_cons_self)).2.2.1
  refine ⟨fun d hd => (isOwnerChar_spec (hchars d hd)).2.1, ?_, ?_⟩
  · rw [isSingleDot, lower_cons, hlower]
    simp [hc, hpercent]
  · rw [isDoubleDot, lower_cons, hlower]
    simp [hc, hpercent]

theorem lower_owner (ho : isOwnerName (String.ofList o) = true) : lower o = o :=
  (List.map_congr_left fun d hd => (isOwnerChar_spec ((isOwnerName_spec ho).1 d hd)).2.2.1).trans (List.map_id o)

/-- A host with an owner is no URL yet. -/
theorem urlText_canonical (hh : HostText h) (ho : isOwnerName (String.ofList o) = true) :
    urlText (String.ofList (h ++ '/' :: o)) = https ++ (h ++ '/' :: o) := by
  have htrim : trim (String.ofList (h ++ '/' :: o)) = String.ofList (h ++ '/' :: o) := by
    refine trim_eq_self fun c hc => ?_
    rw [String.toList_ofList] at hc
    rcases List.mem_append.mp hc with hc | hc
    · exact isJsSpace_plain (hh.chars c hc).1 (hh.chars c hc).2.1
    · rcases List.mem_cons.mp hc with rfl | hc
      · rfl
      · have := (isOwnerChar_spec ((isOwnerName_spec ho).1 c hc)).1
        exact isJsSpace_plain this.1 this.2
  have hscheme : ¬ hasScheme (String.ofList (h ++ '/' :: o)) = true := by
    intro hs
    -- a scheme has two slashes behind it
    obtain ⟨c, w, rest, heq, -, -⟩ := hasScheme_iff.mp hs
    have hhost : '/' ∉ h := fun hmem => (hh.chars _ hmem).2.2.1 rfl
    have howner : '/' ∉ o := fun hmem => (isOwnerChar_spec ((isOwnerName_spec ho).1 _ hmem)).2.1.2.1 rfl
    rw [show c :: w ++ ':' :: '/' :: '/' :: rest = (c :: w ++ [':']) ++ '/' :: '/' :: rest by simp,
      List.append_cons_inj_of_notMem hhost howner] at heq
    exact howner (heq.2.2 ▸ List.mem_cons_self)
  have htrim := String.ofList_injective htrim
  rw [urlText, htrim, withScheme, if_neg hscheme]

theorem hostOwner_canonical (hh : HostText h) (hne : h ≠ []) (ho : isOwnerName (String.ofList o) = true) :
    hostOwner hosts (urlText (String.ofList (h ++ '/' :: o))) = (hosts.web h).map fun name => (name, o) := by
  rw [urlText_canonical hh ho, hostOwner, https, parse_plain hosts hh hne (isPlainSegment_owner ho)]
  cases hweb : hosts.web h with
  | none => rfl
  | some name =>
    obtain ⟨-, hname, hlower⟩ := hosts.web_text h name hweb
    obtain ⟨-, c, rest, hcons, -⟩ := isOwnerName_spec ho
    have hlead : lead [o] = some o := by
      rw [hcons]
      rfl
    simp only [Option.map_some, Option.bind_some, if_neg hname, hlead, hlower, lower_owner ho]

theorem dropGit_append (w : Chars) : dropGit (w ++ ['.', 'g', 'i', 't']) = w := by
  rw [dropGit, if_pos (List.suffix_append _ _), List.length_append]
  exact List.take_left

theorem dropGit_eq_self : dropGit o = o ↔ ¬ ['.', 'g', 'i', 't'] <:+ o := by
  constructor
  · rintro h ⟨w, rfl⟩
    have := congrArg List.length h
    rw [dropGit_append, List.length_append] at this
    simp at this
  · exact fun h => if_neg h

/-- **Dropping the suffix again drops nothing**, unless the owner has it twice. -/
theorem dropGit_dropGit : dropGit (dropGit o) = dropGit o ↔ ¬ ['.', 'g', 'i', 't', '.', 'g', 'i', 't'] <:+ o := by
  by_cases hsuffix : ['.', 'g', 'i', 't'] <:+ o
  · obtain ⟨w, rfl⟩ := hsuffix
    rw [dropGit_append, dropGit_eq_self, not_iff_not]
    exact List.suffix_append_self_iff.symm
  · rw [dropGit_eq_self.mpr hsuffix, dropGit_eq_self]
    refine iff_of_true hsuffix fun hdouble => hsuffix ?_
    exact List.IsSuffix.trans ⟨['.', 'g', 'i', 't'], rfl⟩ hdouble

end Canonical

/-! ## Spellings -/

/-- The text with an `https` scheme, behind white space; it has no scheme of its own. -/
structure AddsScheme (s s' : String) : Prop where
  plain : hasScheme (trim s) = false
  added : ∃ space scheme rest : Chars, s.toList = space ++ rest ∧ s'.toList = space ++ (scheme ++ rest) ∧
    (∀ c ∈ space, isJsSpace c = true) ∧ (∀ c ∈ rest.head?, isJsSpace c = false) ∧ lower scheme = https

/-- A path segment that is written: without white space and controls too. -/
structure IsWrittenSegment (seg : Chars) : Prop extends IsSegment seg where
  blanks : ∀ c ∈ seg, isBlank c = false ∧ isJsSpace c = false

inductive Respelling (s s' : String) : Prop where
  | addScheme (h : AddsScheme s s')
  | removeScheme (h : AddsScheme s' s)
  | letterCase (h : lower s'.toList = lower s.toList)
  /-- Segments, where the empty one is a trailing slash, and a query or a fragment. -/
  | append (segs : List Chars) (more : Chars) (hsegs : ∀ seg ∈ segs, IsWrittenSegment seg) (hmore : IsMore more)
      (h : s'.toList = s.toList ++ (segs.flatMap ('/' :: ·) ++ more))

/-- What is cut from the end, line breaks aside: they are cut everywhere. -/
def gap (s : String) : Chars :=
  ((urlText s).rtakeWhile isBlank ++ s.toList.rtakeWhile isJsSpace).filter (!isBreak ·)

/-- Nothing follows the owner. -/
def ownerIsLast (s : String) : Bool := (tail? (urlText s)).any fun t => leadIsLast t.1 t.2

/-- **The texts whose publisher stays.**  The owner does not end in `.git` twice; the host is one of the web, as it is
for every URL of the web; and where the owner is the end of the URL it is the end of the text. -/
structure Steady (hosts : HostParser) (s : String) : Prop where
  suffix : ∀ h o, hostOwner hosts (urlText s) = some (h, o) → ¬ ['.', 'g', 'i', 't', '.', 'g', 'i', 't'] <:+ o
  host : ∀ h o, hostOwner hosts (urlText s) = some (h, o) → hosts.web h = some h
  gap : ownerIsLast s = true → gap s = []

section Respellings

variable {hosts : HostParser} {s s' : String} {h o : Chars}

theorem trimChars_append {space rest : Chars} (hspace : ∀ c ∈ space, isJsSpace c = true)
    (hrest : ∀ c ∈ rest.head?, isJsSpace c = false) : trimChars (space ++ rest) = rest.rdropWhile isJsSpace := by
  have hdrop : rest.dropWhile isJsSpace = rest := by
    cases rest with
    | nil => rfl
    | cons c rest => exact List.dropWhile_cons_of_neg (by simp [hrest c rfl])
  rw [trimChars, List.dropWhile_append_of_pos hspace, hdrop]
  rfl

theorem isJsSpace_lower : Blind isJsSpace := by
  refine blind_of false fun c hc => ?_
  have := isAlpha_iff.mp hc
  simp only [isJsSpace, List.mem_cons, List.not_mem_nil, or_false, Bool.or_eq_false_iff, decide_eq_false_iff_not,
    Bool.and_eq_false_iff]
  omega

theorem trimChars_lower (cs : Chars) : trimChars (lower cs) = lower (trimChars cs) := by
  have hrdrop : ∀ ds, trimChars ds = (ds.dropWhile isJsSpace).rdropWhile isJsSpace := fun _ => rfl
  rw [hrdrop, hrdrop, dropWhile_lower isJsSpace_lower, rdropWhile_lower isJsSpace_lower]

theorem withScheme_lower (cs : Chars) : withScheme (lower cs) = lower (withScheme cs) := by
  unfold withScheme
  rw [hasScheme_lower]
  split_ifs
  · rfl
  · rw [lower_append]
    rfl

theorem hostOwner_letterCase (hcase : lower s'.toList = lower s.toList) :
    hostOwner hosts (urlText s') = hostOwner hosts (urlText s) := by
  refine hostOwner_of_lower hosts ?_
  rw [urlText, urlText, ← withScheme_lower, ← withScheme_lower, ← trimChars_lower, ← trimChars_lower, hcase]

theorem hostOwner_addScheme (hadds : AddsScheme s s') : hostOwner hosts (urlText s') = hostOwner hosts (urlText s) := by
  obtain ⟨space, scheme, rest, hs, hs', hspace, hrest, hscheme⟩ := hadds.added
  have hplain := hadds.plain
  rw [trim, hs, trimChars_append hspace hrest] at hplain
  have hnone : ∀ c ∈ scheme, isJsSpace c = false := by
    intro c hc
    have hall : https.all (!isJsSpace ·) = true := rfl
    have := List.all_eq_true.mp hall c.toLower (hscheme ▸ List.mem_map_of_mem hc)
    rwa [isJsSpace_lower c, Bool.not_eq_true'] at this
  have hhead : ∀ c ∈ (scheme ++ rest).head?, isJsSpace c = false := by
    intro c hc
    cases scheme with
    | nil => cases hscheme
    | cons d scheme => exact hnone c (by rw [← Option.some_inj.mp hc]; exact List.mem_cons_self)
  have hhas : hasScheme (String.ofList (scheme ++ rest.rdropWhile isJsSpace)) = true := by
    have htail : ['t', 't', 'p', 's'].all isSchemeTail = true := rfl
    rw [← hasScheme_lower, lower_append, hscheme]
    exact hasScheme_iff.mpr ⟨'h', ['t', 't', 'p', 's'], lower (rest.rdropWhile isJsSpace), rfl, rfl,
      List.all_eq_true.mp htail⟩
  refine hostOwner_of_lower hosts ?_
  rw [urlText, urlText, hs, hs', trimChars_append hspace hrest, trimChars_append hspace hhead, rdropWhile_append_none hnone,
    withScheme, if_pos hhas, withScheme, if_neg (by simp [hplain]), lower_append, lower_append, hscheme]
  rfl

/-- A name, also one with the colon and a slash of a scheme, has no owner behind it. -/
theorem hostOwner_name {name colon : Chars} (hname : ∀ d ∈ name, isSchemeTail d = true)
    (hcolon : colon ∈ [[], [':'], [':', '/']]) {p : Chars × Chars} :
    hostOwner hosts (https ++ (name ++ colon)) ≠ some p := by
  intro ho
  obtain ⟨r, k, tail, owner, -, -, -, htail, -, hlead, -⟩ := hostOwner_some hosts ho
  have hname' : ∀ d ∈ name, (!endsHost .web d) = true := fun d hd => by simp [(isSchemeTail_spec (hname d hd)).2.1]
  have hclean : clean (https ++ (name ++ colon)) = https ++ (name ++ colon) := by
    refine clean_of fun c hc => ?_
    rcases List.mem_append.mp hc with hc | hc
    · have hall : https.all (!isBlank ·) = true := rfl
      simpa using List.all_eq_true.mp hall c hc
    · rcases List.mem_append.mp hc with hc | hc
      · exact (isSchemeTail_spec (hname c hc)).1
      · have hall : [[], [':'], [':', '/']].all (·.all (!isBlank ·)) = true := rfl
        simpa using List.all_eq_true.mp (List.all_eq_true.mp hall colon hcolon) c hc
  have hbody : (name ++ colon).dropWhile (isSlash .web) = name ++ colon := by
    cases name with
    | nil =>
      simp only [List.mem_cons, List.not_mem_nil, or_false] at hcolon
      rcases hcolon with rfl | rfl | rfl <;> rfl
    | cons d name => exact List.dropWhile_cons_of_neg (by simp [(isSchemeTail_spec (hname d List.mem_cons_self)).2.2.1])
  have htail' : tail? (https ++ (name ++ colon)) = some (.web, colon.dropWhile (!endsHost .web ·)) := by
    rw [tail?, hclean]
    change some (Kind.web, ((name ++ colon).dropWhile (isSlash .web)).dropWhile (!endsHost .web ·)) = _
    rw [hbody, List.dropWhile_append_of_pos hname']
  rw [htail', Option.some_inj, Prod.mk.injEq] at htail
  obtain ⟨rfl, rfl⟩ := htail
  simp only [List.mem_cons, List.not_mem_nil, or_false] at hcolon
  rcases hcolon with rfl | rfl | rfl <;> cases hlead

/-- What follows a URL with an owner makes no scheme of it. -/
theorem hasScheme_append {cs : Chars} {p : Chars × Chars} (ho : hostOwner hosts (withScheme cs) = some p) (ds : Chars) :
    hasScheme (String.ofList (cs ++ ds)) = hasScheme (String.ofList cs) := by
  by_cases hcs : hasScheme (String.ofList cs) = true
  · obtain ⟨c, w, rest, rfl, hc, hw⟩ := hasScheme_iff.mp hcs
    rw [hcs]
    exact hasScheme_iff.mpr ⟨c, w, rest ++ ds, by simp, hc, hw⟩
  · rw [withScheme, if_neg hcs] at ho
    rw [Bool.eq_false_iff.mpr hcs, Bool.eq_false_iff]
    intro hlong
    obtain ⟨c, w, rest, heq, hc, hw⟩ := hasScheme_iff.mp hlong
    have hname : ∀ d ∈ c :: w, isSchemeTail d = true := by
      intro d hd
      rcases List.mem_cons.mp hd with rfl | hd
      · rw [isSchemeTail, hc]
        rfl
      · exact hw d hd
    -- where the text ends: in the name, or between the colon and the second slash
    rcases List.append_eq_append_iff.mp heq with ⟨a, hcsa, -⟩ | ⟨a, rfl, ha⟩
    · have hcsname : ∀ d ∈ cs, isSchemeTail d = true := fun d hd => hname d (hcsa ▸ List.mem_append_left _ hd)
      have ho' : hostOwner hosts (https ++ (cs ++ [])) = some p := by rwa [List.append_nil]
      exact hostOwner_name hcsname (by simp) ho'
    · rcases a with _ | ⟨d, _ | ⟨e, _ | ⟨f, a⟩⟩⟩
      · exact hostOwner_name hname (by simp) ho
      all_goals simp only [List.cons_append, List.cons.injEq] at ha
      · obtain ⟨rfl, -⟩ := ha
        exact hostOwner_name hname (by simp) ho
      · obtain ⟨rfl, rfl, -⟩ := ha
        exact hostOwner_name hname (by simp) ho
      · obtain ⟨rfl, rfl, rfl, -⟩ := ha
        exact hcs (hasScheme_iff.mpr ⟨c, w, a, rfl, hc, hw⟩)

/-- The text that is parsed, with more behind it. -/
theorem urlText_append {p : Chars × Chars} (ho : hostOwner hosts (urlText s) = some p) {path more : Chars}
    (hpath : ∀ c ∈ path, isJsSpace c = false) (hmore : IsMore more) (hne : path ++ more ≠ [])
    (hs' : s'.toList = s.toList ++ (path ++ more)) :
    ∃ more', IsMore more' ∧ (more' = [] ↔ more = []) ∧
      urlText s' = urlText s ++ s.toList.rtakeWhile isJsSpace ++ (path ++ more') := by
  have hstart : s.toList.dropWhile isJsSpace ≠ [] := by
    intro hnil
    have htrim : trimChars s.toList = [] := by rw [trimChars, hnil]; rfl
    rw [hostOwner_empty hosts htrim] at ho
    cases ho
  obtain ⟨more', hmore', hiff, hcut⟩ := rdropWhile_more hpath ⟨rfl, rfl⟩ hmore
  refine ⟨more', hmore', hiff, ?_⟩
  have hcutne : (path ++ more).rdropWhile isJsSpace ≠ [] := by
    rw [hcut]
    intro h
    obtain ⟨hp, hm⟩ := List.append_eq_nil_iff.mp h
    exact hne (by rw [hp, hiff.mp hm]; rfl)
  have hsplit : s.toList.dropWhile isJsSpace = trimChars s.toList ++ s.toList.rtakeWhile isJsSpace := by
    rw [← rtakeWhile_dropWhile hstart]
    exact List.rdropWhile_append_rtakeWhile.symm
  have htrim : trimChars s'.toList = trimChars s.toList ++ (s.toList.rtakeWhile isJsSpace ++ (path ++ more')) :=
    calc trimChars s'.toList = ((s.toList ++ (path ++ more)).dropWhile isJsSpace).rdropWhile isJsSpace := by rw [hs']; rfl
      _ = s.toList.dropWhile isJsSpace ++ (path ++ more') := by
        rw [dropWhile_append_of hstart, rdropWhile_append_of hcutne, hcut]
      _ = _ := by rw [hsplit, List.append_assoc]
  rw [urlText, urlText, htrim, withScheme, hasScheme_append ho, withScheme]
  split_ifs <;> simp

theorem encoded_gap (s : String) : Encoded (gap s) := by
  intro c hc
  obtain ⟨hmem, -⟩ := List.mem_filter.mp hc
  have hrange : c.toNat ≤ 0x20 ∨ 0x7e < c.toNat := by
    rcases List.mem_append.mp hmem with hmem | hmem
    · have hblank : isBlank c = true := List.mem_rtakeWhile_imp hmem
      rw [isBlank, decide_eq_true_eq] at hblank
      exact Or.inl hblank
    · have : isJsSpace c = true := List.mem_rtakeWhile_imp hmem
      simp only [isJsSpace, List.mem_cons, List.not_mem_nil, or_false, Bool.or_eq_true, Bool.and_eq_true,
        decide_eq_true_eq] at this
      omega
  have hquery : c ≠ '?' := by
    rintro rfl
    exact absurd hrange (by decide)
  have hfragment : c ≠ '#' := by
    rintro rfl
    exact absurd hrange (by decide)
  refine ⟨?_, hquery, hfragment⟩
  by_cases hspace : c = ' '
  · subst hspace
    rfl
  · have hne : c.toNat ≠ 0x20 := fun h => hspace (Char.toNat_inj.mp h)
    have hcontrol : inControlSet c = true := by
      simp only [inControlSet, Bool.or_eq_true, decide_eq_true_eq]
      omega
    rw [inPathSet, hcontrol, Bool.true_or]

/-- What is written behind a URL with an owner goes to its path, the gap first. -/
theorem parse_behind (ho : hostOwner hosts (urlText s) = some (h, o)) {segs : List Chars} {more : Chars}
    (hsegs : ∀ seg ∈ segs, IsWrittenSegment seg) (hmore : IsMore more) (hne : segs.flatMap ('/' :: ·) ++ more ≠ [])
    (hs' : s'.toList = s.toList ++ (segs.flatMap ('/' :: ·) ++ more)) :
    ∃ (r : Record) (k : Kind) (tail owner more' : Chars), r.hostname ≠ [] ∧ h = lower r.hostname ∧ o = lower owner ∧
      tail? (urlText s) = some (k, tail) ∧ lead (pathSegments k tail) = some owner ∧ IsMore more' ∧
      (more = [] → more' = []) ∧ parse hosts (urlText s') =
        some { r with path := .segments (pathSegments k (tail ++ gap s ++ (segs.flatMap ('/' :: ·) ++ more'))) } := by
  have hchars : ∀ c ∈ segs.flatMap ('/' :: ·), isBlank c = false ∧ isJsSpace c = false := by
    intro c hc
    obtain ⟨seg, hseg, hc⟩ := List.mem_flatMap.mp hc
    rcases List.mem_cons.mp hc with rfl | hc
    · exact ⟨rfl, rfl⟩
    · exact (hsegs seg hseg).blanks c hc
  obtain ⟨r, k, tail, owner, hr, hhost, -, htail, -, hlead, rfl, rfl⟩ := hostOwner_some hosts ho
  obtain ⟨more₁, hmore₁, hiff₁, hurl⟩ := urlText_append ho (fun c hc => (hchars c hc).2) hmore hne hs'
  have hstart : (urlText s).dropWhile isBlank ≠ [] := by
    intro hnil
    rw [tail?, clean, hnil] at htail
    cases htail
  have hne₁ : segs.flatMap ('/' :: ·) ++ more₁ ≠ [] := by
    intro h
    obtain ⟨hp, hm⟩ := List.append_eq_nil_iff.mp h
    exact hne (by rw [hp, hiff₁.mp hm]; rfl)
  obtain ⟨more₂, hmore₂, hiff₂, hclean⟩ := @clean_append _ (s.toList.rtakeWhile isJsSpace) _ _ hstart
    (fun c hc => (hchars c hc).1) hmore₁ hne₁
  rw [← hurl, List.append_assoc] at hclean
  refine ⟨r, k, tail, owner, more₂, hhost, rfl, rfl, htail, hlead, hmore₂, fun h => hiff₂.mpr (hiff₁.mpr h), ?_⟩
  rw [parse_append hr hhost htail (tail_ne_nil hlead) hclean, List.append_assoc]
  rfl

/-- **What is written behind a URL keeps its host and its owner**, unless it runs into the owner. -/
theorem hostOwner_append (ho : hostOwner hosts (urlText s) = some (h, o)) (hgap : ownerIsLast s = true → gap s = [])
    {segs : List Chars} {more : Chars} (hsegs : ∀ seg ∈ segs, IsWrittenSegment seg) (hmore : IsMore more)
    (hs' : s'.toList = s.toList ++ (segs.flatMap ('/' :: ·) ++ more)) :
    hostOwner hosts (urlText s') = some (h, o) := by
  rcases eq_or_ne (segs.flatMap ('/' :: ·) ++ more) [] with hne | hne
  · rw [hne, List.append_nil] at hs'
    have hsame : urlText s' = urlText s := congrArg (fun cs => withScheme (trimChars cs)) hs'
    exact (congrArg (hostOwner hosts) hsame).trans ho
  · obtain ⟨r, k, tail, owner, more', hhost, hh, howner, htail, hlead, hmore', -, hr⟩ := parse_behind ho hsegs hmore hne hs'
    rw [hh, howner]
    have hlast : leadIsLast k tail = true → gap s = [] := fun hlast => hgap (by rw [ownerIsLast, htail]; exact hlast)
    have hsame := lead_behind hlead (encoded_gap s) (fun seg hseg => (hsegs seg hseg).toIsSegment) hmore' hlast
    have := hostOwner_of hosts hr hhost rfl hsame
    exact this

theorem publisher_encoded (w : Chars) (b : UInt8) : publisher (h, lower (w ++ escape b)) = none := by
  have hdigit : ∀ n < 16, (hexDigit n).toLower ≠ 't' := by decide
  have hself : dropGit (lower (w ++ escape b)) = lower (w ++ escape b) := by
    rw [dropGit_eq_self]
    rintro ⟨x, hx⟩
    have hlast := congrArg List.getLast? hx
    simp only [lower, escape, List.map_append, List.map_cons, List.map_nil, List.getLast?_append, List.getLast?_cons_cons,
      List.getLast?_singleton, Option.some_or, Option.some_inj] at hlast
    exact hdigit _ (Nat.mod_lt _ (by decide)) hlast.symm
  rw [publisher, hself, if_neg]
  intro hname
  have hmem : '%' ∈ lower (w ++ escape b) := by
    rw [lower_append]
    exact List.mem_append_right _ List.mem_cons_self
  exact (isOwnerChar_spec ((isOwnerName_spec hname).1 _ hmem)).2.2.2 rfl

/-- **A slash behind a gap is not the same publisher.** -/
theorem publisher_gap (ho : hostOwner hosts (urlText s) = some (h, o)) (hlast : ownerIsLast s = true) (hgap : gap s ≠ []) :
    ((hostOwner hosts (urlText (String.ofList (s.toList ++ ['/'])))).bind publisher) = none := by
  have hwritten : ∀ seg ∈ [([] : Chars)], IsWrittenSegment seg := fun seg hseg => by
    rw [List.mem_singleton.mp hseg]
    exact ⟨⟨by simp, rfl⟩, by simp⟩
  have hbehind : (String.ofList (s.toList ++ ['/'])).toList = s.toList ++ ([[]].flatMap ('/' :: ·) ++ []) := by simp
  obtain ⟨r, k, tail, owner, more', hhost, rfl, rfl, htail, hlead, -, hnil, hr⟩ :=
    parse_behind ho hwritten (by simp [IsMore]) (by simp) hbehind
  rw [ownerIsLast, htail] at hlast
  obtain ⟨w, b, hw⟩ := lead_gap hlead (encoded_gap s) hgap hlast
  rw [hnil rfl] at hr
  rw [hostOwner_of hosts hr hhost rfl hw, Option.bind_some]
  exact publisher_encoded w b

end Respellings

/-! ## One publisher, one spelling -/

section Stable

variable (P : Platform) (hosts : HostParser) {s c : String} {h o : Chars}

/-- Every URL of the web has a host of the web. -/
theorem web_host {r : Record} (hr : parse hosts (urlText s) = some r) (hkind : kindOf r.scheme ≠ .other)
    (ho : hostOwner hosts (urlText s) = some (h, o)) : hosts.web h = some h := by
  obtain ⟨r', -, -, -, hr', hhost, -, -, -, -, rfl, -⟩ := hostOwner_some hosts ho
  obtain rfl := Option.some_inj.mp (hr.symm.trans hr')
  have hweb := parse_web hr hhost hkind
  rwa [(hosts.web_text _ _ hweb).2.2]

/-- **A canonical publisher is one to itself** when its host is one of the web, and its owner ended in one `.git` at most. -/
theorem canonicalPublisher_canonical_iff (ho : hostOwner hosts (urlText s) = some (h, o))
    (hname : isOwnerName (String.ofList (dropGit o)) = true) :
    canonicalPublisher (P.withUrls hosts) (String.ofList (h ++ '/' :: dropGit o)) =
        some (String.ofList (h ++ '/' :: dropGit o)) ↔
      hosts.web h = some h ∧ ¬ ['.', 'g', 'i', 't', '.', 'g', 'i', 't'] <:+ o := by
  obtain ⟨r, -, -, -, -, hhost, htext, -, -, -, rfl, -⟩ := hostOwner_some hosts ho
  have hne : lower r.hostname ≠ [] := fun hnil => hhost (lower_eq_nil.mp hnil)
  rw [canonicalPublisher_eq, hostOwner_canonical (hostText_lower htext) hne hname, ← dropGit_dropGit]
  cases hweb : hosts.web (lower r.hostname) with
  | none => simp
  | some name =>
    obtain ⟨hnametext, -, -⟩ := hosts.web_text _ name hweb
    simp only [Option.map_some, Option.bind_some, publisher, Option.some_inj]
    constructor
    · intro heq
      split_ifs at heq with howner
      have hslash : '/' ∉ name := fun hmem => (hnametext.chars _ hmem).2.2.1 rfl
      have hslash' : '/' ∉ dropGit (dropGit o) := fun hmem =>
        (isOwnerChar_spec ((isOwnerName_spec howner).1 _ hmem)).2.1.2.1 rfl
      have hlist := String.ofList_injective (Option.some_inj.mp heq)
      rw [List.append_cons_inj_of_notMem hslash hslash'] at hlist
      exact ⟨hlist.1, hlist.2.2⟩
    · rintro ⟨rfl, hsame⟩
      rw [hsame, if_pos hname]

/-- **Publishers and their ids are canonical, and the same for every spelling,** exactly for the steady texts. -/
theorem canonicalPublisher_steady_iff (hc : canonicalPublisher (P.withUrls hosts) s = some c) :
    (canonicalPublisher (P.withUrls hosts) c = some c ∧ ∀ s', Respelling s s' →
      canonicalPublisher (P.withUrls hosts) s' = some c ∧
        publisherIdFor (P.withUrls hosts) s' = publisherIdFor (P.withUrls hosts) s) ↔ Steady hosts s := by
  have hspec := hc
  rw [canonicalPublisher_eq] at hspec
  obtain ⟨⟨h, o⟩, ho, hpublisher⟩ := Option.bind_eq_some_iff.mp hspec
  have hcanonical : isOwnerName (String.ofList (dropGit o)) = true ∧ c = String.ofList (h ++ '/' :: dropGit o) := by
    unfold publisher at hpublisher
    split_ifs at hpublisher with hname
    exact ⟨hname, (Option.some_inj.mp hpublisher).symm⟩
  obtain ⟨hname, hceq⟩ := hcanonical
  have hself := canonicalPublisher_canonical_iff P hosts ho hname
  rw [← hceq] at hself
  constructor
  · rintro ⟨hidem, hspell⟩
    obtain ⟨hhost, hsuffix⟩ := hself.mp hidem
    refine ⟨fun h' o' ho' => ?_, fun h' o' ho' => ?_, fun hlast => ?_⟩
    · obtain ⟨rfl, rfl⟩ := Prod.mk.inj (Option.some_inj.mp (ho.symm.trans ho'))
      exact hsuffix
    · obtain ⟨rfl, rfl⟩ := Prod.mk.inj (Option.some_inj.mp (ho.symm.trans ho'))
      exact hhost
    · by_contra hgap
      have hslash : Respelling s (String.ofList (s.toList ++ ['/'])) := by
        refine .append [[]] [] (fun seg hseg => ?_) (by simp [IsMore]) (by simp)
        rw [List.mem_singleton.mp hseg]
        exact ⟨⟨by simp, rfl⟩, by simp⟩
      have hsame := (hspell _ hslash).1
      rw [canonicalPublisher_eq, publisher_gap ho hlast hgap] at hsame
      cases hsame
  · rintro ⟨hsuffix, hhost, hgap⟩
    refine ⟨hself.mpr ⟨hhost h o ho, hsuffix h o ho⟩, fun s' hs' => ?_⟩
    have hsame : hostOwner hosts (urlText s') = hostOwner hosts (urlText s) := by
      cases hs' with
      | addScheme hadds => exact hostOwner_addScheme hadds
      | removeScheme hadds => exact (hostOwner_addScheme hadds).symm
      | letterCase hcase => exact hostOwner_letterCase hcase
      | append segs more hsegs hmore happend => exact (hostOwner_append ho hgap hsegs hmore happend).trans ho.symm
    have hpub : canonicalPublisher (P.withUrls hosts) s' = canonicalPublisher (P.withUrls hosts) s := by
      rw [canonicalPublisher_eq, canonicalPublisher_eq, hsame]
    exact ⟨hpub.trans hc, congrArg (Option.map publisherIdHex) hpub⟩

end Stable

/-! ## A repository -/

section Repository

def isDomainChar (d : Char) : Bool := ('a' ≤ d && d ≤ 'z') || isAsciiDigit d || d ∈ ['.', '-']

def domain (cs : Chars) : Option Chars :=
  if cs ≠ [] ∧ (lower cs).all isDomainChar = true then some (lower cs) else none

theorem domain_lower (cs : Chars) : domain (lower cs) = domain cs := by
  simp only [domain, lower_lower, ne_eq, lower_eq_nil]

theorem domain_text {cs h : Chars} (hh : domain cs = some h) : HostText h ∧ h ≠ [] ∧ lower h = h := by
  unfold domain at hh
  split_ifs at hh with hcs
  obtain rfl := Option.some_inj.mp hh
  have howner : ∀ d ∈ lower cs, isOwnerChar d = true ∧ d ∉ ['?', '#', '@', ':'] := by
    intro d hd
    have hdomain := List.all_eq_true.mp hcs.2 d hd
    have hnot : d ∉ ['?', '#', '@', ':'] := by
      have hall : ['?', '#', '@', ':'].all (!isDomainChar ·) = true := rfl
      intro hmem
      have := List.all_eq_true.mp hall d hmem
      rw [hdomain] at this
      cases this
    simp only [isDomainChar, Bool.or_eq_true, decide_eq_true_eq, List.mem_cons, List.not_mem_nil, or_false] at hdomain
    refine ⟨?_, hnot⟩
    simp only [isOwnerChar, Bool.or_eq_true, decide_eq_true_eq, List.mem_cons, List.not_mem_nil, or_false]
    tauto
  refine ⟨⟨fun d hd => ?_, Or.inl fun hmem => (howner _ hmem).2 (by simp)⟩, fun hnil => hcs.1 (lower_eq_nil.mp hnil),
    lower_lower cs⟩
  obtain ⟨hrange, hpath, -⟩ := isOwnerChar_spec (howner d hd).1
  have hnot := (howner d hd).2
  simp only [List.mem_cons, not_or] at hnot
  exact ⟨hrange.1, hrange.2, hpath.2.1, hpath.2.2, hnot.1, hnot.2.1, hnot.2.2.1⟩

theorem domain_self {cs h : Chars} (hh : domain cs = some h) : domain h = some h := by
  have hsome := hh
  unfold domain at hh
  split_ifs at hh
  rw [← Option.some_inj.mp hh, domain_lower, hsome, Option.some_inj.mp hh]

/-- Domains of letters, digits, dots and hyphens. -/
def domains : HostParser where
  web := domain
  other := domain
  web_lower := domain_lower
  other_lower cs := congrArg (Option.map lower) (domain_lower cs)
  web_text _ _ := domain_text
  other_text _ _ h := (domain_text h).1
  web_self _ _ := domain_self

/-- A platform that lowers letters. -/
def letterPlatform : Platform := Platform.ascii fun _ => none

/-- The repository URL of the source's header comment. -/
theorem steady_vellar : Steady domains "https://github.com/Vellar-Wallet/vellar-dapp.git" := by
  have ho : hostOwner domains (urlText "https://github.com/Vellar-Wallet/vellar-dapp.git") =
      some ("github.com".toList, "vellar-wallet".toList) := by
    decide
  refine ⟨fun h o ho' => ?_, fun h o ho' => ?_, fun _ => by decide⟩
  · obtain ⟨rfl, rfl⟩ := Prod.mk.inj (Option.some_inj.mp (ho.symm.trans ho'))
    decide
  · obtain ⟨r, hr, -⟩ := Option.bind_eq_some_iff.mp ho'
    have hscheme : (parse domains (urlText "https://github.com/Vellar-Wallet/vellar-dapp.git")).map Record.scheme =
        some "https".toList := by
      decide
    rw [hr, Option.map_some, Option.some_inj] at hscheme
    exact web_host domains hr (by rw [hscheme]; decide) ho'

theorem canonicalPublisher_vellar :
    canonicalPublisher (letterPlatform.withUrls domains) "github.com/vellar-wallet" = some "github.com/vellar-wallet" ∧
      ∀ s', Respelling "https://github.com/Vellar-Wallet/vellar-dapp.git" s' →
        canonicalPublisher (letterPlatform.withUrls domains) s' = some "github.com/vellar-wallet" ∧
          publisherIdFor (letterPlatform.withUrls domains) s' =
            publisherIdFor (letterPlatform.withUrls domains) "https://github.com/Vellar-Wallet/vellar-dapp.git" :=
  (canonicalPublisher_steady_iff letterPlatform domains (by decide)).mpr steady_vellar

/-- `github.com/foo.git` is the publisher of `github.com/foo.git.git`, but not its own. -/
theorem git_twice_not_canonical :
    ¬ ∀ (P : Platform) (hosts : HostParser) (s c : String), canonicalPublisher (P.withUrls hosts) s = some c →
      canonicalPublisher (P.withUrls hosts) c = some c ∧ ∀ s', Respelling s s' →
        canonicalPublisher (P.withUrls hosts) s' = some c ∧
          publisherIdFor (P.withUrls hosts) s' = publisherIdFor (P.withUrls hosts) s := by
  intro h
  have hfoo : canonicalPublisher (letterPlatform.withUrls domains) "github.com/foo.git" = some "github.com/foo" := by
    decide
  have hsame := (h letterPlatform domains "github.com/foo.git.git" "github.com/foo.git" (by decide)).1
  rw [hfoo] at hsame
  exact absurd hsame (by decide)

end Repository

end Vellar.Worker
