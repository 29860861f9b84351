import Vellar.Lib.Checked
import Vellar.Lib.Partial
import Vellar.Web.Sep7Origin
import Vellar.Web.Sep7RoundTrip

/-!
# Vellar.Web.Sep7Accepts — what an accepted payment request says

The fields of a text are its decoded pairs.  `sound_iff`: when the request that is returned says what they say, and no
more than can be paid and shown.
-/

set_option autoImplicit false

namespace Vellar.Web.Sep7

open WebText (Text text unit lowerUnit)
open Extension (Network)
open Extension.Sanitization (trim)

/-! ## What a text says -/

/-- The decoded fields after the question mark. -/
def queryFields (uri : Text) : Option (List (Text × Text)) :=
  (((uri.dropWhile fun c => c ≠ unit '?').drop 1).splitOn (unit '&')).mapM decodePair

def wholeOf (amount : Text) : Text := amount.takeWhile isDigit

def placesOf (amount : Text) : Text := (amount.dropWhile isDigit).drop 1

def digitsValue (digits : Text) : ℕ := digits.foldl (fun n c => n * 10 + (c.toNat - 48)) 0

/-- The stroops that a decimal denotes. -/
def stroops (amount : Text) : ℕ :=
  digitsValue (wholeOf amount) * 10 ^ 7 + digitsValue (placesOf amount) * 10 ^ (7 - (placesOf amount).length)

/-- The largest amount of 64 bits. -/
def MAX_STROOPS : ℕ := 2 ^ 63 - 1

/-- A decimal without a needless zero in front, of at most seven places. -/
structure IsCanonical (amount : Text) : Prop where
  written : amount = wholeOf amount ∨ amount = wholeOf amount ++ unit '.' :: placesOf amount ∧ placesOf amount ≠ []
  leading : wholeOf amount = text "0" ∨ (wholeOf amount).head?.any isNonZero = true
  digits : ∀ c ∈ wholeOf amount ++ placesOf amount, isDigit c = true
  places : (placesOf amount).length ≤ 7

def isControl (c : UInt16) : Bool := decide (c.toNat ≤ 0x1f ∨ 0x7f ≤ c.toNat ∧ c.toNat ≤ 0x9f)

def isZeroWidth (c : UInt16) : Bool := c.toNat ∈ [0x200b, 0x200c, 0x200d, 0xfeff]

/-- The Arabic letter mark. -/
def letterMark : UInt16 := 0x61c

/-- The marks, embeddings, overrides and isolates of the bidirectional algorithm. -/
def isBidi (c : UInt16) : Bool :=
  decide (c = letterMark ∨ c.toNat = 0x200e ∨ c.toNat = 0x200f ∨ 0x202a ≤ c.toNat ∧ c.toNat ≤ 0x202e ∨
    0x2066 ≤ c.toNat ∧ c.toNat ≤ 0x2069)

/-! ## What a request says of the fields -/

section Statement

variable (sdk : Sdk) (ctx : Sep7Context)

/-- The request says what the fields say. -/
structure Reflects (fields : List (Text × Text)) (request : Sep7PayRequest) : Prop where
  destination : fields.lookup (text "destination") = some request.destination
  kind : destinationKind sdk request.destination = some request.destinationKind
  amount : fields.lookup (text "amount") = request.amount
  code : fields.lookup (text "asset_code") = request.asset.issuer.map fun _ => request.asset.code
  issuer : fields.lookup (text "asset_issuer") = request.asset.issuer
  /-- An empty message is none. -/
  msg : given (fields.lookup (text "msg")) = request.msg
  originDomain : fields.lookup (text "origin_domain") = request.originDomain
  signature : fields.lookup (text "signature") = request.signature

/-- The domain's key has signed a part of the text that has all the fields but the signature. -/
def SignedBy (deps : OriginVerifyDeps) (uri : Text) (fields : List (Text × Text)) (request : Sep7PayRequest)
    (domain : Text) : Prop :=
  ∃ unsigned key signature, unsigned <+: uri ∧
    queryFields unsigned = some (fields.filter fun field => field.1 ≠ text "signature") ∧
    publishedKey sdk deps domain = some key ∧ request.signature = some signature ∧
    isSigned deps key unsigned signature = true

/-- What an accepted request promises. -/
structure Sound (input : Text) (request : Sep7PayRequest) : Prop where
  said : ∃ fields, queryFields (trim input) = some fields ∧ (fields.map Prod.fst).Nodup ∧
    (∀ field ∈ fields, field.1 ∈ PAY_PARAMS ∧ field.1 ∉ [text "memo", text "memo_type", text "callback"]) ∧
    Reflects sdk fields request ∧
    (fields.lookup (text "network_passphrase") = some ctx.networkPassphrase ∨
      fields.lookup (text "network_passphrase") = none ∧ ctx.network = .mainnet) ∧
    ∀ deps domain, (verifySep7Origin sdk deps request).1 = .verified domain →
      request.originDomain = some domain ∧ SignedBy sdk deps (trim input) fields request domain
  registered : request.asset ∈ assetsFor sdk ctx.network
  shown : ∀ msg ∈ request.msg, ∀ c ∈ msg, (isControl c || isZeroWidth c || isBidi c) = false
  paid : ∀ amount ∈ request.amount, IsCanonical amount ∧ 1 ≤ stroops amount ∧ stroops amount ≤ MAX_STROOPS

/-- The amount of the text fits in 64 bits, and its message has no Arabic letter mark. -/
def InRange (input : Text) : Prop :=
  ∀ fields ∈ queryFields (trim input),
    (∀ amount ∈ fields.lookup (text "amount"), stroops amount ≤ MAX_STROOPS) ∧
      ∀ msg ∈ fields.lookup (text "msg"), letterMark ∉ msg

end Statement

/-! ## Amounts and messages -/

theorem digitsValue_append (digits : Text) (c : UInt16) :
    digitsValue (digits ++ [c]) = digitsValue digits * 10 + (c.toNat - 48) := by
  rw [digitsValue, List.foldl_append]
  rfl

theorem digitsValue_pos {digits : Text} (h : digits.any isNonZero = true) : 0 < digitsValue digits := by
  induction digits using List.reverseRecOn with
  | nil => exact absurd h Bool.false_ne_true
  | append_singleton digits c ih =>
    rw [digitsValue_append]
    rw [List.any_append, Bool.or_eq_true] at h
    rcases h with h | h
    · have hpos := ih h
      omega
    · rw [List.any_cons, List.any_nil, Bool.or_false] at h
      have hc := of_decide_eq_true h
      omega

/-- What the pattern says. -/
theorem isCanonical_of_matches {amount : Text} (h : matchesAmount amount = true) : IsCanonical amount := by
  rw [matchesAmount, Bool.and_eq_true, Bool.or_eq_true, decide_eq_true_iff, Bool.and_eq_true] at h
  obtain ⟨hwhole, hfraction⟩ := h
  have hdigits : ∀ c ∈ wholeOf amount, isDigit c = true := fun c hc => List.mem_takeWhile_imp hc
  have hsplit : wholeOf amount ++ amount.dropWhile isDigit = amount := List.takeWhile_append_dropWhile
  have hleading := hwhole.imp_right And.left
  rcases hrest : amount.dropWhile isDigit with _ | ⟨c, places⟩
  · have hplaces : placesOf amount = [] := by
      rw [placesOf, hrest]
      rfl
    rw [hrest, List.append_nil] at hsplit
    refine ⟨Or.inl hsplit.symm, hleading, ?_, ?_⟩
    · rw [hplaces, List.append_nil]
      exact hdigits
    · rw [hplaces]
      exact Nat.zero_le _
  · have hplaces : placesOf amount = places := by
      rw [placesOf, hrest]
      rfl
    rw [hrest, isFraction, Bool.and_eq_true, Bool.and_eq_true, decide_eq_true_iff, decide_eq_true_iff] at hfraction
    obtain ⟨⟨rfl, hall⟩, hone, hseven⟩ := hfraction
    rw [hrest] at hsplit
    refine ⟨Or.inr ⟨?_, ?_⟩, hleading, ?_, ?_⟩
    · rw [hplaces]
      exact hsplit.symm
    · rw [hplaces]
      exact List.ne_nil_of_length_pos hone
    · rw [hplaces]
      intro c hc
      rcases List.mem_append.mp hc with hc | hc
      · exact hdigits c hc
      · exact List.all_eq_true.mp hall c hc
    · rw [hplaces]
      exact hseven

/-- An amount that is accepted is not nothing. -/
theorem one_le_stroops {amount : Text} (h : isValidAmount amount = true) : 1 ≤ stroops amount := by
  rw [isValidAmount, Bool.and_eq_true] at h
  have hcanonical := isCanonical_of_matches h.1
  have hany : (wholeOf amount ++ placesOf amount).any isNonZero = true := by
    obtain ⟨c, hc, hnonzero⟩ := List.any_eq_true.mp h.2
    refine List.any_eq_true.mpr ⟨c, ?_, hnonzero⟩
    rcases hcanonical.written with hwhole | ⟨hboth, -⟩
    · exact List.mem_append_left _ (hwhole ▸ hc)
    · rw [hboth] at hc
      rcases List.mem_append.mp hc with hc | hc
      · exact List.mem_append_left _ hc
      · rcases List.mem_cons.mp hc with rfl | hc
        · exact absurd hnonzero (by decide)
        · exact List.mem_append_right _ hc
  rw [List.any_append, Bool.or_eq_true] at hany
  rw [stroops]
  rcases hany with hwhole | hplaces
  · have hpos := digitsValue_pos hwhole
    omega
  · have hpos := Nat.mul_pos (digitsValue_pos hplaces) (Nat.pos_of_ne_zero (pow_ne_zero (7 - (placesOf amount).length)
      (show (10 : ℕ) ≠ 0 by decide)))
    omega

/-- The pattern of unsafe text leaves out one character. -/
theorem isUnsafe_eq {c : UInt16} (h : isUnsafe c = false) :
    (isControl c || isZeroWidth c || isBidi c) = false ↔ c ≠ letterMark := by
  have hc := of_decide_eq_false h
  rw [Bool.or_eq_false_iff, Bool.or_eq_false_iff, isControl, isZeroWidth, isBidi, decide_eq_false_iff_not,
    decide_eq_false_iff_not, decide_eq_false_iff_not]
  simp only [List.mem_cons, List.not_mem_nil, or_false]
  constructor
  · rintro ⟨-, hbidi⟩ rfl
    exact hbidi (Or.inl rfl)
  · intro hne
    refine ⟨⟨by omega, by omega⟩, ?_⟩
    rintro (heq | hrange)
    · exact hne heq
    · omega

/-! ## The fields -/

section Fields

variable {params params' : List (Text × Text)}

theorem readPair_ok {pair : Text} (h : readPair params pair = .ok params') :
    ∃ field, decodePair pair = some field ∧ params' = params ++ [field] ∧ field.1 ∈ PAY_PARAMS ∧
      params.lookup field.1 = none := by
  rw [readPair] at h
  split_ifs at h with hform
  · cases h
  rcases hkey : decode (keyOf pair) with _ | key
  · rw [hkey] at h
    cases h
  rcases hvalue : decode (valueOf pair) with _ | value
  · rw [hkey, hvalue] at h
    cases h
  rw [hkey, hvalue] at h
  dsimp only at h
  split_ifs at h with hknown hnew
  · cases h
  · refine ⟨(key, value), ?_, (Except.ok.inj h).symm, hknown, Option.not_isSome_iff_eq_none.mp hnew⟩
    rw [decodePair, if_neg hform, hkey, hvalue]
    rfl
  · cases h

/-- The fields that are read are the decoded pairs, each of another key. -/
theorem foldlM_readPair_ok {pairs : List Text} (h : pairs.foldlM readPair params = .ok params')
    (hnodup : (params.map Prod.fst).Nodup) :
    ∃ fields, pairs.mapM decodePair = some fields ∧ params' = params ++ fields ∧
      (∀ field ∈ fields, field.1 ∈ PAY_PARAMS) ∧ (params'.map Prod.fst).Nodup := by
  induction pairs generalizing params with
  | nil =>
    obtain rfl := Except.ok.inj h
    exact ⟨[], rfl, (List.append_nil _).symm, fun _ hf => absurd hf List.not_mem_nil, hnodup⟩
  | cons pair pairs ih =>
    rw [List.foldlM_cons] at h
    obtain ⟨params₁, hpair, h⟩ := Checked.bind_ok.mp h
    obtain ⟨field, hfield, rfl, hknown, hnew⟩ := readPair_ok hpair
    have hnodup' : ((params ++ [field]).map Prod.fst).Nodup := by
      rw [List.map_append, List.nodup_append]
      refine ⟨hnodup, List.nodup_singleton _, ?_⟩
      intro key hkey key' hkey' heq
      obtain ⟨p, hp, rfl⟩ := List.mem_map.mp hkey
      obtain rfl := List.mem_singleton.mp hkey'
      have hne := List.lookup_eq_none_iff.mp hnew p hp
      exact absurd heq.symm (by simpa using hne)
    obtain ⟨fields, hfields, rfl, hall, hdistinct⟩ := ih h hnodup'
    refine ⟨field :: fields, ?_, ?_, List.forall_mem_cons.mpr ⟨hknown, hall⟩, hdistinct⟩
    · exact Partial.mapM_eq_some.mpr (List.Forall₂.cons hfield (Partial.mapM_eq_some.mp hfields))
    · rw [List.append_assoc, List.singleton_append]

theorem afterScheme_ok {uri rest : Text} (h : afterScheme uri = .ok rest) :
    rest = uri.drop SEP7_SCHEME.length ∧ (uri.take SEP7_SCHEME.length).map lowerUnit = SEP7_SCHEME := by
  rw [afterScheme] at h
  split_ifs at h with hlong hscheme
  · cases h
  · cases h
  · exact ⟨(Except.ok.inj h).symm, not_not.mp hscheme⟩

theorem queryOf_ok {rest query : Text} (h : queryOf rest = .ok query) :
    (rest.takeWhile fun c => c ≠ unit '?') = text "pay" ∧
      query = (rest.dropWhile fun c => c ≠ unit '?').drop 1 ∧ 1 < (rest.dropWhile fun c => c ≠ unit '?').length := by
  rw [queryOf] at h
  split_ifs at h with hpay htx hlength hhash
  · cases h
  · cases h
  · cases h
  · cases h
  · exact ⟨not_not.mp hpay, (Except.ok.inj h).symm, not_le.mp hlength⟩

/-- No unit of the scheme is a question mark or an ampersand, in any case. -/
theorem scheme_units {uri : Text} (h : (uri.take SEP7_SCHEME.length).map lowerUnit = SEP7_SCHEME) :
    ∀ c ∈ uri.take SEP7_SCHEME.length, c ≠ unit '?' ∧ c ≠ unit '&' := by
  intro c hc
  have hlower : lowerUnit c ∈ SEP7_SCHEME := h ▸ List.mem_map_of_mem hc
  constructor
  · rintro rfl
    exact absurd hlower (by decide)
  · rintro rfl
    exact absurd hlower (by decide)

/-- A request of the form that is accepted: its head has no ampersand, and its query comes after it. -/
theorem shape_ok {uri rest query : Text} (hrest : afterScheme uri = .ok rest) (hquery : queryOf rest = .ok query) :
    ∃ head, uri = head ++ unit '?' :: query ∧ unit '?' ∉ head ∧ unit '&' ∉ head := by
  obtain ⟨rfl, hscheme⟩ := afterScheme_ok hrest
  obtain ⟨hpay, rfl, hlength⟩ := queryOf_ok hquery
  have hunits := scheme_units hscheme
  have hsplit : ((uri.drop SEP7_SCHEME.length).takeWhile fun c => c ≠ unit '?') ++
      ((uri.drop SEP7_SCHEME.length).dropWhile fun c => c ≠ unit '?') = uri.drop SEP7_SCHEME.length :=
    List.takeWhile_append_dropWhile
  have hhead := List.head?_dropWhile_not (fun c => decide (c ≠ unit '?')) (uri.drop SEP7_SCHEME.length)
  rw [hpay] at hsplit
  rcases hdrop : (uri.drop SEP7_SCHEME.length).dropWhile (fun c => c ≠ unit '?') with _ | ⟨c, tail⟩
  · rw [hdrop] at hlength
    exact absurd hlength (by decide)
  · rw [hdrop] at hhead hsplit
    obtain rfl : c = unit '?' := by simpa using hhead
    refine ⟨uri.take SEP7_SCHEME.length ++ text "pay", ?_, ?_, ?_⟩
    · rw [List.append_assoc]
      exact (congrArg _ hsplit).trans (List.take_append_drop _ _) |>.symm
    · intro hmem
      rcases List.mem_append.mp hmem with hmem | hmem
      · exact (hunits _ hmem).1 rfl
      · exact absurd hmem (by decide)
    · intro hmem
      rcases List.mem_append.mp hmem with hmem | hmem
      · exact (hunits _ hmem).2 rfl
      · exact absurd hmem (by decide)

theorem queryFields_eq {head query : Text} (h : unit '?' ∉ head) :
    queryFields (head ++ unit '?' :: query) = (query.splitOn (unit '&')).mapM decodePair := by
  have hall : ∀ c ∈ head, decide (c ≠ unit '?') = true := by
    intro c hc
    refine decide_eq_true ?_
    rintro rfl
    exact h hc
  rw [queryFields, List.dropWhile_append_of_pos hall, List.dropWhile_cons_of_neg (by simp)]
  rfl

/-- The text that is signed has the fields before the signature. -/
theorem queryFields_unsigned {head query unsigned value : Text} {fields : List (Text × Text)}
    (hhead : unit '?' ∉ head) (hamp : unit '&' ∉ head)
    (heq : head ++ unit '?' :: query = unsigned ++ unit '&' :: (text "signature=" ++ value))
    (hvalue : unit '&' ∉ value) (hfields : (query.splitOn (unit '&')).mapM decodePair = some fields)
    (hnodup : (fields.map Prod.fst).Nodup) :
    queryFields unsigned = some (fields.filter fun field => field.1 ≠ text "signature") := by
  -- the ampersand that is cut at stands after the question mark
  obtain ⟨before, rfl, hquery⟩ : ∃ before, unsigned = head ++ unit '?' :: before ∧
      query = before ++ unit '&' :: (text "signature=" ++ value) := by
    rcases List.append_eq_append_iff.mp heq with ⟨mid, hunsigned, hmid⟩ | ⟨mid, hhead', hmid⟩
    · cases mid with
      | nil =>
        have hfirst := (List.cons_eq_cons.mp hmid).1
        exact absurd hfirst (by decide)
      | cons c mid =>
        obtain ⟨rfl, hrest⟩ := List.cons_eq_cons.mp hmid
        exact ⟨mid, hunsigned, hrest⟩
    · exfalso
      cases mid with
      | nil =>
        have hfirst := (List.cons_eq_cons.mp hmid).1
        exact absurd hfirst (by decide)
      | cons c mid =>
        obtain ⟨rfl, -⟩ := List.cons_eq_cons.mp hmid
        rw [hhead'] at hamp
        exact hamp (List.mem_append_right _ List.mem_cons_self)
  have hlast : unit '&' ∉ text "signature=" ++ value := by
    intro hmem
    rcases List.mem_append.mp hmem with hmem | hmem
    · exact absurd hmem (by decide)
    · exact hvalue hmem
  rw [hquery, List.splitOn_append_cons_self, List.splitOn_eq_singleton hlast, List.mapM_append] at hfields
  obtain ⟨front, hfront, hfields⟩ := Option.bind_eq_some_iff.mp hfields
  obtain ⟨back, hback, hfields⟩ := Option.bind_eq_some_iff.mp hfields
  obtain rfl := Option.some.inj hfields
  rw [queryFields_eq hhead, hfront]
  -- the last pair is the signature, and no other one is
  obtain ⟨field, hfield, hkey⟩ : ∃ field, back = [field] ∧ field.1 = text "signature" := by
    cases Partial.mapM_eq_some.mp hback with
    | @cons _ field _ _ hpair hnil =>
      cases hnil
      refine ⟨field, rfl, ?_⟩
      have hkeyOf : keyOf (text "signature=" ++ value) = text "signature" := rfl
      rw [decodePair, hkeyOf] at hpair
      split_ifs at hpair
      have hdecode : decode (text "signature") = some (text "signature") :=
        (decode_eq (by decide)).trans (PercentCoding.decode_plain (by decide))
      rw [hdecode, Option.bind_some] at hpair
      obtain ⟨v, -, rfl⟩ := Option.map_eq_some_iff.mp hpair
      rfl
  subst hfield
  rw [List.map_append, List.nodup_append] at hnodup
  have hothers : ∀ f ∈ front, decide (f.1 ≠ text "signature") = true := by
    intro f hf
    refine decide_eq_true fun hsame => ?_
    exact hnodup.2.2 f.1 (List.mem_map_of_mem hf) field.1 (List.mem_singleton_self _) (hsame.trans hkey.symm)
  rw [List.filter_append, List.filter_eq_self.mpr hothers, List.filter_cons_of_neg (by simp [hkey]), List.filter_nil,
    List.append_nil]

end Fields

/-! ## The request -/

section Request

variable {sdk : Sdk} {ctx : Sep7Context} {params : List (Text × Text)}

theorem readDestination_ok {destination : Text} {kind : DestinationKind}
    (h : readDestination sdk params = .ok (destination, kind)) :
    params.lookup (text "destination") = some destination ∧ destinationKind sdk destination = some kind := by
  rw [readDestination] at h
  rcases hgiven : given (params.lookup (text "destination")) with _ | d
  · rw [hgiven] at h
    cases h
  rw [hgiven] at h
  dsimp only at h
  split_ifs at h with hmuxed
  · cases h
  rcases hkind : destinationKind sdk d with _ | k
  · rw [hkind] at h
    cases h
  rw [hkind] at h
  obtain ⟨rfl, rfl⟩ := Prod.mk.inj (Except.ok.inj h)
  exact ⟨(Option.filter_eq_some_iff.mp hgiven).1, hkind⟩

theorem checkUnsupported_ok (h : checkUnsupported params = .ok ()) :
    ∀ key ∈ [text "memo", text "memo_type", text "callback"], params.lookup key = none := by
  rw [checkUnsupported] at h
  split_ifs at h with hcallback hmemo
  · cases h
  · cases h
  · rw [not_or] at hmemo
    intro key hkey
    simp only [List.mem_cons, List.not_mem_nil, or_false] at hkey
    rcases hkey with rfl | rfl | rfl
    · exact Option.not_isSome_iff_eq_none.mp hmemo.1
    · exact Option.not_isSome_iff_eq_none.mp hmemo.2
    · exact Option.not_isSome_iff_eq_none.mp hcallback

theorem checkNetwork_ok (h : checkNetwork ctx params = .ok ()) :
    params.lookup (text "network_passphrase") = some ctx.networkPassphrase ∨
      params.lookup (text "network_passphrase") = none ∧ ctx.network = .mainnet := by
  rw [checkNetwork] at h
  rcases hlookup : params.lookup (text "network_passphrase") with _ | passphrase
  · rw [hlookup] at h
    dsimp only at h
    split_ifs at h with hmain
    · cases h
    · exact Or.inr ⟨rfl, not_not.mp hmain⟩
  · rw [hlookup] at h
    dsimp only at h
    split_ifs at h with hsame
    · cases h
    · exact Or.inl (congrArg some (not_not.mp hsame))

theorem readAsset_ok {network : Network} {asset : RegisteredAsset} (h : readAsset sdk network params = .ok asset) :
    asset ∈ assetsFor sdk network ∧ params.lookup (text "asset_code") = (asset.issuer.map fun _ => asset.code) ∧
      params.lookup (text "asset_issuer") = asset.issuer := by
  rw [readAsset] at h
  rcases hcode : params.lookup (text "asset_code") with _ | code <;>
    rcases hissuer : params.lookup (text "asset_issuer") with _ | issuer <;> rw [hcode, hissuer] at h
  · obtain rfl := Except.ok.inj h
    exact ⟨List.mem_cons_self, rfl, rfl⟩
  · cases h
  · cases h
  · dsimp only at h
    split_ifs at h with hform
    · cases h
    rcases hfind : findClassicAsset sdk network code issuer with _ | found
    · rw [hfind] at h
      cases h
    rw [hfind] at h
    obtain rfl := Except.ok.inj h
    have hmatch := List.find?_some hfind
    rw [Bool.and_eq_true, decide_eq_true_iff, decide_eq_true_iff] at hmatch
    refine ⟨List.mem_of_find?_eq_some hfind, ?_, hmatch.2.symm⟩
    rw [hmatch.2, hmatch.1]
    rfl

theorem readAmount_ok {amount : Option Text} (h : readAmount params = .ok amount) :
    params.lookup (text "amount") = amount ∧ ∀ a ∈ amount, isValidAmount a = true := by
  rw [readAmount] at h
  rcases hlookup : params.lookup (text "amount") with _ | a
  · rw [hlookup] at h
    obtain rfl := Except.ok.inj h
    exact ⟨rfl, fun a ha => absurd ha (Option.not_mem_none a)⟩
  · rw [hlookup] at h
    dsimp only at h
    split_ifs at h with hvalid
    · obtain rfl := Except.ok.inj h
      exact ⟨rfl, fun a' ha' => Option.some.inj ha' ▸ hvalid⟩
    · cases h

theorem readMsg_ok {msg : Option Text} (h : readMsg params = .ok msg) :
    params.lookup (text "msg") = msg ∧ ∀ m ∈ msg, ∀ c ∈ m, isUnsafe c = false := by
  rw [readMsg] at h
  rcases hlookup : params.lookup (text "msg") with _ | m
  · rw [hlookup] at h
    obtain rfl := Except.ok.inj h
    exact ⟨rfl, fun m hm => absurd hm (Option.not_mem_none m)⟩
  · rw [hlookup] at h
    dsimp only at h
    split_ifs at h with hunsafe
    · cases h
    · obtain rfl := Except.ok.inj h
      refine ⟨rfl, fun m' hm' c hc => ?_⟩
      obtain rfl := Option.some.inj hm'
      have hall := Bool.eq_false_iff.mpr (not_or.mp hunsafe).2
      exact Bool.eq_false_iff.mpr fun hbad => Bool.false_ne_true (hall.symm.trans (List.any_eq_true.mpr ⟨c, hc, hbad⟩))

/-- What the fields of an accepted request are. -/
structure ReadFrom (sdk : Sdk) (ctx : Sep7Context) (uri : Text) (params : List (Text × Text))
    (request : Sep7PayRequest) : Prop where
  uri : request.uri = uri
  reflects : Reflects sdk params request
  network : params.lookup (text "network_passphrase") = some ctx.networkPassphrase ∨
    params.lookup (text "network_passphrase") = none ∧ ctx.network = .mainnet
  registered : request.asset ∈ assetsFor sdk ctx.network
  unsupported : ∀ key ∈ [text "memo", text "memo_type", text "callback"], params.lookup key = none
  amount : ∀ amount ∈ request.amount, isValidAmount amount = true
  msg : ∀ msg ∈ request.msg, ∀ c ∈ msg, isUnsafe c = false

theorem readRequest_ok {uri : Text} {request : Sep7PayRequest} (h : readRequest sdk ctx uri params = .ok request) :
    ReadFrom sdk ctx uri params request := by
  rw [readRequest] at h
  obtain ⟨⟨destination, kind⟩, hdestination, h⟩ := Checked.bind_ok.mp h
  obtain ⟨hunsupported, h⟩ := Checked.check_bind_ok.mp h
  obtain ⟨hnetwork, h⟩ := Checked.check_bind_ok.mp h
  obtain ⟨asset, hasset, h⟩ := Checked.bind_ok.mp h
  obtain ⟨amount, hamount, h⟩ := Checked.bind_ok.mp h
  obtain ⟨msg, hmsg, h⟩ := Checked.bind_ok.mp h
  obtain ⟨-, h⟩ := Checked.check_bind_ok.mp h
  obtain rfl := Except.ok.inj h
  obtain ⟨hlookup, hkind⟩ := readDestination_ok hdestination
  obtain ⟨hregistered, hcode, hissuer⟩ := readAsset_ok hasset
  obtain ⟨hamount, hvalid⟩ := readAmount_ok hamount
  obtain ⟨hmsg, hsafe⟩ := readMsg_ok hmsg
  refine ⟨rfl, ⟨hlookup, hkind, hamount, hcode, hissuer, congrArg given hmsg, rfl, rfl⟩, checkNetwork_ok hnetwork,
    hregistered, checkUnsupported_ok hunsupported, hvalid, fun m hm => ?_⟩
  exact hsafe m (Option.filter_eq_some_iff.mp hm).1

end Request

/-! ## Accepted requests -/

section Main

variable {sdk : Sdk} {ctx : Sep7Context} {input : Text} {request : Sep7PayRequest}

/-- An accepted text and its fields. -/
theorem parsePayUri_ok (h : parsePayUri sdk (some input) ctx = .ok request) :
    ∃ head query params, trim input = head ++ unit '?' :: query ∧ unit '?' ∉ head ∧ unit '&' ∉ head ∧
      (query.splitOn (unit '&')).mapM decodePair = some params ∧ (params.map Prod.fst).Nodup ∧
      (∀ field ∈ params, field.1 ∈ PAY_PARAMS) ∧ ReadFrom sdk ctx (trim input) params request := by
  rw [parsePayUri] at h
  obtain ⟨rest, hrest, h⟩ := Checked.bind_ok.mp h
  obtain ⟨query, hquery, h⟩ := Checked.bind_ok.mp h
  obtain ⟨params, hparams, h⟩ := Checked.bind_ok.mp h
  obtain ⟨head, htrim, hhead, hamp⟩ := shape_ok hrest hquery
  rw [readParams] at hparams
  obtain ⟨fields, hfields, heq, hknown, hnodup⟩ := foldlM_readPair_ok hparams List.nodup_nil
  rw [List.nil_append] at heq
  subst heq
  exact ⟨head, query, params, htrim, hhead, hamp, hfields, hnodup, hknown, readRequest_ok h⟩

/-- What is verified is signed by the domain. -/
theorem signed_of_verified {head query : Text} {params : List (Text × Text)} {deps : OriginVerifyDeps} {domain : Text}
    (htrim : trim input = head ++ unit '?' :: query) (hhead : unit '?' ∉ head) (hamp : unit '&' ∉ head)
    (hfields : (query.splitOn (unit '&')).mapM decodePair = some params) (hnodup : (params.map Prod.fst).Nodup)
    (huri : request.uri = trim input) (h : (verifySep7Origin sdk deps request).1 = .verified domain) :
    request.originDomain = some domain ∧ SignedBy sdk deps (trim input) params request domain := by
  obtain ⟨horigin, unsigned, key, signature, hstrip, hsignature, hkey, hsigned⟩ := exists_verified h
  obtain ⟨value, heq, hvalue⟩ := stripSignature_spec hstrip
  rw [huri] at heq
  refine ⟨horigin, unsigned, key, signature, ⟨_, heq.symm⟩, ?_, hkey, hsignature, hsigned⟩
  exact queryFields_unsigned hhead hamp (htrim.symm.trans heq) hvalue hfields hnodup

/-- An accepted request is sound exactly where the amount of the text fits in 64 bits and its message has no Arabic
letter mark. -/
theorem sound_iff (h : parsePayUri sdk (some input) ctx = .ok request) :
    Sound sdk ctx input request ↔ InRange input := by
  obtain ⟨head, query, params, htrim, hhead, hamp, hfields, hnodup, hknown, hread⟩ := parsePayUri_ok h
  have hquery : queryFields (trim input) = some params := by rw [htrim, queryFields_eq hhead, hfields]
  constructor
  · intro hsound fields hsome
    obtain rfl : params = fields := Option.some.inj (hquery.symm.trans hsome)
    refine ⟨fun amount hamount => ?_, fun msg hmsg hmark => ?_⟩
    · rw [hread.reflects.amount] at hamount
      exact (hsound.paid amount hamount).2.2
    · have hshown : msg ∈ request.msg := by
        rw [← hread.reflects.msg, hmsg]
        exact Option.filter_some_pos (decide_eq_true (List.ne_nil_of_mem hmark))
      have hbidi := hsound.shown msg hshown letterMark hmark
      exact absurd hbidi (by decide)
  · intro hrange
    obtain ⟨hamounts, hmsgs⟩ := hrange params hquery
    refine ⟨⟨params, hquery, hnodup, fun field hfield => ⟨hknown field hfield, fun hkey => ?_⟩, hread.reflects,
        hread.network, fun deps domain hverified => ?_⟩,
      hread.registered, fun msg hmsg c hc => ?_, fun amount hamount => ?_⟩
    · have hnone := List.lookup_eq_none_iff.mp (hread.unsupported field.1 hkey) field hfield
      simp at hnone
    · exact signed_of_verified htrim hhead hamp hfields hnodup hread.uri hverified
    · have hlookup : params.lookup (text "msg") = some msg := by
        have hgiven := hread.reflects.msg.trans hmsg
        exact (Option.filter_eq_some_iff.mp hgiven).1
      refine (isUnsafe_eq (hread.msg msg hmsg c hc)).mpr ?_
      rintro rfl
      exact hmsgs msg hlookup hc
    · have hvalid := hread.amount amount hamount
      have hmatches : matchesAmount amount = true := (Bool.and_eq_true_iff.mp hvalid).1
      exact ⟨isCanonical_of_matches hmatches, one_le_stroops hvalid,
        hamounts amount (hread.reflects.amount.trans hamount)⟩

end Main

/-! ## An amount beyond 64 bits -/

/-- A payment on the public network. -/
def payText (amount : String) : Text :=
  text "web+stellar:pay?destination=" ++ exampleContract ++ text "&amount=" ++ text amount ++
    text "&msg=coffee+%26+cake"

def publicContext : Sep7Context := ⟨.mainnet, text "Public Global Stellar Network ; September 2015"⟩

theorem exists_parsed {amount : String}
    (h : (match parsePayUri exampleSdk (some (payText amount)) publicContext with
      | .ok request => decide (request.amount = some (text amount))
      | .error _ => false) = true) :
    ∃ request, parsePayUri exampleSdk (some (payText amount)) publicContext = .ok request ∧
      request.amount = some (text amount) := by
  rcases hparse : parsePayUri exampleSdk (some (payText amount)) publicContext with error | request
  · rw [hparse] at h
    exact absurd h Bool.false_ne_true
  · rw [hparse] at h
    exact ⟨request, rfl, of_decide_eq_true h⟩

instance (input : Text) : Decidable (InRange input) :=
  Option.decidableForallMem (p := fun (fields : List (Text × Text)) =>
    (∀ amount ∈ fields.lookup (text "amount"), stroops amount ≤ MAX_STROOPS) ∧
      ∀ msg ∈ fields.lookup (text "msg"), letterMark ∉ msg) _

theorem sound_example : ∃ request, parsePayUri exampleSdk (some (payText "12.5")) publicContext = .ok request ∧
    Sound exampleSdk publicContext (payText "12.5") request := by
  obtain ⟨request, hparse, -⟩ := @exists_parsed "12.5" (by decide +kernel)
  exact ⟨request, hparse, (sound_iff hparse).mpr (by decide +kernel)⟩

/-- Twelve nines are more than can be paid. -/
theorem amount_beyond_limit :
    ¬ ∀ (input : Text) (request : Sep7PayRequest), parsePayUri exampleSdk (some input) publicContext = .ok request →
      Sound exampleSdk publicContext input request := by
  intro hall
  obtain ⟨request, hparse, hamount⟩ := @exists_parsed "999999999999" (by decide +kernel)
  have hpaid := ((hall _ request hparse).paid (text "999999999999") hamount).2.2
  exact absurd hpaid (by decide +kernel)

end Vellar.Web.Sep7
