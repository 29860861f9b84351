import Vellar.Lib.Partial
import Vellar.Web.Sep7

/-!
# Vellar.Web.Sep7RoundTrip — a payment request is read as it was built

The fields of a request are slots, of which those that are given are written in their order.
-/

set_option autoImplicit false

namespace Vellar.Web.Sep7

open WebText (Text text unit lowerUnit)
open PercentCoding
open Extension (Network)
open Extension.Sanitization (isJsSpace trim)

/-! ## The units of a request -/

/-- What the pairs are made of. -/
def IsPairUnit (c : UInt16) : Prop := c = unit '=' ∨ IsCoded c

theorem isPairUnit_toNat {c : UInt16} (h : IsPairUnit c) :
    33 ≤ c.toNat ∧ c.toNat ≤ 126 ∧ c ≠ unit '&' ∧ c ≠ unit '#' ∧ c ≠ unit '+' := by
  have hamp : (unit '&').toNat = 38 := rfl
  have hhash : (unit '#').toNat = 35 := rfl
  have hplus : (unit '+').toNat = 43 := rfl
  have hrange : 33 ≤ c.toNat ∧ c.toNat ≤ 126 ∧ c.toNat ≠ 38 ∧ c.toNat ≠ 35 ∧ c.toNat ≠ 43 := by
    rcases h with rfl | rfl | h
    · decide
    · decide
    · have hn := of_decide_eq_true h
      simp only [List.mem_cons, List.not_mem_nil, or_false] at hn
      omega
  refine ⟨hrange.1, hrange.2.1, ?_, ?_, ?_⟩
  · rintro rfl
    exact hrange.2.2.1 hamp
  · rintro rfl
    exact hrange.2.2.2.1 hhash
  · rintro rfl
    exact hrange.2.2.2.2 hplus

theorem not_isJsSpace {c : UInt16} (h : 33 ≤ c.toNat ∧ c.toNat ≤ 126) : isJsSpace c = false := by
  rw [isJsSpace, Bool.or_eq_false_iff, decide_eq_false_iff_not, Bool.and_eq_false_iff, decide_eq_false_iff_not]
  refine ⟨?_, Or.inl (by omega)⟩
  simp only [List.mem_cons, List.not_mem_nil, or_false]
  omega

theorem trim_eq_self {t : Text} (h : ∀ c ∈ t, isJsSpace c = false) : trim t = t := by
  have hdrop : t.dropWhile isJsSpace = t := by
    cases t with
    | nil => rfl
    | cons c t => exact List.dropWhile_cons_of_neg (Bool.eq_false_iff.mp (h c List.mem_cons_self))
  rw [trim, hdrop, List.rdropWhile_eq_self_iff]
  intro hne
  exact Bool.eq_false_iff.mp (h _ (List.getLast_mem hne))

/-- The keys are in lower case. -/
theorem isPairUnit_key : ∀ key ∈ PAY_PARAMS, key ≠ [] ∧ (key.all fun c => isUnreserved c.toNat) = true := by
  decide

theorem isUnreserved_plain {c : UInt16} (h : isUnreserved c.toNat = true) :
    c ≠ unit '%' ∧ c ≠ unit '=' ∧ c ≠ unit '+' := by
  refine ⟨?_, ?_, ?_⟩ <;> rintro rfl <;> exact absurd h (by decide)

/-! ## The pairs of a request -/

theorem mem_key {key : Text} (h : key ∈ PAY_PARAMS) {c : UInt16} (hc : c ∈ key) : isUnreserved c.toNat = true :=
  List.all_eq_true.mp (isPairUnit_key key h).2 c hc

theorem pairText_eq {field : Text × Text} {pair : Text} (h : pairText field = some pair) :
    ∃ value, encodeURIComponent field.2 = some value ∧ pair = field.1 ++ unit '=' :: value := by
  obtain ⟨value, hvalue, rfl⟩ := Option.map_eq_some_iff.mp h
  exact ⟨value, hvalue, rfl⟩

theorem isPairUnit_pair {field : Text × Text} {pair : Text} (hkey : field.1 ∈ PAY_PARAMS)
    (h : pairText field = some pair) : ∀ c ∈ pair, IsPairUnit c := by
  obtain ⟨value, hvalue, rfl⟩ := pairText_eq h
  intro c hc
  rcases List.mem_append.mp hc with hc | hc
  · exact Or.inr (Or.inr (mem_key hkey hc))
  · rcases List.mem_cons.mp hc with rfl | hc
    · exact Or.inl rfl
    · exact Or.inr (isCoded_encode hvalue c hc)

theorem decode_eq {t : Text} (h : unit '+' ∉ t) : decode t = decodeURIComponent t := by
  have hmap : (t.map fun c => if c = unit '+' then unit ' ' else c) = t := by
    refine (List.map_congr_left fun c hc => if_neg ?_).trans (List.map_id' _)
    rintro rfl
    exact h hc
  rw [decode, hmap]

/-- A pair is read as the field that it was written for. -/
theorem readPair_pairText {params : List (Text × Text)} {field : Text × Text} {pair : Text}
    (hkey : field.1 ∈ PAY_PARAMS) (hnew : params.lookup field.1 = none) (h : pairText field = some pair) :
    readPair params pair = .ok (params ++ [field]) := by
  obtain ⟨value, hvalue, rfl⟩ := pairText_eq h
  have hkeyOf : keyOf (field.1 ++ unit '=' :: value) = field.1 := by
    have hall : ∀ c ∈ field.1, decide (c ≠ unit '=') = true := fun c hc =>
      decide_eq_true (isUnreserved_plain (mem_key hkey hc)).2.1
    rw [keyOf, List.takeWhile_append_of_pos hall, List.takeWhile_cons_of_neg (by simp), List.append_nil]
  have hvalueOf : valueOf (field.1 ++ unit '=' :: value) = value := by
    rw [valueOf, hkeyOf, ← List.drop_drop, List.drop_left]
    rfl
  have hkey' : decode field.1 = some field.1 := by
    rw [decode_eq fun hc => (isUnreserved_plain (mem_key hkey hc)).2.2 rfl]
    exact decode_plain fun hc => (isUnreserved_plain (mem_key hkey hc)).1 rfl
  have hvalue' : decode value = some field.2 := by
    rw [decode_eq fun hc => (isPairUnit_toNat (Or.inr (isCoded_encode hvalue _ hc))).2.2.2.2 rfl]
    exact decode_encode hvalue
  have hpair : ¬ (field.1 = [] ∨ field.1 = field.1 ++ unit '=' :: value) := by
    rintro (hnil | hself)
    · exact (isPairUnit_key _ hkey).1 hnil
    · exact absurd (List.self_eq_append_right.mp hself) (List.cons_ne_nil _ _)
  rw [readPair, hkeyOf, hvalueOf, if_neg hpair, hkey', hvalue']
  dsimp only
  rw [if_neg (not_not.mpr hkey), hnew, if_neg (by simp)]

theorem foldlM_readPair {fields : List (Text × Text)} {pairs : List Text}
    (h : List.Forall₂ (fun field pair => pairText field = some pair) fields pairs) {params : List (Text × Text)}
    (hkeys : ∀ field ∈ fields, field.1 ∈ PAY_PARAMS) (hnodup : ((params ++ fields).map Prod.fst).Nodup) :
    pairs.foldlM readPair params = .ok (params ++ fields) := by
  induction h generalizing params with
  | nil => rw [List.append_nil]; rfl
  | @cons field pair fields pairs hpair _ ih =>
    have hnew : params.lookup field.1 = none := by
      rw [List.lookup_eq_none_iff]
      intro p hp
      rw [List.map_append, List.map_cons, List.nodup_append] at hnodup
      have hne := hnodup.2.2 p.1 (List.mem_map_of_mem hp) field.1 List.mem_cons_self
      simpa using Ne.symm hne
    have hread := readPair_pairText (hkeys field List.mem_cons_self) hnew hpair
    have hsplit : params ++ field :: fields = (params ++ [field]) ++ fields := by
      rw [List.append_assoc, List.singleton_append]
    rw [List.foldlM_cons, hread, hsplit]
    rw [hsplit] at hnodup
    exact ih (fun f hf => hkeys f (List.mem_cons_of_mem _ hf)) hnodup

/-! ## The fields that are given -/

/-- The slots that have a value, in their order. -/
def present (slots : List (Text × Option Text)) : List (Text × Text) :=
  slots.filterMap fun slot => slot.2.map fun value => (slot.1, value)

theorem present_append (slots slots' : List (Text × Option Text)) :
    present (slots ++ slots') = present slots ++ present slots' := List.filterMap_append

theorem mem_present {slots : List (Text × Option Text)} {field : Text × Text} (h : field ∈ present slots) :
    (field.1, some field.2) ∈ slots := by
  obtain ⟨slot, hslot, hfield⟩ := List.mem_filterMap.mp h
  obtain ⟨value, hvalue, rfl⟩ := Option.map_eq_some_iff.mp hfield
  rwa [← hvalue]

theorem keys_present (slots : List (Text × Option Text)) :
    ((present slots).map Prod.fst).Sublist (slots.map Prod.fst) := by
  induction slots with
  | nil => exact List.Sublist.slnil
  | cons slot slots ih =>
    obtain ⟨key, _ | value⟩ := slot
    · exact ih.cons key
    · exact ih.cons_cons key

theorem lookup_cons_of_ne {α : Type*} {key k : Text} (h : key ≠ k) (value : α) (l : List (Text × α)) :
    List.lookup key ((k, value) :: l) = l.lookup key := by
  have hbeq : (key == k) = false := beq_eq_false_iff_ne.mpr h
  rw [List.lookup_cons, hbeq]

theorem lookup_present {slots : List (Text × Option Text)} (hnodup : (slots.map Prod.fst).Nodup) (key : Text) :
    (present slots).lookup key = (slots.lookup key).join := by
  induction slots with
  | nil => rfl
  | cons slot slots ih =>
    obtain ⟨hhead, htail⟩ := List.nodup_cons.mp hnodup
    obtain ⟨k, value⟩ := slot
    by_cases hkey : key = k
    · subst hkey
      rw [List.lookup_cons_self, Option.join_some]
      cases value with
      | some v => exact List.lookup_cons_self
      | none =>
        have hnone : slots.lookup key = none := by
          rw [List.lookup_eq_none_iff]
          intro p hp
          have hmem : p.1 ∈ slots.map Prod.fst := List.mem_map_of_mem hp
          have hne : p.1 ≠ key := fun heq => hhead (heq ▸ hmem)
          simpa using hne.symm
        show (present slots).lookup key = none
        rw [ih htail, hnone]
        rfl
    · rw [lookup_cons_of_ne hkey]
      cases value with
      | some v => exact (lookup_cons_of_ne hkey v _).trans (ih htail)
      | none => exact ih htail

section Fields

variable {sdk : Sdk} {input : BuildPayUriInput} {ctx : Sep7Context}

/-- The issuer that is named for an asset; none for the native one. -/
def issuerOf (asset : Option RegisteredAsset) : Option Text := asset.bind fun a => given a.issuer

def codeOf (asset : Option RegisteredAsset) : Option Text := asset.bind fun a => (given a.issuer).map fun _ => a.code

/-- The passphrase that is named for a network; none for the public one. -/
def passphraseOf (network : Network) (networkPassphrase : Option Text) : Option Text :=
  if network = .mainnet then none else given networkPassphrase

def slotsOf (input : BuildPayUriInput) : List (Text × Option Text) :=
  [(text "destination", some input.destination), (text "amount", given input.amount),
    (text "asset_code", codeOf input.asset), (text "asset_issuer", issuerOf input.asset),
    (text "msg", given input.msg),
    (text "network_passphrase", passphraseOf input.network input.networkPassphrase)]

theorem slotsOf_keys (input : BuildPayUriInput) :
    ((slotsOf input).map Prod.fst).Nodup ∧ ∀ slot ∈ slotsOf input, slot.1 ∈ PAY_PARAMS := by
  have hkeys : (slotsOf input).map Prod.fst = [text "destination", text "amount", text "asset_code",
    text "asset_issuer", text "msg", text "network_passphrase"] := rfl
  refine ⟨hkeys ▸ by decide, fun slot hslot => ?_⟩
  have hmem : slot.1 ∈ (slotsOf input).map Prod.fst := List.mem_map_of_mem hslot
  rw [hkeys] at hmem
  have hall : ∀ key ∈ [text "destination", text "amount", text "asset_code", text "asset_issuer", text "msg",
    text "network_passphrase"], key ∈ PAY_PARAMS := by decide
  exact hall _ hmem

theorem assetParams_eq (asset : Option RegisteredAsset) :
    assetParams asset =
      present [(text "asset_code", codeOf asset), (text "asset_issuer", issuerOf asset)] := by
  rcases asset with _ | asset
  · rfl
  · rw [assetParams, codeOf, issuerOf, Option.bind_some, Option.bind_some]
    cases given asset.issuer <;> rfl

theorem networkParams_eq (network : Network) (networkPassphrase : Option Text) :
    networkParams network networkPassphrase =
      present [(text "network_passphrase", passphraseOf network networkPassphrase)] := by
  rw [networkParams, passphraseOf]
  split_ifs
  · rfl
  · cases given networkPassphrase <;> rfl

theorem amountParams_eq {amount : Option Text} {params : List (Text × Text)} (h : amountParams amount = .ok params) :
    params = present [(text "amount", given amount)] ∧ ∀ a ∈ given amount, isValidAmount a = true := by
  rw [amountParams] at h
  cases hgiven : given amount with
  | none =>
    rw [hgiven] at h
    obtain rfl := Except.ok.inj h
    exact ⟨rfl, fun a ha => absurd ha (Option.not_mem_none a)⟩
  | some a =>
    rw [hgiven] at h
    dsimp only at h
    split_ifs at h with hvalid
    · obtain rfl := Except.ok.inj h
      refine ⟨rfl, fun a' ha' => ?_⟩
      obtain rfl := Option.some.inj ha'
      exact hvalid
    · exact absurd h nofun

theorem msgParams_eq {msg : Option Text} {params : List (Text × Text)} (h : msgParams msg = .ok params) :
    params = present [(text "msg", given msg)] ∧
      ∀ m ∈ given msg, ¬ (m.length > MAX_MSG_LENGTH ∨ m.any isUnsafe = true) := by
  rw [msgParams] at h
  cases hgiven : given msg with
  | none =>
    rw [hgiven] at h
    obtain rfl := Except.ok.inj h
    exact ⟨rfl, fun m hm => absurd hm (Option.not_mem_none m)⟩
  | some m =>
    rw [hgiven] at h
    dsimp only at h
    split_ifs at h with hunsafe
    · exact absurd h nofun
    · obtain rfl := Except.ok.inj h
      refine ⟨rfl, fun m' hm' => ?_⟩
      obtain rfl := Option.some.inj hm'
      exact hunsafe

/-- What an input without a memo is accepted for. -/
structure Accepted (sdk : Sdk) (input : BuildPayUriInput) (params : List (Text × Text)) : Prop where
  params : params = present (slotsOf input)
  destination : (destinationKind sdk input.destination).isSome = true
  amount : ∀ a ∈ given input.amount, isValidAmount a = true
  msg : ∀ m ∈ given input.msg, ¬ (m.length > MAX_MSG_LENGTH ∨ m.any isUnsafe = true)

theorem accepted_of_payParams {params : List (Text × Text)} (hmemo : given input.memo = none)
    (h : payParams sdk input = .ok params) : Accepted sdk input params := by
  rw [payParams] at h
  split_ifs at h with hdestination
  · exact absurd h nofun
  · rcases hamount : amountParams input.amount with e | amount
    · rw [hamount] at h
      exact absurd h nofun
    · rcases hmsg : msgParams input.msg with e | msg
      · rw [hamount, memoParams, hmemo, hmsg] at h
        exact absurd h nofun
      · obtain ⟨rfl, hvalid⟩ := amountParams_eq hamount
        obtain ⟨rfl, hsafe⟩ := msgParams_eq hmsg
        rw [hamount, memoParams, hmemo, hmsg, assetParams_eq, networkParams_eq] at h
        have hparams := (Except.ok.inj h).symm
        refine ⟨hparams.trans ?_, Option.isSome_iff_ne_none.mpr (by simpa using hdestination), hvalid, hsafe⟩
        have hslots : slotsOf input = [(text "destination", some input.destination)] ++
            [(text "amount", given input.amount)] ++
            [(text "asset_code", codeOf input.asset), (text "asset_issuer", issuerOf input.asset)] ++
            [(text "msg", given input.msg)] ++
            [(text "network_passphrase", passphraseOf input.network input.networkPassphrase)] := rfl
        rw [hslots, present_append, present_append, present_append, present_append, List.append_nil]
        rfl

/-- What a slot says is what the fields say. -/
theorem lookup_slotsOf (input : BuildPayUriInput) (key : Text) :
    (present (slotsOf input)).lookup key = ((slotsOf input).lookup key).join :=
  lookup_present (slotsOf_keys input).1 key

theorem ne_nil_of_length {t : Text} {n : ℕ} (h : t.length = n + 1) : t ≠ [] := List.ne_nil_of_length_eq_add_one h

theorem destination_ne_nil (h : (destinationKind sdk input.destination).isSome = true) :
    input.destination.length = 56 := by
  rw [destinationKind] at h
  split_ifs at h with haccount hcontract
  · exact sdk.length_account _ haccount
  · exact sdk.length_contract _ hcontract
  · exact absurd h Bool.false_ne_true

theorem readDestination_built {params : List (Text × Text)} (h : Accepted sdk input params) :
    ∃ kind, readDestination sdk params = .ok (input.destination, kind) := by
  have hlength := destination_ne_nil h.destination
  obtain ⟨kind, hkind⟩ := Option.isSome_iff_exists.mp h.destination
  have hlookup : given (params.lookup (text "destination")) = some input.destination := by
    rw [h.params, lookup_slotsOf]
    exact Option.filter_some_pos (decide_eq_true (ne_nil_of_length hlength))
  have hmuxed : ¬ sdk.isValidMed25519PublicKey input.destination = true := by
    intro hmuxed
    have h69 := sdk.length_muxed _ hmuxed
    omega
  refine ⟨kind, ?_⟩
  rw [readDestination, hlookup]
  dsimp only
  rw [if_neg hmuxed, hkind]

theorem checkUnsupported_built {params : List (Text × Text)} (h : Accepted sdk input params) :
    checkUnsupported params = .ok () := by
  have hcallback : params.lookup (text "callback") = none := by rw [h.params, lookup_slotsOf]; rfl
  have hmemo : params.lookup (text "memo") = none := by rw [h.params, lookup_slotsOf]; rfl
  have htype : params.lookup (text "memo_type") = none := by rw [h.params, lookup_slotsOf]; rfl
  rw [checkUnsupported, hcallback, hmemo, htype]
  rfl

theorem readAmount_built {params : List (Text × Text)} (h : Accepted sdk input params) :
    readAmount params = .ok (given input.amount) := by
  have hlookup : params.lookup (text "amount") = given input.amount := by rw [h.params, lookup_slotsOf]; rfl
  rw [readAmount, hlookup]
  cases hgiven : given input.amount with
  | none => rfl
  | some a => exact if_pos (h.amount a hgiven)

theorem readMsg_built {params : List (Text × Text)} (h : Accepted sdk input params) :
    readMsg params = .ok (given input.msg) := by
  have hlookup : params.lookup (text "msg") = given input.msg := by rw [h.params, lookup_slotsOf]; rfl
  rw [readMsg, hlookup]
  cases hgiven : given input.msg with
  | none => rfl
  | some m => exact if_neg (h.msg m hgiven)

theorem given_given (value : Option Text) : given (given value) = given value := by
  rw [given, given, Option.filter_filter]
  simp only [Bool.and_self]

/-- The asset of an input that is native or registered. -/
theorem readAsset_built {params : List (Text × Text)} (h : Accepted sdk input params)
    (hasset : ∀ a ∈ input.asset, a ∈ assetsFor sdk input.network) :
    readAsset sdk input.network params = .ok (input.asset.getD (nativeAsset sdk input.network)) := by
  have hcode : params.lookup (text "asset_code") = codeOf input.asset := by rw [h.params, lookup_slotsOf]; rfl
  have hissuer : params.lookup (text "asset_issuer") = issuerOf input.asset := by rw [h.params, lookup_slotsOf]; rfl
  rw [readAsset, hcode, hissuer]
  rcases hinput : input.asset with _ | asset
  · rfl
  · rcases List.mem_cons.mp (hasset asset hinput) with rfl | husdc
    · rfl
    · obtain rfl := List.mem_singleton.mp husdc
      have hvalid := sdk.issuer_account input.network
      have hgiven : given (some (sdk.config input.network).usdcIssuer) = some (sdk.config input.network).usdcIssuer :=
        Option.filter_some_pos (decide_eq_true (ne_nil_of_length (sdk.length_account _ hvalid)))
      have hcode' : codeOf (some (usdcOf (sdk.config input.network))) = some (text "USDC") := by
        show (given (some (sdk.config input.network).usdcIssuer)).map _ = _
        rw [hgiven]
        rfl
      have hissuer' : issuerOf (some (usdcOf (sdk.config input.network))) =
          some (sdk.config input.network).usdcIssuer := hgiven
      have hfind : findClassicAsset sdk input.network (text "USDC") (sdk.config input.network).usdcIssuer =
          some (usdcOf (sdk.config input.network)) := by
        have hnative : (decide ((nativeOf (sdk.config input.network)).code = text "USDC") &&
            decide ((nativeOf (sdk.config input.network)).issuer =
              some (sdk.config input.network).usdcIssuer)) = false := by
          rw [Bool.and_eq_false_iff]
          exact Or.inr (decide_eq_false nofun)
        have husdc : (decide ((usdcOf (sdk.config input.network)).code = text "USDC") &&
            decide ((usdcOf (sdk.config input.network)).issuer =
              some (sdk.config input.network).usdcIssuer)) = true := by
          rw [Bool.and_eq_true, decide_eq_true_iff, decide_eq_true_iff]
          exact ⟨rfl, rfl⟩
        rw [findClassicAsset, assetsFor, registryFor, List.find?_cons, hnative]
        dsimp only
        rw [List.find?_cons, husdc]
      rw [hcode', hissuer']
      dsimp only
      have hform : ¬ (sdk.isValidEd25519PublicKey (sdk.config input.network).usdcIssuer = false ∨
          isAssetCode (text "USDC") = false) := by
        rintro (hbad | hbad)
        · exact absurd (hvalid.symm.trans hbad) nofun
        · exact absurd hbad (by decide)
      rw [if_neg hform, hfind]
      rfl

/-- The network of an input is the wallet's, and is named off the public network. -/
theorem checkNetwork_built {params : List (Text × Text)} (h : Accepted sdk input params)
    (hnetwork : ctx.network = input.network)
    (hpassphrase : input.network ≠ .mainnet → input.networkPassphrase = some ctx.networkPassphrase) :
    checkNetwork ctx params = .ok () ↔ (input.network ≠ .mainnet → ctx.networkPassphrase ≠ []) := by
  have hlookup : params.lookup (text "network_passphrase") =
      passphraseOf input.network input.networkPassphrase := by rw [h.params, lookup_slotsOf]; rfl
  rw [checkNetwork, hlookup, passphraseOf, hnetwork]
  by_cases hmain : input.network = .mainnet
  · rw [if_pos hmain]
    dsimp only
    rw [if_neg (not_not.mpr hmain)]
    exact iff_of_true rfl fun hoff => absurd hmain hoff
  · rw [if_neg hmain, hpassphrase hmain]
    by_cases hnil : ctx.networkPassphrase = []
    · have hgiven : given (some ctx.networkPassphrase) = none := by
        rw [hnil]
        rfl
      rw [hgiven]
      dsimp only
      rw [if_pos hmain]
      exact iff_of_false nofun fun hall => hall hmain hnil
    · have hgiven : given (some ctx.networkPassphrase) = some ctx.networkPassphrase :=
        Option.filter_some_pos (decide_eq_true hnil)
      rw [hgiven]
      dsimp only
      rw [if_neg (not_not.mpr rfl)]
      exact iff_of_true rfl fun _ => hnil

theorem checkOrigin_built {params : List (Text × Text)} (h : Accepted sdk input params) :
    params.lookup (text "origin_domain") = none ∧ params.lookup (text "signature") = none := by
  rw [h.params, lookup_slotsOf, lookup_slotsOf]
  exact ⟨rfl, rfl⟩

/-- The request of the fields of an input. -/
theorem readRequest_built {params : List (Text × Text)} (h : Accepted sdk input params) (uri : Text)
    (hasset : ∀ a ∈ input.asset, a ∈ assetsFor sdk input.network) (hnetwork : ctx.network = input.network)
    (hpassphrase : input.network ≠ .mainnet → input.networkPassphrase = some ctx.networkPassphrase) :
    if input.network ≠ .mainnet → ctx.networkPassphrase ≠ [] then
      ∃ kind, readRequest sdk ctx uri params = .ok ⟨input.destination, kind, given input.amount,
        input.asset.getD (nativeAsset sdk input.network), given input.msg, none, none, uri⟩
    else ∃ error, readRequest sdk ctx uri params = .error error := by
  obtain ⟨kind, hdestination⟩ := readDestination_built h
  obtain ⟨horigin, hsignature⟩ := checkOrigin_built h
  have hchecked := checkNetwork_built h hnetwork hpassphrase
  split_ifs with hnamed
  · refine ⟨kind, ?_⟩
    rw [readRequest, hdestination, checkUnsupported_built h, hchecked.mpr hnamed, hnetwork, readAsset_built h hasset,
      readAmount_built h, readMsg_built h, horigin, hsignature]
    show Except.ok _ = _
    rw [given_given]
  · rcases hnet : checkNetwork ctx params with error | _
    · refine ⟨error, ?_⟩
      rw [readRequest, hdestination, checkUnsupported_built h, hnet]
      rfl
    · exact absurd (hchecked.mp hnet) hnamed

end Fields

/-! ## The URI -/

theorem length_intercalate {pairs : List Text} (hne : pairs ≠ []) :
    ([unit '&'].intercalate pairs).length + 1 = (pairs.map fun pair => pair.length + 1).sum := by
  induction pairs with
  | nil => exact absurd rfl hne
  | cons pair pairs ih =>
    cases pairs with
    | nil =>
      rw [List.intercalate_singleton]
      rfl
    | cons pair' pairs =>
      rw [List.intercalate_cons_cons, List.length_append, List.length_append, List.map_cons, List.sum_cons,
        ← ih (List.cons_ne_nil _ _), List.length_singleton]
      omega

theorem mem_intercalate {pairs : List Text} {c : UInt16} (h : c ∈ [unit '&'].intercalate pairs) :
    c = unit '&' ∨ ∃ pair ∈ pairs, c ∈ pair := by
  induction pairs with
  | nil => exact absurd h List.not_mem_nil
  | cons pair pairs ih =>
    cases pairs with
    | nil =>
      rw [List.intercalate_singleton] at h
      exact Or.inr ⟨pair, List.mem_cons_self, h⟩
    | cons pair' pairs =>
      rw [List.intercalate_cons_cons] at h
      rcases List.mem_append.mp h with h | h
      · rcases List.mem_append.mp h with h | h
        · exact Or.inr ⟨pair, List.mem_cons_self, h⟩
        · exact Or.inl (List.mem_singleton.mp h)
      · rcases ih h with rfl | ⟨p, hp, hc⟩
        · exact Or.inl rfl
        · exact Or.inr ⟨p, List.mem_cons_of_mem _ hp, hc⟩

/-- How long the request is that an input asks for. -/
def uriLength (input : BuildPayUriInput) : ℕ :=
  15 + ((present (slotsOf input)).map fun field => field.1.length + 2 + encodedLength field.2).sum

section Uri

variable {sdk : Sdk} {fields : List (Text × Text)} {pairs : List Text}

theorem length_pairs (h : List.Forall₂ (fun field pair => pairText field = some pair) fields pairs) :
    (pairs.map fun pair => pair.length + 1).sum =
      (fields.map fun field => field.1.length + 2 + encodedLength field.2).sum := by
  induction h with
  | nil => rfl
  | @cons field pair fields pairs hpair _ ih =>
    obtain ⟨value, hvalue, rfl⟩ := pairText_eq hpair
    rw [List.map_cons, List.map_cons, List.sum_cons, List.sum_cons, ih, List.length_append, List.length_cons,
      length_encode hvalue]
    omega

/-- The request of the pairs. -/
def uriOf (pairs : List Text) : Text := SEP7_SCHEME ++ text "pay?" ++ [unit '&'].intercalate pairs

theorem trim_uriOf (hunits : ∀ pair ∈ pairs, ∀ c ∈ pair, IsPairUnit c) : trim (uriOf pairs) = uriOf pairs := by
  refine trim_eq_self fun c hc => not_isJsSpace ?_
  have hhead : ∀ c ∈ SEP7_SCHEME ++ text "pay?", (decide (33 ≤ c.toNat ∧ c.toNat ≤ 126)) = true :=
    List.all_eq_true.mp (by decide)
  rcases List.mem_append.mp hc with hc | hc
  · exact of_decide_eq_true (hhead c hc)
  · rcases mem_intercalate hc with rfl | ⟨pair, hpair, hc⟩
    · decide
    · have hunit := isPairUnit_toNat (hunits pair hpair c hc)
      exact ⟨hunit.1, hunit.2.1⟩

theorem afterScheme_uriOf (hlength : (uriOf pairs).length ≤ MAX_URI_LENGTH) :
    afterScheme (uriOf pairs) = .ok (text "pay?" ++ [unit '&'].intercalate pairs) := by
  have hscheme : (SEP7_SCHEME.map lowerUnit) = SEP7_SCHEME := by decide
  have huri : uriOf pairs = SEP7_SCHEME ++ (text "pay?" ++ [unit '&'].intercalate pairs) := List.append_assoc _ _ _
  rw [afterScheme, if_neg (not_lt.mpr hlength), huri, List.take_left, hscheme, if_neg (not_not.mpr rfl), List.drop_left]

theorem queryOf_pay {query : Text} (hne : query ≠ []) (hhash : unit '#' ∉ query) :
    queryOf (text "pay?" ++ query) = .ok query := by
  have htake : (text "pay?" ++ query).takeWhile (fun c => c ≠ unit '?') = text "pay" := rfl
  have hdrop : (text "pay?" ++ query).dropWhile (fun c => c ≠ unit '?') = unit '?' :: query := rfl
  have hlength : ¬ (unit '?' :: query).length ≤ 1 := by
    have hpos := List.length_pos_of_ne_nil hne
    rw [List.length_cons]
    omega
  rw [queryOf, htake, hdrop]
  rw [if_neg (not_not.mpr rfl), if_neg hlength]
  exact if_neg hhash

theorem readParams_intercalate (hpairs : List.Forall₂ (fun field pair => pairText field = some pair) fields pairs)
    (hne : pairs ≠ []) (hkeys : ∀ field ∈ fields, field.1 ∈ PAY_PARAMS) (hnodup : (fields.map Prod.fst).Nodup)
    (hunits : ∀ pair ∈ pairs, ∀ c ∈ pair, IsPairUnit c) :
    readParams ([unit '&'].intercalate pairs) = .ok fields := by
  have hamp : ∀ pair ∈ pairs, unit '&' ∉ pair := fun pair hpair hc =>
    (isPairUnit_toNat (hunits pair hpair _ hc)).2.2.1 rfl
  rw [readParams, List.splitOn_intercalate _ hamp hne]
  exact foldlM_readPair hpairs hkeys hnodup

end Uri

section Main

variable {sdk : Sdk} {input : BuildPayUriInput} {ctx : Sep7Context} {uri : Text}

/-- What is built is read as the fields of the input, where it is not too long. -/
theorem parse_built {params : List (Text × Text)} (h : Accepted sdk input params)
    (hbuild : buildPayUri sdk input = .ok uri) (hparams : payParams sdk input = .ok params) :
    uri.length = uriLength input ∧
      (uri.length ≤ MAX_URI_LENGTH → parsePayUri sdk (some uri) ctx = readRequest sdk ctx uri params) ∧
      (MAX_URI_LENGTH < uri.length → ∃ error, parsePayUri sdk (some uri) ctx = .error error) := by
  rw [buildPayUri, hparams] at hbuild
  dsimp only at hbuild
  cases hmap : params.mapM pairText with
  | none =>
    rw [hmap] at hbuild
    exact absurd hbuild nofun
  | some pairs =>
    rw [hmap] at hbuild
    obtain rfl : uriOf pairs = uri := Except.ok.inj hbuild
    have hpairs := Partial.mapM_eq_some.mp hmap
    have hslots := slotsOf_keys input
    have hkeys : ∀ field ∈ params, field.1 ∈ PAY_PARAMS := by
      intro field hfield
      rw [h.params] at hfield
      exact hslots.2 _ (mem_present hfield)
    have hnodup : (params.map Prod.fst).Nodup := h.params ▸ (keys_present _).nodup hslots.1
    have hunits : ∀ pair ∈ pairs, ∀ c ∈ pair, IsPairUnit c := by
      intro pair hpair
      obtain ⟨field, hfield, heq⟩ := Partial.exists_left hpairs pair hpair
      exact isPairUnit_pair (hkeys field hfield) heq
    have hparamsne : params ≠ [] := by
      rw [h.params]
      exact List.cons_ne_nil _ _
    have hne : pairs ≠ [] := by
      rintro rfl
      exact hparamsne (List.forall₂_nil_right_iff.mp hpairs)
    have hquery := length_intercalate hne
    refine ⟨?_, fun hlength => ?_, fun hlong => ?_⟩
    · have hhead : (SEP7_SCHEME ++ text "pay?").length = 16 := rfl
      rw [uriOf, List.length_append, hhead, uriLength, ← h.params, ← length_pairs hpairs]
      omega
    · have hqueryne : [unit '&'].intercalate pairs ≠ [] := by
        intro hnil
        rw [hnil, List.length_nil] at hquery
        obtain ⟨pair, pairs, rfl⟩ := List.exists_cons_of_ne_nil hne
        obtain ⟨field, hfield, heq⟩ := Partial.exists_left hpairs pair List.mem_cons_self
        obtain ⟨value, -, rfl⟩ := pairText_eq heq
        rw [List.map_cons, List.sum_cons, List.length_append, List.length_cons] at hquery
        omega
      have hhash : unit '#' ∉ [unit '&'].intercalate pairs := by
        intro hc
        rcases mem_intercalate hc with hamp | ⟨pair, hpair, hc⟩
        · exact absurd hamp (by decide)
        · exact (isPairUnit_toNat (hunits pair hpair _ hc)).2.2.2.1 rfl
      rw [parsePayUri, trim_uriOf hunits, afterScheme_uriOf hlength]
      show (queryOf _ >>= _) = _
      rw [queryOf_pay hqueryne hhash]
      show (readParams _ >>= _) = _
      rw [readParams_intercalate hpairs hne hkeys hnodup hunits]
      rfl
    · refine ⟨⟨.too_long, text "Payment request is too long."⟩, ?_⟩
      rw [parsePayUri, trim_uriOf hunits, afterScheme, if_pos hlong]
      rfl

/-- A request that was built is read as it was meant exactly where it is not too long, and the network that is not the
public one has a passphrase. -/
theorem parsePayUri_buildPayUri_iff (hbuild : buildPayUri sdk input = .ok uri) (hmemo : given input.memo = none)
    (hasset : ∀ a ∈ input.asset, a ∈ assetsFor sdk input.network) (hnetwork : ctx.network = input.network)
    (hpassphrase : input.network ≠ .mainnet → input.networkPassphrase = some ctx.networkPassphrase) :
    (∃ request, parsePayUri sdk (some uri) ctx = .ok request ∧ request.destination = input.destination ∧
        request.amount = given input.amount ∧ request.asset = input.asset.getD (nativeAsset sdk input.network) ∧
        request.msg = given input.msg) ↔
      uriLength input ≤ MAX_URI_LENGTH ∧ (input.network ≠ .mainnet → ctx.networkPassphrase ≠ []) := by
  rcases hparams : payParams sdk input with error | params
  · rw [buildPayUri, hparams] at hbuild
    exact absurd hbuild nofun
  · have haccepted := accepted_of_payParams hmemo hparams
    obtain ⟨hlength, hshort, hlong⟩ := @parse_built sdk input ctx uri params haccepted hbuild hparams
    have hrequest := readRequest_built haccepted uri hasset hnetwork hpassphrase
    rw [← hlength]
    by_cases hfits : uri.length ≤ MAX_URI_LENGTH
    · rw [hshort hfits]
      split_ifs at hrequest with hnamed
      · obtain ⟨kind, hok⟩ := hrequest
        exact iff_of_true ⟨_, hok, rfl, rfl, rfl, rfl⟩ ⟨hfits, hnamed⟩
      · obtain ⟨error, herror⟩ := hrequest
        refine iff_of_false ?_ fun hboth => hnamed hboth.2
        rintro ⟨request, hok, -⟩
        exact absurd (herror.symm.trans hok) nofun
    · obtain ⟨error, herror⟩ := hlong (not_le.mp hfits)
      refine iff_of_false ?_ fun hboth => hfits hboth.1
      rintro ⟨request, hok, -⟩
      exact absurd (herror.symm.trans hok) nofun

end Main

/-! ## A message that is too long when it is encoded -/

def exampleContract : Text := text "CDLZFC3SYJYDZT7K67VZ75HPJVIEUVNIXF47ZG2FB2RMQQVU2HHGCYSC"

def exampleIssuer : Text := text "GBBD47IF6LWK7P7MDEVSCWR7DPUWV3NY3DTQEVFL4NAT4AQH3ZLLFLA5"

/-- The checks, on one address of each kind. -/
def exampleSdk : Sdk where
  isValidEd25519PublicKey t := decide (t = exampleIssuer)
  isValidContract t := decide (t = exampleContract)
  isValidMed25519PublicKey _ := false
  config _ := ⟨exampleContract, exampleIssuer, exampleContract⟩
  length_account := fun _ h => of_decide_eq_true h ▸ rfl
  length_contract := fun _ h => of_decide_eq_true h ▸ rfl
  length_muxed := fun _ h => absurd h Bool.false_ne_true
  issuer_account := fun _ => decide_eq_true rfl

def exampleContext : Sep7Context := ⟨.testnet, text "Test SDF Network ; September 2015"⟩

def exampleInput : BuildPayUriInput :=
  ⟨exampleContract, some (text "12.5"), some (usdcOf (exampleSdk.config .testnet)), none, some (text "coffee & cake"),
    some exampleContext.networkPassphrase, .testnet⟩

theorem exists_built {input : BuildPayUriInput} (h : (buildPayUri exampleSdk input).isOk = true) :
    ∃ uri, buildPayUri exampleSdk input = .ok uri := by
  rcases hbuild : buildPayUri exampleSdk input with error | uri
  · rw [hbuild] at h
    exact absurd h Bool.false_ne_true
  · exact ⟨uri, rfl⟩

theorem parsePayUri_buildPayUri_example :
    ∃ uri, buildPayUri exampleSdk exampleInput = .ok uri ∧
      ∃ request, parsePayUri exampleSdk (some uri) exampleContext = .ok request ∧
        request.destination = exampleContract ∧ request.amount = some (text "12.5") ∧
        request.asset = usdcOf (exampleSdk.config .testnet) ∧ request.msg = some (text "coffee & cake") := by
  obtain ⟨uri, huri⟩ := @exists_built exampleInput (by decide)
  have hasset : ∀ a ∈ exampleInput.asset, a ∈ assetsFor exampleSdk exampleInput.network := by
    intro a ha
    obtain rfl := Option.some.inj ha
    exact List.mem_cons_of_mem _ List.mem_cons_self
  exact ⟨uri, huri, (parsePayUri_buildPayUri_iff huri rfl hasset rfl fun _ => rfl).mpr
    ⟨by decide, fun _ => by decide⟩⟩

/-- A message of as many units as are allowed, each of which takes nine when it is encoded. -/
def longInput : BuildPayUriInput :=
  ⟨exampleContract, none, none, none, some (List.replicate 300 (unit '€')), none, .mainnet⟩

theorem long_message :
    ¬ ∀ (input : BuildPayUriInput) (ctx : Sep7Context) (uri : Text), buildPayUri exampleSdk input = .ok uri →
      given input.memo = none → (∀ a ∈ input.asset, a ∈ assetsFor exampleSdk input.network) →
      ctx.network = input.network →
      (input.network ≠ .mainnet → input.networkPassphrase = some ctx.networkPassphrase) →
      ∃ request, parsePayUri exampleSdk (some uri) ctx = .ok request ∧ request.destination = input.destination ∧
        request.amount = given input.amount ∧
        request.asset = input.asset.getD (nativeAsset exampleSdk input.network) ∧
        request.msg = given input.msg := by
  intro hall
  obtain ⟨uri, huri⟩ := @exists_built longInput (by decide +kernel)
  rcases hparams : payParams exampleSdk longInput with error | params
  · rw [buildPayUri, hparams] at huri
    exact absurd huri nofun
  · obtain ⟨hlength, -, hlong⟩ :=
      @parse_built exampleSdk longInput ⟨.mainnet, []⟩ uri params (accepted_of_payParams rfl hparams) huri hparams
    have hmore : MAX_URI_LENGTH < uriLength longInput := by decide +kernel
    obtain ⟨error, herror⟩ := hlong (hlength ▸ hmore)
    obtain ⟨request, hok, -⟩ := hall longInput ⟨.mainnet, []⟩ uri huri rfl (fun a ha => absurd ha nofun) rfl
      fun hoff => absurd rfl hoff
    exact absurd (herror.symm.trans hok) nofun

end Vellar.Web.Sep7
