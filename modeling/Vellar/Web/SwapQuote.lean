import Vellar.Lib.Checked
import Vellar.Lib.JsNumber
import Vellar.Lib.Partial

/-!
# Vellar.Web.SwapQuote — quotes, slippage floors and rates

`apps/web/lib/swap/quote.ts`: a venue's answer becomes a quote, a tolerance becomes the least output, and a rate is printed
with seven places.  `minimumOut_floor` and `formatRate_value` say what the integers and the text stand for.
-/

set_option autoImplicit false

namespace Vellar.Web.Swaps

open Checked

structure RegisteredAsset where
  id : String
  name : String
  code : String
  issuer : Option String
  symbol : String
  contractId : String
  decimals : ℤ
deriving DecidableEq

inductive SwapError where
  | quote (message : String)
  | venue (message : String) (code : Option ℕ)
  /-- An error of another type. -/
  | other (message : String)
deriving DecidableEq

structure SwapQuote where
  sell : RegisteredAsset
  buy : RegisteredAsset
  amountIn : ℤ
  expectedOut : ℤ
  path : List String
  hopAmounts : List ℤ
  /-- In milliseconds. -/
  quotedAt : ℤ
deriving DecidableEq

structure SlippageBound where
  slippageBps : JsNumber
  minOut : ℤ
deriving DecidableEq

/-! ## The slippage floor -/

def BPS_DENOMINATOR : ℤ := 10000

def MIN_SLIPPAGE_BPS : ℤ := 1

def MAX_SLIPPAGE_BPS : ℤ := 500

/-- The tolerance as an integer from one bound to the other. -/
def integerWithin (least greatest : ℤ) : JsNumber → Option ℤ
  | .finite q => if q.den = 1 ∧ least ≤ q.num ∧ q.num ≤ greatest then some q.num else none
  | .nan | .infinity _ => none

/-- `assertSlippageBps`, with the `BigInt` of what it lets through. -/
def assertSlippageBps (bps : JsNumber) : Except SwapError ℤ :=
  orStop (integerWithin MIN_SLIPPAGE_BPS MAX_SLIPPAGE_BPS bps) (.quote "Slippage must be between 0.01% and 5%.")

def minimumOut (expectedOut : ℤ) (slippageBps : JsNumber) : Except SwapError ℤ := do
  let bps ← assertSlippageBps slippageBps
  ensure (0 < expectedOut) (.quote "The venue quoted no output for this amount.")
  let min := (expectedOut * (BPS_DENOMINATOR - bps)).tdiv BPS_DENOMINATOR
  ensure (0 < min) (.quote "Amount is too small to protect against slippage.")
  return min

def slippageBound (quote : SwapQuote) (slippageBps : JsNumber) : Except SwapError SlippageBound := do
  let minOut ← minimumOut quote.expectedOut slippageBps
  return ⟨slippageBps, minOut⟩

/-! ## Quotes -/

/-- No hops where the venue returned no array, no amount where an entry is no bigint. -/
def normalizeQuote (sell buy : RegisteredAsset) (amountIn : ℤ) (path : List String)
    (hopAmounts : Option (List (Option ℤ))) (quotedAt : ℤ) : Except SwapError SwapQuote := do
  ensure (sell.contractId ≠ buy.contractId) (.quote "Pick two different assets.")
  ensure (0 < amountIn) (.quote "Amount must be greater than zero.")
  ensure (2 ≤ path.length ∧ path.head? = some sell.contractId ∧ path.getLast? = some buy.contractId)
    (.quote "The venue returned a route for different assets.")
  let hops ← orStop hopAmounts (.quote "The venue returned an inconsistent quote.")
  ensure (hops.length = path.length ∧ hops.head? = some (some amountIn))
    (.quote "The venue returned an inconsistent quote.")
  let amounts ← orStop (hops.mapM id) (.quote "The venue returned an unexpected response.")
  ensure (∀ a ∈ amounts, 0 < a) (.quote "Not enough liquidity on this route for that amount.")
  return ⟨sell, buy, amountIn, amounts.getLast?.getD 0, path, amounts, quotedAt⟩

def QUOTE_TTL_MS : ℤ := 30000

def isQuoteFresh (quote : SwapQuote) (now : ℤ) (maxAgeMs : Option ℤ) : Bool :=
  now - quote.quotedAt ≤ maxAgeMs.getD QUOTE_TTL_MS

/-! ## Rates -/

/-- The digits cut before the last `precision` of them, without the zeros at the end. -/
def rateText (precision : ℕ) (scaled : ℤ) : String :=
  let s := Decimal.padStart (precision + 1) (toString scaled).toList
  let int := s.take (s.length - precision)
  let frac := Decimal.stripZeros (s.drop (s.length - precision))
  String.ofList (Decimal.withFraction int frac)

/-- `formatRate` with the default precision; a power with a negative exponent throws. -/
def formatRate (amountIn amountOut sellDecimals buyDecimals : ℤ) : Except SwapError String := do
  ensure (0 < amountIn) (.quote "Rate needs a positive input.")
  ensure (0 ≤ sellDecimals ∧ 0 ≤ buyDecimals) (.other "Exponent must be non-negative")
  return rateText 7
    ((amountOut * 10 ^ sellDecimals.toNat * 10 ^ 7).tdiv (amountIn * 10 ^ buyDecimals.toNat))

def quotedRate (quote : SwapQuote) : Except SwapError String :=
  formatRate quote.amountIn quote.expectedOut quote.sell.decimals quote.buy.decimals

def worstCaseRate (quote : SwapQuote) (bound : SlippageBound) : Except SwapError String :=
  formatRate quote.amountIn bound.minOut quote.sell.decimals quote.buy.decimals

/-! ## What they stand for -/

/-- One unit of what is sold in units of what is bought, exactly. -/
def exactRate (quote : SwapQuote) (amountOut : ℤ) : ℚ :=
  (amountOut / 10 ^ quote.buy.decimals) / (quote.amountIn / 10 ^ quote.sell.decimals)

/-- The text is the number cut after seven places. -/
def Truncates (text : String) (q : ℚ) : Prop := Decimal.value text = some ((⌊q * 10 ^ 7⌋ : ℚ) / 10 ^ 7)

theorem tdiv_eq_floor {a b : ℤ} (ha : 0 ≤ a) (hb : 0 < b) : a.tdiv b = ⌊(a : ℚ) / b⌋ := by
  obtain ⟨n, rfl⟩ := Int.eq_ofNat_of_zero_le hb.le
  rw [Int.tdiv_eq_ediv_of_nonneg ha, Int.cast_natCast, Rat.floor_intCast_div_natCast]

theorem integerWithin_some {least greatest n : ℤ} {x : JsNumber} (h : integerWithin least greatest x = some n) :
    x = .finite n ∧ least ≤ n ∧ n ≤ greatest := by
  cases x with
  | nan | infinity => cases h
  | finite q =>
    obtain ⟨⟨hden, hleast, hgreatest⟩, hnum⟩ := Option.ite_none_right_eq_some.mp h
    obtain rfl := Option.some.inj hnum
    exact ⟨congrArg JsNumber.finite (Rat.coe_int_num_of_den_eq_one hden).symm, hleast, hgreatest⟩

/-- **The least output** is the floor of what is expected less the tolerance, and something. -/
theorem minimumOut_floor {expectedOut min : ℤ} {slippageBps : JsNumber}
    (h : minimumOut expectedOut slippageBps = .ok min) : ∃ bps : ℤ, slippageBps = .finite bps ∧
      MIN_SLIPPAGE_BPS ≤ bps ∧ bps ≤ MAX_SLIPPAGE_BPS ∧
      min = ⌊(expectedOut * (10000 - bps) : ℚ) / 10000⌋ ∧ 1 ≤ min := by
  obtain ⟨bps, hbps, hafter⟩ := bind_ok.mp h
  obtain ⟨hexpected, hafter⟩ := check_bind_ok.mp hafter
  obtain ⟨hmin, hreturn⟩ := check_bind_ok.mp hafter
  obtain ⟨hvalue, hleast, hgreatest⟩ := integerWithin_some (orStop_ok.mp hbps)
  have hexpected : 0 < expectedOut := ensure_ok.mp hexpected
  have hmin : 0 < (expectedOut * (BPS_DENOMINATOR - bps)).tdiv BPS_DENOMINATOR := ensure_ok.mp hmin
  have hrest : 0 ≤ BPS_DENOMINATOR - bps := by
    unfold BPS_DENOMINATOR
    unfold MAX_SLIPPAGE_BPS at hgreatest
    omega
  rw [pure_ok.mp hreturn] at hmin
  refine ⟨bps, hvalue, hleast, hgreatest, ?_, by omega⟩
  rw [← pure_ok.mp hreturn, tdiv_eq_floor (mul_nonneg hexpected.le hrest) (by decide)]
  simp [BPS_DENOMINATOR]

/-- What a quote is: the route of the two assets, an amount in, and an output for every hop. -/
structure SwapQuote.Consistent (q : SwapQuote) : Prop where
  different : q.sell.contractId ≠ q.buy.contractId
  positive : 0 < q.amountIn
  first : q.path.head? = some q.sell.contractId
  last : q.path.getLast? = some q.buy.contractId
  hops : q.hopAmounts.length = q.path.length
  amountIn : q.hopAmounts.head? = some q.amountIn
  expectedOut : q.hopAmounts.getLast? = some q.expectedOut
  liquid : ∀ a ∈ q.hopAmounts, 0 < a

/-- **A quote is consistent**, whatever the venue answered. -/
theorem normalizeQuote_consistent {sell buy : RegisteredAsset} {amountIn quotedAt : ℤ} {path : List String}
    {hopAmounts : Option (List (Option ℤ))} {q : SwapQuote}
    (h : normalizeQuote sell buy amountIn path hopAmounts quotedAt = .ok q) :
    q.Consistent ∧ q.sell = sell ∧ q.buy = buy ∧ q.amountIn = amountIn ∧ q.path = path ∧ q.quotedAt = quotedAt := by
  obtain ⟨hdifferent, h⟩ := check_bind_ok.mp h
  obtain ⟨hpositive, h⟩ := check_bind_ok.mp h
  obtain ⟨hpath, h⟩ := check_bind_ok.mp h
  obtain ⟨hops, -, h⟩ := bind_ok.mp h
  obtain ⟨hhops, h⟩ := check_bind_ok.mp h
  obtain ⟨amounts, hamounts, h⟩ := bind_ok.mp h
  obtain ⟨hliquid, h⟩ := check_bind_ok.mp h
  obtain rfl := pure_ok.mp h
  obtain ⟨hlength, hfirst, hlast⟩ := ensure_ok.mp hpath
  obtain ⟨hsame, hhead⟩ := ensure_ok.mp hhops
  have hmap : hops = amounts.map some :=
    List.forall₂_eq_eq_eq ▸ List.forall₂_map_right_iff.mpr (Partial.mapM_eq_some.mp (orStop_ok.mp hamounts))
  rw [hmap, List.length_map] at hsame
  rw [hmap, List.head?_map] at hhead
  obtain ⟨a, ha, heq⟩ := Option.map_eq_some_iff.mp hhead
  have hne : amounts ≠ [] := by
    rintro rfl
    cases ha
  refine ⟨⟨ensure_ok.mp hdifferent, ensure_ok.mp hpositive, hfirst, hlast, hsame, ?_, ?_, ensure_ok.mp hliquid⟩,
    rfl, rfl, rfl, rfl, rfl⟩
  · rw [ha, Option.some.inj heq]
  · rw [List.getLast?_eq_some_getLast hne, Option.getD_some]

/-- A number printed with its last seven digits behind the point. -/
theorem value_rateText (n : ℕ) : Decimal.value (rateText 7 n) = some ((n : ℚ) / 10 ^ 7) := by
  have hchars : (toString (n : ℤ)).toList = Nat.toDigits 10 n := Nat.toList_repr
  have hlast : (Decimal.padStart 7 (Nat.toDigits 10 (n % 10 ^ 7))).length = 7 :=
    Decimal.length_padStart (by decide) (Nat.mod_lt n (by positivity))
  have hpad := Decimal.padStart_toDigits (show 0 < 7 by decide) n
  have htext : rateText 7 n =
      String.ofList (Decimal.withFraction (Nat.toDigits 10 (n / 10 ^ 7)) (Decimal.fraction 7 (n % 10 ^ 7))) := by
    unfold rateText Decimal.fraction
    simp only [hchars, hpad, List.length_append, hlast, Nat.add_sub_cancel]
    rw [List.take_left, List.drop_left]
  obtain ⟨c, cs, hcons⟩ := List.exists_cons_of_ne_nil (Nat.toDigits_ne_nil (b := 10) (n := n / 10 ^ 7))
  have hdigit : c.isDigit = true := Decimal.isDigit_toDigits (hcons ▸ List.mem_cons_self)
  have hhead : ∃ cs', Decimal.withFraction (Nat.toDigits 10 (n / 10 ^ 7)) (Decimal.fraction 7 (n % 10 ^ 7)) = c :: cs' := by
    unfold Decimal.withFraction
    rw [hcons]
    split_ifs
    · exact ⟨cs, rfl⟩
    · exact ⟨_, List.cons_append⟩
  obtain ⟨cs', hhead⟩ := hhead
  rw [htext, hhead, Decimal.value_digit hdigit, ← hhead,
    Decimal.unsigned_withFraction (by decide) (Nat.mod_lt n (by positivity))]
  have hsum : (n : ℚ) = (n / 10 ^ 7 : ℕ) * 10 ^ 7 + (n % 10 ^ 7 : ℕ) := by exact_mod_cast (Nat.div_add_mod' n (10 ^ 7)).symm
  rw [Option.some.injEq, eq_div_iff (by positivity), add_mul, div_mul_cancel₀ _ (by positivity)]
  exact hsum.symm

/-- **Rates** are the exact ratio, cut after seven places. -/
theorem formatRate_value {q : SwapQuote} {amountOut : ℤ} {text : String} (hout : 0 ≤ amountOut)
    (h : formatRate q.amountIn amountOut q.sell.decimals q.buy.decimals = .ok text) :
    Truncates text (exactRate q amountOut) := by
  obtain ⟨hin, hafter⟩ := check_bind_ok.mp h
  obtain ⟨hdecimals, hreturn⟩ := check_bind_ok.mp hafter
  have hin : 0 < q.amountIn := ensure_ok.mp hin
  obtain ⟨hsell, hbuy⟩ : 0 ≤ q.sell.decimals ∧ 0 ≤ q.buy.decimals := ensure_ok.mp hdecimals
  obtain ⟨sell, hsell⟩ := Int.eq_ofNat_of_zero_le hsell
  obtain ⟨buy, hbuy⟩ := Int.eq_ofNat_of_zero_le hbuy
  rw [hsell, hbuy, Int.toNat_natCast, Int.toNat_natCast] at hreturn
  have hnum : 0 ≤ amountOut * 10 ^ sell * 10 ^ 7 := by positivity
  have hden : 0 < q.amountIn * 10 ^ buy := by positivity
  have hrate : exactRate q amountOut * 10 ^ 7 =
      ((amountOut * 10 ^ sell * 10 ^ 7 : ℤ) : ℚ) / ((q.amountIn * 10 ^ buy : ℤ) : ℚ) := by
    have hne : (q.amountIn : ℚ) ≠ 0 := by exact_mod_cast hin.ne'
    unfold exactRate
    rw [hsell, hbuy, zpow_natCast, zpow_natCast]
    push_cast
    field_simp
    norm_num
  obtain ⟨n, hn⟩ := Int.eq_ofNat_of_zero_le (Int.tdiv_nonneg hnum hden.le)
  rw [hn] at hreturn
  rw [Truncates, ← pure_ok.mp hreturn, value_rateText, hrate, ← tdiv_eq_floor hnum hden, hn, Int.cast_natCast]

end Vellar.Web.Swaps
