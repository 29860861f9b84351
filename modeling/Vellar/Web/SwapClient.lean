import Vellar.Extension.State
import Vellar.Lib.Machine
import Vellar.Web.SwapQuote

/-!
# Vellar.Web.SwapClient — what a swap shows, and when it is signed

`createSwapClient` of `apps/web/lib/swap/client.ts` over any venue, the Soroswap venue of `soroswap.ts`, and the approval of
`SwapPanel`.  `prepare_honest`: a swap that is prepared shows what its transaction encodes.  `swaps_iff`: in every run no
signature is asked for an older quote, exactly if every `confirm` comes in time.
-/

set_option autoImplicit false

namespace Vellar.Web.Swaps

open Checked Machine
open Extension (Network)

/-! ## Venues -/

def SWAP_DEADLINE_SECONDS : ℤ := 300

structure BuildSwapInput where
  amountIn : ℤ
  minOut : ℤ
  slippageBps : JsNumber
  path : List String
  /-- The wallet: `to`. -/
  receiver : String
  /-- In seconds. -/
  deadline : ℤ
deriving DecidableEq

structure BuiltSwap (τ : Type) where
  tx : τ
  simulatedAmounts : List ℤ

def movedMessage : String := "The price moved past your slippage limit, so the swap was refused. Nothing was exchanged."

/-- A number of basis points in percent. -/
def percent (bps : ℕ) : String :=
  String.ofList (Decimal.withFraction (Nat.toDigits 10 (bps / 100)) (Decimal.fraction 2 (bps % 100)))

def assertSlippageWithin (slippageBps : JsNumber) (maxSlippageBps : ℕ) : Except SwapError ℤ :=
  orStop (integerWithin 1 maxSlippageBps slippageBps)
    (.venue ("Slippage must be between 0.01% and " ++ percent maxSlippageBps ++ "%.") none)

def assertMeetsMinOut (simulatedAmounts : List ℤ) (minOut : ℤ) : Except SwapError ℤ :=
  orStop (simulatedAmounts.getLast?.filter (minOut ≤ ·)) (.venue movedMessage (some 507))

/-- An argument of a call of the router, by how it becomes an `ScVal`. -/
inductive RouterArg where
  | i128 (n : ℤ)
  | u64 (n : ℤ)
  | path (ids : List String)
  | address (id : String)
deriving DecidableEq

/-- `buildSwap` of the Soroswap venue.  `build` assembles and simulates a call of the router, and gives the result of the
simulation beside. -/
def soroswapBuildSwap {τ : Type} (maxSlippageBps : ℕ)
    (build : String → List RouterArg → Except SwapError (τ × Except SwapError (List ℤ))) (x : BuildSwapInput) :
    Except SwapError (BuiltSwap τ) := do
  let _ ← assertSlippageWithin x.slippageBps maxSlippageBps
  let (tx, result) ← build "swap_exact_tokens_for_tokens"
    [.i128 x.amountIn, .i128 x.minOut, .path x.path, .address x.receiver, .u64 x.deadline]
  let simulatedAmounts ← result
  let _ ← assertMeetsMinOut simulatedAmounts x.minOut
  return ⟨tx, simulatedAmounts⟩

theorem assertMeetsMinOut_ok {simulatedAmounts : List ℤ} {minOut out : ℤ} :
    assertMeetsMinOut simulatedAmounts minOut = .ok out ↔ simulatedAmounts.getLast? = some out ∧ minOut ≤ out := by
  simp [assertMeetsMinOut, Option.filter_eq_some_iff]

/-- What the Soroswap venue builds is a call of the router with the amounts, the path and the receiver it was given. -/
theorem soroswapBuildSwap_ok {τ : Type} {maxSlippageBps : ℕ}
    {build : String → List RouterArg → Except SwapError (τ × Except SwapError (List ℤ))} {x : BuildSwapInput}
    {built : BuiltSwap τ} (h : soroswapBuildSwap maxSlippageBps build x = .ok built) :
    build "swap_exact_tokens_for_tokens"
        [.i128 x.amountIn, .i128 x.minOut, .path x.path, .address x.receiver, .u64 x.deadline] =
      .ok (built.tx, .ok built.simulatedAmounts) ∧
    ∃ out, built.simulatedAmounts.getLast? = some out ∧ x.minOut ≤ out := by
  obtain ⟨-, -, h⟩ := bind_ok.mp h
  obtain ⟨⟨tx, result⟩, hbuild, h⟩ := bind_ok.mp h
  obtain ⟨simulatedAmounts, hresult, h⟩ := bind_ok.mp h
  obtain ⟨out, hmeets, h⟩ := bind_ok.mp h
  obtain rfl := pure_ok.mp h
  obtain rfl : result = .ok simulatedAmounts := hresult
  exact ⟨hbuild, out, assertMeetsMinOut_ok.mp hmeets⟩

/-! ## Quoting -/

section Quote

variable (sell buy : RegisteredAsset) (amountIn : ℤ)

/-- Direct, then by way of the native asset. -/
def candidatePaths (xlm : String) : List (List String) :=
  [sell.contractId, buy.contractId] ::
    if sell.contractId ≠ xlm ∧ buy.contractId ≠ xlm then [[sell.contractId, xlm, buy.contractId]] else []

/-- What a venue answers for a path, and when. -/
structure Answer where
  hopAmounts : Except SwapError (Option (List (Option ℤ)))
  quotedAt : ℤ

def quoteOf (answer : List String → Answer) (path : List String) : Except SwapError SwapQuote := do
  let hopAmounts ← (answer path).hopAmounts
  normalizeQuote sell buy amountIn path hopAmounts (answer path).quotedAt

/-- The better one of the best quote so far and a new one. -/
def better : Option SwapQuote → SwapQuote → SwapQuote
  | some best, quote => if best.expectedOut < quote.expectedOut then quote else best
  | none, quote => quote

/-- A round of the loop: the best quote so far, and the last error. -/
def consider (answer : List String → Answer) (state : Option SwapQuote × Option SwapError) (path : List String) :
    Option SwapQuote × Option SwapError :=
  match quoteOf sell buy amountIn answer path with
  | .ok quote => (some (better state.1 quote), state.2)
  | .error err => (state.1, some err)

/-- `quote` -/
def bestQuote (xlm : String) (answer : List String → Answer) (resolve : String → Option RegisteredAsset) :
    Except SwapError SwapQuote := do
  ensure (sell.contractId ≠ buy.contractId) (.quote "Pick two different assets.")
  ensure (0 < amountIn) (.quote "Amount must be greater than zero.")
  let (best, lastError) := (candidatePaths sell buy xlm).foldl (consider sell buy amountIn answer) (none, none)
  match best with
  | none =>
    match lastError with
    | some (.quote message) => .error (.quote message)
    | some (.venue message code) => .error (.venue message code)
    | _ => .error (.quote "No route between these assets on the venue.")
  | some best =>
    ensure (∀ id ∈ best.path, (resolve id).isSome) (.quote "The venue routed through an unknown asset.")
    return best

theorem better_spec (best : Option SwapQuote) (quote : SwapQuote) :
    (better best quote = quote ∨ best = some (better best quote)) ∧
    quote.expectedOut ≤ (better best quote).expectedOut ∧ ∀ q ∈ best, q.expectedOut ≤ (better best quote).expectedOut := by
  cases best with
  | none => exact ⟨.inl rfl, le_rfl, by simp⟩
  | some best =>
    simp only [better]
    split_ifs with hlt
    · exact ⟨.inl rfl, le_rfl, by simp [hlt.le]⟩
    · exact ⟨.inr rfl, not_lt.mp hlt, by simp⟩

/-- A quote found is the answer for one of the paths, and none of the answers is better. -/
theorem foldl_consider (answer : List String → Answer) (paths : List (List String)) :
    (∀ q ∈ (paths.foldl (consider sell buy amountIn answer) (none, none)).1,
      ∃ path ∈ paths, quoteOf sell buy amountIn answer path = .ok q) ∧
    ∀ path ∈ paths, ∀ q', quoteOf sell buy amountIn answer path = .ok q' →
      ∃ q ∈ (paths.foldl (consider sell buy amountIn answer) (none, none)).1, q'.expectedOut ≤ q.expectedOut := by
  induction paths using List.reverseRecOn with
  | nil => simp
  | append_singleton paths last ih =>
    obtain ⟨hfound, hbest⟩ := ih
    simp only [List.foldl_append, List.foldl_cons, List.foldl_nil]
    set before := paths.foldl (consider sell buy amountIn answer) (none, none)
    cases hlast : quoteOf sell buy amountIn answer last with
    | error err =>
      simp only [consider, hlast]
      refine ⟨fun q hq => ?_, fun path hpath q' hq' => ?_⟩
      · obtain ⟨path, hpath, hquote⟩ := hfound q hq
        exact ⟨path, List.mem_append_left _ hpath, hquote⟩
      · rcases List.mem_append.mp hpath with hpath | hpath
        · exact hbest path hpath q' hq'
        · obtain rfl := List.mem_singleton.mp hpath
          rw [hlast] at hq'
          cases hq'
    | ok quote =>
      simp only [consider, hlast]
      obtain ⟨hpick, hnew, hold⟩ := better_spec before.1 quote
      refine ⟨fun q hq => ?_, fun path hpath q' hq' => ⟨_, rfl, ?_⟩⟩
      · obtain rfl := Option.some.inj hq
        rcases hpick with heq | hkept
        · exact ⟨last, List.mem_append_right _ (List.mem_singleton_self _), hlast.trans (congrArg Except.ok heq.symm)⟩
        · obtain ⟨path, hpath, hquote⟩ := hfound _ hkept
          exact ⟨path, List.mem_append_left _ hpath, hquote⟩
      · rcases List.mem_append.mp hpath with hpath | hpath
        · obtain ⟨q, hq, hle⟩ := hbest path hpath q' hq'
          exact hle.trans (hold q hq)
        · obtain rfl := List.mem_singleton.mp hpath
          obtain rfl := Except.ok.inj (hlast.symm.trans hq')
          exact hnew

/-- **The best quote** is consistent, for one of the candidate paths, and no venue answer for them is better. -/
theorem bestQuote_ok {xlm : String} {answer : List String → Answer} {resolve : String → Option RegisteredAsset}
    {q : SwapQuote} (h : bestQuote sell buy amountIn xlm answer resolve = .ok q) :
    q.Consistent ∧ q.sell = sell ∧ q.buy = buy ∧ q.amountIn = amountIn ∧ q.path ∈ candidatePaths sell buy xlm ∧
    q.quotedAt = (answer q.path).quotedAt ∧
    ∀ path ∈ candidatePaths sell buy xlm, ∀ q', quoteOf sell buy amountIn answer path = .ok q' →
      q'.expectedOut ≤ q.expectedOut := by
  obtain ⟨-, h⟩ := check_bind_ok.mp h
  obtain ⟨-, h⟩ := check_bind_ok.mp h
  obtain ⟨hfound, hbest⟩ := foldl_consider sell buy amountIn answer (candidatePaths sell buy xlm)
  generalize (candidatePaths sell buy xlm).foldl (consider sell buy amountIn answer) (none, none) = state at h hfound hbest
  obtain ⟨best, lastError⟩ := state
  cases best with
  | none => rcases lastError with _ | ⟨⟩ | ⟨⟩ | ⟨⟩ <;> cases h
  | some best =>
    obtain ⟨-, h⟩ := check_bind_ok.mp h
    obtain rfl := pure_ok.mp h
    obtain ⟨path, hpath, hquote⟩ := hfound best rfl
    obtain ⟨hops, -, hquote⟩ := bind_ok.mp hquote
    obtain ⟨hconsistent, hsell, hbuy, hin, rfl, hat⟩ := normalizeQuote_consistent hquote
    refine ⟨hconsistent, hsell, hbuy, hin, hpath, hat, fun path' hpath' q' hq' => ?_⟩
    obtain ⟨q, hq, hle⟩ := hbest path' hpath' q' hq'
    obtain rfl := Option.some.inj hq
    exact hle

end Quote

/-! ## Preparing and confirming -/

structure SwapReview where
  sender : String
  network : Network
  venue : String
  router : String
  sell : RegisteredAsset
  buy : RegisteredAsset
  amountIn : ℤ
  expectedOut : ℤ
  minOut : ℤ
  slippageBps : JsNumber
  rate : String
  worstRate : String
  route : List RegisteredAsset
deriving DecidableEq

structure SwapClientDeps where
  venueName : String
  router : String
  network : Network
  maxQuoteAgeMs : Option ℤ

/-- A call of `prepare`: its input, the two readings of the clock, and the venue as it answers then. -/
structure PrepareCall (τ : Type) where
  sender : String
  quote : SwapQuote
  slippageBps : JsNumber
  resolve : String → Option RegisteredAsset
  asked : ℤ
  built : ℤ
  buildSwap : BuildSwapInput → Except SwapError (BuiltSwap τ)

/-- The review, and what `confirm` signs. -/
structure PreparedSwap (τ : Type) where
  review : SwapReview
  tx : τ

section Client

variable {τ : Type} (d : SwapClientDeps)

/-- What the venue is asked to build. -/
def PrepareCall.request (call : PrepareCall τ) (bound : SlippageBound) : BuildSwapInput where
  amountIn := call.quote.amountIn
  minOut := bound.minOut
  slippageBps := bound.slippageBps
  path := call.quote.path
  receiver := call.sender
  deadline := call.built / 1000 + SWAP_DEADLINE_SECONDS

def expiredMessage : String := "This quote has expired. Get a fresh quote before approving."

def prepare (call : PrepareCall τ) : Except SwapError (PreparedSwap τ) := do
  ensure (isQuoteFresh call.quote call.asked d.maxQuoteAgeMs = true) (.quote expiredMessage)
  let bound ← slippageBound call.quote call.slippageBps
  let built ← call.buildSwap (call.request bound)
  -- the check of `assertMeetsMinOut`, made for every venue
  let simulatedOut ← assertMeetsMinOut built.simulatedAmounts bound.minOut
  let route ← orStop (call.quote.path.mapM call.resolve) (.quote "The venue routed through an unknown asset.")
  let rate ← quotedRate { call.quote with expectedOut := simulatedOut }
  let worstRate ← worstCaseRate call.quote bound
  return {
    review := {
      sender := call.sender
      network := d.network
      venue := d.venueName
      router := d.router
      sell := call.quote.sell
      buy := call.quote.buy
      amountIn := call.quote.amountIn
      expectedOut := simulatedOut
      minOut := bound.minOut
      slippageBps := bound.slippageBps
      rate := rate
      worstRate := worstRate
      route := route }
    tx := built.tx }

/-- What `kit.sign` was asked for, and when. -/
structure Signature (τ : Type) where
  tx : τ
  quote : SwapQuote
  time : ℤ

structure Session (τ : Type) where
  prepared : List (PrepareCall τ × PreparedSwap τ)
  signed : List (Signature τ)
  submitted : List (String × Network)

/-- `prepare`, or `confirm` of a swap prepared before: at a time, with what signing and `signedToXdr` give. -/
inductive Op (τ : Type) where
  | prepare (call : PrepareCall τ)
  | confirm (k : ℕ) (time : ℤ) (signedXdr : Option String)

def Session.start : Session τ := ⟨[], [], []⟩

/-- `confirm` -/
def Session.confirm (s : Session τ) (call : PrepareCall τ) (p : PreparedSwap τ) (time : ℤ) (signedXdr : Option String) :
    Session τ :=
  { s with
    signed := s.signed ++ [⟨p.tx, call.quote, time⟩]
    submitted := s.submitted ++ (signedXdr.map (·, d.network)).toList }

def next (s : Session τ) : Op τ → Session τ
  | .prepare call =>
    match prepare d call with
    | .ok p => { s with prepared := s.prepared ++ [(call, p)] }
    | .error _ => s
  | .confirm k time signedXdr =>
    match s.prepared[k]? with
    | some (call, p) => s.confirm d call p time signedXdr
    | none => s

/-- `confirm` of `SwapPanel`: the age is checked again, against the default. -/
def approve (s : Session τ) (k : ℕ) (time : ℤ) (signedXdr : Option String) : Session τ :=
  match s.prepared[k]? with
  | some (call, _) => if isQuoteFresh call.quote time none then next d s (.confirm k time signedXdr) else s
  | none => s

/-! ## What must hold of a run -/

/-- What is shown is what is encoded and simulated, with a floor that keeps to the tolerance. -/
structure Honest (call : PrepareCall τ) (p : PreparedSwap τ) : Prop where
  /-- The transaction is built for the amounts, the route and the wallet of the review. -/
  encodes : ∃ deadline amounts, call.buildSwap ⟨p.review.amountIn, p.review.minOut, p.review.slippageBps,
      call.quote.path, p.review.sender, deadline⟩ = .ok ⟨p.tx, amounts⟩ ∧ amounts.getLast? = some p.review.expectedOut
  /-- On Soroswap that is a call of the router. -/
  router : ∀ maxSlippageBps build, call.buildSwap = soroswapBuildSwap maxSlippageBps build → ∃ deadline amounts,
    build "swap_exact_tokens_for_tokens" [.i128 p.review.amountIn, .i128 p.review.minOut, .path call.quote.path,
      .address p.review.sender, .u64 deadline] = .ok (p.tx, .ok amounts)
  route : call.quote.path.mapM call.resolve = some p.review.route
  quoted : p.review.sell = call.quote.sell ∧ p.review.buy = call.quote.buy ∧ p.review.amountIn = call.quote.amountIn ∧
    p.review.slippageBps = call.slippageBps ∧ p.review.sender = call.sender
  floor : ∃ bps : ℤ, p.review.slippageBps = .finite bps ∧
    p.review.minOut = ⌊(call.quote.expectedOut * (10000 - bps) : ℚ) / 10000⌋
  positive : 1 ≤ p.review.minOut
  meets : p.review.minOut ≤ p.review.expectedOut
  rate : Truncates p.review.rate (exactRate call.quote p.review.expectedOut)
  worstRate : Truncates p.review.worstRate (exactRate call.quote p.review.minOut)
  fresh : call.asked - call.quote.quotedAt ≤ d.maxQuoteAgeMs.getD QUOTE_TTL_MS

/-- Every swap prepared is honest, and every signature was asked for a quote that is not too old. -/
structure Safe (s : Session τ) : Prop where
  prepared : ∀ x ∈ s.prepared, Honest d x.1 x.2
  signed : ∀ sig ∈ s.signed, sig.time - sig.quote.quotedAt ≤ d.maxQuoteAgeMs.getD QUOTE_TTL_MS

/-- A `confirm` comes while the quote of its swap is fresh. -/
def InTime (s : Session τ) : Op τ → Prop
  | .prepare _ => True
  | .confirm k time _ => ∀ call p, s.prepared[k]? = some (call, p) → isQuoteFresh call.quote time d.maxQuoteAgeMs = true

end Client

/-! ## One step -/

section Steps

variable {τ : Type} {d : SwapClientDeps} {call : PrepareCall τ} {p : PreparedSwap τ} {s : Session τ} {op : Op τ}

theorem isQuoteFresh_iff {quote : SwapQuote} {now : ℤ} {maxAgeMs : Option ℤ} :
    isQuoteFresh quote now maxAgeMs = true ↔ now - quote.quotedAt ≤ maxAgeMs.getD QUOTE_TTL_MS := decide_eq_true_iff

/-- **A swap that is prepared** shows what its transaction encodes. -/
theorem prepare_honest (h : prepare d call = .ok p) : Honest d call p := by
  obtain ⟨hfresh, h⟩ := check_bind_ok.mp h
  obtain ⟨bound, hbound, h⟩ := bind_ok.mp h
  obtain ⟨built, hbuilt, h⟩ := bind_ok.mp h
  obtain ⟨simulatedOut, hmeets, h⟩ := bind_ok.mp h
  obtain ⟨route, hroute, h⟩ := bind_ok.mp h
  obtain ⟨rate, hrate, h⟩ := bind_ok.mp h
  obtain ⟨worstRate, hworst, h⟩ := bind_ok.mp h
  obtain rfl := pure_ok.mp h
  obtain ⟨minOut, hmin, hbound⟩ := bind_ok.mp hbound
  obtain rfl := pure_ok.mp hbound
  obtain ⟨bps, hbps, -, -, hfloor, hpositive⟩ := minimumOut_floor hmin
  obtain ⟨hlast, hleast⟩ := assertMeetsMinOut_ok.mp hmeets
  have hpos : 0 ≤ minOut := by omega
  have hout : 0 ≤ simulatedOut := hpos.trans hleast
  refine ⟨⟨_, built.simulatedAmounts, hbuilt, hlast⟩, fun maxSlippageBps build hvenue => ?_, orStop_ok.mp hroute,
    ⟨rfl, rfl, rfl, rfl, rfl⟩, ⟨bps, hbps, hfloor⟩, hpositive, hleast, ?_, ?_,
    isQuoteFresh_iff.mp (ensure_ok.mp hfresh)⟩
  · rw [hvenue] at hbuilt
    exact ⟨_, _, (soroswapBuildSwap_ok hbuilt).1⟩
  · exact formatRate_value (q := call.quote) hout hrate
  · exact formatRate_value hpos hworst

theorem next_prepare_ok (h : prepare d call = .ok p) :
    next d s (.prepare call) = { s with prepared := s.prepared ++ [(call, p)] } := by
  simp [next, h]

theorem next_prepare_error {e : SwapError} (h : prepare d call = .error e) : next d s (.prepare call) = s := by
  simp [next, h]

theorem next_confirm {k : ℕ} {time : ℤ} {signedXdr : Option String} (h : s.prepared[k]? = some (call, p)) :
    next d s (.confirm k time signedXdr) = s.confirm d call p time signedXdr := by
  simp [next, h]

theorem next_confirm_none {k : ℕ} {time : ℤ} {signedXdr : Option String} (h : s.prepared[k]? = none) :
    next d s (.confirm k time signedXdr) = s := by
  simp [next, h]

/-- **Step**: a session stays safe just when a `confirm` comes in time. -/
theorem safe_next_iff (h : Safe d s) : Safe d (next d s op) ↔ InTime d s op := by
  cases op with
  | prepare call =>
    refine iff_of_true ?_ trivial
    cases hprepare : prepare d call with
    | error e =>
      rw [next_prepare_error hprepare]
      exact h
    | ok p =>
      rw [next_prepare_ok hprepare]
      refine ⟨fun x hx => ?_, h.signed⟩
      rcases List.mem_append.mp hx with hbefore | hnew
      · exact h.prepared x hbefore
      · obtain rfl := List.mem_singleton.mp hnew
        exact prepare_honest hprepare
  | confirm k time signedXdr =>
    unfold InTime
    cases hswap : s.prepared[k]? with
    | none =>
      rw [next_confirm_none hswap]
      refine iff_of_true h fun call p hsome => ?_
      cases hswap.symm.trans hsome
    | some x =>
      rw [next_confirm hswap]
      constructor
      · intro hsafe call p hsome
        obtain rfl := Option.some.inj (hswap.symm.trans hsome)
        exact isQuoteFresh_iff.mpr
          (hsafe.signed ⟨p.tx, call.quote, time⟩ (List.mem_append_right _ (List.mem_singleton_self _)))
      · intro hfresh
        refine ⟨h.prepared, fun sig hsig => ?_⟩
        rcases List.mem_append.mp hsig with hbefore | hnew
        · exact h.signed sig hbefore
        · obtain rfl := List.mem_singleton.mp hnew
          exact isQuoteFresh_iff.mp (hfresh x.1 x.2 hswap)

/-- Through the panel nothing old is signed, unless the client keeps a shorter limit than the default. -/
theorem approve_safe {k : ℕ} {time : ℤ} {signedXdr : Option String} (h : Safe d s)
    (hlimit : QUOTE_TTL_MS ≤ d.maxQuoteAgeMs.getD QUOTE_TTL_MS) : Safe d (approve d s k time signedXdr) := by
  unfold approve
  split
  next call p hswap =>
    split_ifs with hfresh
    · refine (safe_next_iff h).mpr fun call' p' hsome => ?_
      obtain ⟨rfl, rfl⟩ := Prod.mk.inj (Option.some.inj (hswap.symm.trans hsome))
      exact isQuoteFresh_iff.mpr ((isQuoteFresh_iff.mp hfresh).trans hlimit)
    · exact h
  next => exact h

end Steps

/-! ## Runs -/

section Runs

variable {τ : Type}

/-- **Swaps**: whatever the venue answers and whenever, every swap prepared shows what its transaction encodes, and no
signature is asked for a quote older than the limit, in every state of a run, exactly when every `confirm` comes while the
quote of its swap is fresh. -/
theorem swaps_iff (d : SwapClientDeps) (ops : List (Op τ)) :
    (∀ pre, pre <+: ops → Safe d (run (next d) Session.start pre)) ↔ Along (next d) (InTime d) Session.start ops :=
  inv_prefix_iff (fun _ _ h _ => safe_next_iff h) ⟨by simp [Session.start], by simp [Session.start]⟩ along_true

/-- A quote is prepared when it is fresh, and signed a minute after it was fetched. -/
theorem stale_signed :
    let sell : RegisteredAsset := ⟨"usdc", "USD Coin", "USDC", none, "USDC", "CUSDC", 7⟩
    let buy : RegisteredAsset := ⟨"xlm", "Lumen", "XLM", none, "XLM", "CXLM", 7⟩
    let quote : SwapQuote := ⟨sell, buy, 1000, 2000, ["CUSDC", "CXLM"], [1000, 2000], 0⟩
    let call : PrepareCall String := ⟨"CWALLET", quote, .finite 50, fun id => if id = "CUSDC" then some sell else some buy,
      1000, 1000, fun _ => .ok ⟨"tx", [1000, 2000]⟩⟩
    let d : SwapClientDeps := ⟨"Soroswap", "CROUTER", .testnet, none⟩
    let s := run (next d) Session.start [.prepare call, .confirm 0 60000 (some "xdr")]
    s.signed = [⟨"tx", quote, 60000⟩] ∧ s.submitted = [("xdr", .testnet)] ∧ ¬ Safe d s := by
  refine ⟨rfl, rfl, fun h => ?_⟩
  have hold := h.signed _ (List.mem_singleton_self _)
  revert hold
  decide

end Runs

end Vellar.Web.Swaps
