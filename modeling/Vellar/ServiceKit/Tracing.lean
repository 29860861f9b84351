import Vellar.Lib.Hex
import Vellar.Lib.Sha256
import Vellar.Worker.ImportValidation
import Vellar.Worker.JsText
import Vellar.Worker.WasmSections

/-!
# Vellar.ServiceKit.Tracing — trace contexts over any number of hops

`extractTraceContext` and `injectTraceContext` of `packages/service-kit/src/tracing.ts`, the gateway's rewriting of the
proxied headers and the ids on a verification record.  The next hop reads the `traceparent`, which has the trace id in its
W3C form; `one_trace_iff`: the hops share one trace unless an id of another form meets a hop by headers.
-/

set_option autoImplicit false

namespace Vellar.ServiceKit.Tracing

open Worker (Platform trim truthy matchesClass isLowerHex isTraceId catchTrace)

/-! ## Ids -/

/-- `randomBytes(n)`, not all zero. -/
structure RandomBytes (n : ℕ) where
  bytes : List UInt8
  length_eq : bytes.length = n
  nonzero : ∃ b ∈ bytes, b ≠ 0

def newTraceId (random : RandomBytes 16) : String := Hex.hexOf random.bytes

def newSpanId (random : RandomBytes 8) : String := Hex.hexOf random.bytes

/-- `n` lower-case hexadecimal digits. -/
def isHex (n : ℕ) (s : String) : Bool := matchesClass isLowerHex n n s.toList

/-- `/^0+$/` -/
def isZeros (s : String) : Bool := decide (s ≠ "") && s.toList.all (· = '0')

def sha256Hex (s : String) : String := Hex.hexOf (Sha256.sha256 (Wasm.utf8Bytes s))

def slice (n : ℕ) (s : String) : String := String.ofList (s.toList.take n)

section Propagation

variable (P : Platform)

def toW3CTraceId (traceId : String) : String :=
  let compact := P.toLowerCase (String.ofList (traceId.toList.filter (· ≠ '-')))
  if isHex 32 compact && !isZeros compact then compact else slice 32 (sha256Hex traceId)

def toW3CSpanId (spanId : String) : String :=
  let lower := P.toLowerCase spanId
  if isHex 16 lower && !isZeros lower then lower else slice 16 (sha256Hex spanId)

/-! ## Headers -/

inductive HeaderValue where
  | undefined
  | text (value : String)
  | many (values : List String)
deriving DecidableEq

/-- The keys of an object, in their order, with their values. -/
abbrev TraceHeaderMap := List (String × HeaderValue)

def lookup (headers : TraceHeaderMap) (name : String) : HeaderValue :=
  match headers.find? fun h => h.1 = name with
  | some h => h.2
  | none => .undefined

def header (headers : TraceHeaderMap) (name : String) : Option String :=
  let value :=
    match lookup headers name with
    | .undefined =>
      match headers.find? fun (h : String × HeaderValue) => P.toLowerCase h.1 = name with
      | some h => lookup headers h.1
      | none => .undefined
    | value => value
  match value with
  | .undefined => none
  | .text value => some (trim value)
  | .many values => values.head?.map trim

def safeId (value : Option String) : Option String := value.filter isTraceId

structure TraceContext where
  traceId : String
  spanId : Option String
deriving DecidableEq

/-- The first `n` characters and the rest, if they are hexadecimal. -/
def takeHex (n : ℕ) (cs : List Char) : Option (List Char × List Char) :=
  if matchesClass isLowerHex n n (cs.take n) then some (cs.take n, cs.drop n) else none

def dash : List Char → Option (List Char)
  | '-' :: cs => some cs
  | _ => none

/-- The groups of `TRACEPARENT_RE`, but for the flags. -/
def execTraceparent (cs : List Char) : Option (String × String × String) := do
  let (version, cs) ← takeHex 2 cs
  let (traceId, cs) ← (dash cs).bind (takeHex 32)
  let (spanId, cs) ← (dash cs).bind (takeHex 16)
  let (_, cs) ← (dash cs).bind (takeHex 2)
  if cs = [] then some (String.ofList version, String.ofList traceId, String.ofList spanId) else none

def parseTraceparent (value : Option String) : Option TraceContext := do
  let value ← truthy value
  let (version, traceId, spanId) ← execTraceparent (P.toLowerCase value).toList
  if version = "ff" || isZeros traceId || isZeros spanId then none else some ⟨traceId, some spanId⟩

/-! ## Propagation -/

def extractTraceContext (headers : TraceHeaderMap) (random : RandomBytes 16) : TraceContext :=
  match parseTraceparent P (header P headers "traceparent") with
  | some fromParent => fromParent
  | none =>
    match (safeId (header P headers "x-trace-id")).or (safeId (header P headers "x-request-id")) with
    | some traceId => ⟨traceId, safeId (header P headers "x-span-id")⟩
    | none => ⟨newTraceId random, none⟩

def traceparentOf (traceId spanId : String) : String := "00-" ++ toW3CTraceId P traceId ++ "-" ++ toW3CSpanId P spanId ++ "-01"

/-- `headers[name] = value` -/
def setHeader (headers : TraceHeaderMap) (name value : String) : TraceHeaderMap :=
  if headers.any fun h => h.1 = name then headers.map fun h => if h.1 = name then (name, .text value) else h
  else headers ++ [(name, .text value)]

/-- The injected headers over those that are there already. -/
def injectTraceContext (context : TraceContext) (random : RandomBytes 8) (headers : TraceHeaderMap) : TraceHeaderMap :=
  let spanId := context.spanId.getD (newSpanId random)
  setHeader (setHeader (setHeader headers "x-trace-id" context.traceId) "x-span-id" spanId) "traceparent"
    (traceparentOf P context.traceId spanId)

/-! ## Hops -/

structure TraceSpan where
  traceId : String
  spanId : String
  parentSpanId : Option String
deriving DecidableEq

def childContext (span : TraceSpan) : TraceContext := ⟨span.traceId, some span.spanId⟩

/-- What a hop draws. -/
structure Draws where
  trace : RandomBytes 16
  span : RandomBytes 8
  /-- For an injection without a span, which does not occur. -/
  inject : RandomBytes 8

/-- The span a hop runs under. -/
def serverSpan (headers : TraceHeaderMap) (draws : Draws) : TraceSpan :=
  let parent := extractTraceContext P headers draws.trace
  ⟨parent.traceId, newSpanId draws.span, parent.spanId⟩

/-- How a hop reaches the next: over the headers of a request, or on a verification record. -/
inductive Link where
  | request (headers : TraceHeaderMap)
  | record

def fieldOf : Option String → HeaderValue
  | some value => .text value
  | none => .undefined

/-- What the next hop extracts its context from. -/
def inbound (span : TraceSpan) (random : RandomBytes 8) : Link → TraceHeaderMap
  | .request headers => injectTraceContext P (childContext span) random headers
  | .record => [("x-trace-id", fieldOf (catchTrace (some span.traceId))), ("x-span-id", fieldOf (catchTrace (some span.spanId)))]

/-- The spans of a chain, from that of its first hop on. -/
def spans (first : TraceSpan) : List (Link × Draws) → List TraceSpan
  | [] => [first]
  | (link, draws) :: rest => first :: spans (serverSpan P (inbound P first draws.inject link) draws) rest

def chain (headers : TraceHeaderMap) (draws : Draws) (links : List (Link × Draws)) : List TraceSpan :=
  spans P (serverSpan P headers draws) links

/-! ## What is promised -/

structure OneTrace (headers : TraceHeaderMap) (draws : Draws) (links : List (Link × Draws)) : Prop where
  same : ∀ span ∈ chain P headers draws links, span.traceId = (serverSpan P headers draws).traceId
  parent : (chain P headers draws links).IsChain fun span next => next.parentSpanId = some span.spanId
  /-- Every `traceparent` is accepted. -/
  accepted : ∀ span ∈ chain P headers draws links,
    (parseTraceparent P (some (traceparentOf P span.traceId span.spanId))).isSome = true
  /-- Every id is a short token. -/
  safe : ∀ span ∈ chain P headers draws links, isTraceId span.traceId = true ∧ isTraceId span.spanId = true

/-- A lower-case hexadecimal id that is not all zero. -/
def IsW3C (n : ℕ) (id : String) : Prop := isHex n id = true ∧ isZeros id = false

instance (n : ℕ) (id : String) : Decidable (IsW3C n id) := inferInstanceAs (Decidable (_ ∧ _))

/-- The first hop takes its trace from a `traceparent`, from an id of the W3C form, or from none. -/
def Canonical (headers : TraceHeaderMap) : Prop :=
  parseTraceparent P (header P headers "traceparent") = none →
    ∀ traceId, (safeId (header P headers "x-trace-id")).or (safeId (header P headers "x-request-id")) = some traceId →
      IsW3C 32 traceId

end Propagation

/-! ## Hexadecimal ids -/

section Ids

variable {P : Platform} {n : ℕ} {id s : String} {c : Char}

theorem matchesClass_iff {cls : Char → Bool} {lo hi : ℕ} {cs : List Char} :
    matchesClass cls lo hi cs = true ↔ lo ≤ cs.length ∧ cs.length ≤ hi ∧ ∀ c ∈ cs, cls c = true := by
  unfold matchesClass
  rw [Bool.and_eq_true, Bool.and_eq_true, decide_eq_true_iff, decide_eq_true_iff, List.all_eq_true, and_assoc]

theorem isHex_iff : isHex n s = true ↔ s.toList.length = n ∧ ∀ c ∈ s.toList, isLowerHex c = true := by
  unfold isHex
  rw [matchesClass_iff]
  constructor
  · rintro ⟨hlo, hhi, hall⟩
    exact ⟨le_antisymm hhi hlo, hall⟩
  · rintro ⟨rfl, hall⟩
    exact ⟨le_rfl, le_rfl, hall⟩

theorem isLowerHex_of_isDigit (h : Hex.IsDigit c) : isLowerHex c = true := by
  simpa [isLowerHex, Hex.IsDigit] using h

/-- A hexadecimal digit is an ASCII character that neither lower case, nor a dash, nor a space is about. -/
theorem isLowerHex_facts (h : isLowerHex c = true) :
    c.toNat < 128 ∧ Worker.lowerChar c = c ∧ c ≠ '-' ∧ Worker.isTraceChar c = true := by
  simp only [isLowerHex, Bool.or_eq_true, Bool.and_eq_true, decide_eq_true_eq] at h
  refine ⟨?_, ?_, ?_, ?_⟩
  · rcases h with ⟨_, hle⟩ | ⟨_, hle⟩
    · exact lt_of_le_of_lt (show c.toNat ≤ '9'.toNat from hle) (by decide)
    · exact lt_of_le_of_lt (show c.toNat ≤ 'f'.toNat from hle) (by decide)
  · unfold Worker.lowerChar
    rw [if_neg]
    rintro ⟨hlo, hhi⟩
    rcases h with ⟨_, hle⟩ | ⟨hle, _⟩
    · exact absurd (le_trans hlo hle) (by decide)
    · exact absurd (le_trans hle hhi) (by decide)
  · rintro rfl
    revert h
    decide
  · simp only [Worker.isTraceChar, Bool.or_eq_true, Bool.and_eq_true, decide_eq_true_eq]
    rcases h with h | ⟨hlo, hhi⟩
    · exact .inl (.inr h)
    · exact .inl (.inl (.inr ⟨hlo, le_trans hhi (by decide)⟩))

theorem lower_of_isHex (h : isHex n id = true) : P.toLowerCase id = id := by
  have hfacts := fun c hc => isLowerHex_facts ((isHex_iff.mp h).2 c hc)
  rw [P.toLowerCase_ascii id fun c hc => (hfacts c hc).1]
  exact Worker.asciiLower_eq_self fun c hc => (hfacts c hc).2.1

theorem compact_of_isHex (h : isHex n id = true) : String.ofList (id.toList.filter (· ≠ '-')) = id := by
  have hall : ∀ c ∈ id.toList, decide (c ≠ '-') = true := fun c hc =>
    decide_eq_true (isLowerHex_facts ((isHex_iff.mp h).2 c hc)).2.2.1
  rw [List.filter_eq_self.mpr hall, String.ofList_toList]

theorem isTraceId_of_isHex (h : isHex n id = true) (hlo : 1 ≤ n) (hhi : n ≤ 128) : isTraceId id = true := by
  obtain ⟨hlength, hall⟩ := isHex_iff.mp h
  exact matchesClass_iff.mpr ⟨by omega, by omega, fun c hc => (isLowerHex_facts (hall c hc)).2.2.2⟩

/-- No character of a trace id is white space. -/
theorem isJsSpace_of_isTraceChar (h : Worker.isTraceChar c = true) : Worker.isJsSpace c = false := by
  have hbounds : 33 ≤ c.toNat ∧ c.toNat < 128 := by
    simp only [Worker.isTraceChar, Bool.or_eq_true, Bool.and_eq_true, decide_eq_true_eq, List.mem_cons, List.not_mem_nil,
      or_false] at h
    rcases h with ((⟨hlo, hhi⟩ | ⟨hlo, hhi⟩) | ⟨hlo, hhi⟩) | rfl | rfl | rfl | rfl
    · exact ⟨le_trans (by decide) (show 'A'.toNat ≤ c.toNat from hlo), lt_of_le_of_lt (show c.toNat ≤ 'Z'.toNat from hhi) (by decide)⟩
    · exact ⟨le_trans (by decide) (show 'a'.toNat ≤ c.toNat from hlo), lt_of_le_of_lt (show c.toNat ≤ 'z'.toNat from hhi) (by decide)⟩
    · exact ⟨le_trans (by decide) (show '0'.toNat ≤ c.toNat from hlo), lt_of_le_of_lt (show c.toNat ≤ '9'.toNat from hhi) (by decide)⟩
    all_goals decide
  unfold Worker.isJsSpace
  simp only [Bool.or_eq_false_iff, decide_eq_false_iff_not, Bool.and_eq_false_iff, List.mem_cons, List.not_mem_nil, or_false]
  omega

theorem trim_of_isTraceId (h : isTraceId id = true) : trim id = id :=
  Worker.trim_eq_self fun c hc => isJsSpace_of_isTraceChar ((matchesClass_iff.mp h).2.2 c hc)

theorem isHex_hexOf (bytes : List UInt8) : isHex (2 * bytes.length) (Hex.hexOf bytes) = true := by
  rw [isHex_iff, Hex.hexOf, String.toList_ofList]
  exact ⟨Hex.length_hexChars bytes, fun c hc => isLowerHex_of_isDigit (Hex.isDigit_of_mem hc)⟩

/-- What is drawn is in the W3C form. -/
theorem isW3C_hexOf (random : RandomBytes n) : IsW3C (2 * n) (Hex.hexOf random.bytes) := by
  have hhex : isHex (2 * random.bytes.length) (Hex.hexOf random.bytes) = true := isHex_hexOf _
  rw [random.length_eq] at hhex
  refine ⟨hhex, ?_⟩
  obtain ⟨b, hb, hne⟩ := random.nonzero
  unfold isZeros
  rw [Bool.and_eq_false_iff]
  refine .inr (List.all_eq_false.mpr ?_)
  rw [Hex.hexOf, String.toList_ofList]
  have hzero : ∀ m, m < 16 → m ≠ 0 → Hex.hexDigit m ≠ '0' := by decide
  by_cases hhigh : b.toNat / 16 = 0
  · have hlow : b.toNat % 16 ≠ 0 := by
      intro hlow
      refine hne (UInt8.toNat_inj.mp ?_)
      show b.toNat = 0
      omega
    refine ⟨Hex.hexDigit (b.toNat % 16), List.mem_flatMap.mpr ⟨b, hb, by simp⟩, ?_⟩
    simpa using hzero _ (by omega) hlow
  · have hlt := b.toNat_lt
    refine ⟨Hex.hexDigit (b.toNat / 16), List.mem_flatMap.mpr ⟨b, hb, by simp⟩, ?_⟩
    simpa using hzero _ (by omega) hhigh

/-- An id of the W3C form stays as it is. -/
theorem toW3CTraceId_eq_self (h : IsW3C 32 id) : toW3CTraceId P id = id := by
  unfold toW3CTraceId
  simp only [compact_of_isHex h.1, lower_of_isHex h.1, h.1, h.2, Bool.not_false, Bool.and_self, if_true]

theorem toW3CSpanId_eq_self (h : IsW3C 16 id) : toW3CSpanId P id = id := by
  unfold toW3CSpanId
  simp only [lower_of_isHex h.1, h.1, h.2, Bool.not_false, Bool.and_self, if_true]

/-- **Every trace id is mapped to one of the W3C form**, but for a hash of zeros. -/
theorem isHex_toW3CTraceId : isHex 32 (toW3CTraceId P id) = true := by
  unfold toW3CTraceId
  dsimp only
  split_ifs with hcompact
  · exact (Bool.and_eq_true_iff.mp hcompact).1
  · have hhash := isHex_iff.mp (isHex_hexOf (Sha256.sha256 (Wasm.utf8Bytes id)))
    rw [Sha256.length_sha256] at hhash
    rw [isHex_iff, slice, String.toList_ofList, List.length_take]
    refine ⟨?_, fun c hc => hhash.2 c (List.mem_of_mem_take hc)⟩
    have hlength : (sha256Hex id).toList.length = 2 * 32 := hhash.1
    omega

end Ids

/-! ## What the next hop reads -/

section Reading

variable {P : Platform} {n : ℕ} {cs rest : List Char} {traceId spanId name value : String} {headers : TraceHeaderMap}
  {context : TraceContext} {span : TraceSpan} {random : RandomBytes 8} {draws : Draws}

theorem takeHex_append (hlength : cs.length = n) (hall : ∀ c ∈ cs, isLowerHex c = true) :
    takeHex n (cs ++ rest) = some (cs, rest) := by
  subst hlength
  unfold takeHex
  rw [List.take_left, List.drop_left, if_pos]
  exact matchesClass_iff.mpr ⟨le_rfl, le_rfl, hall⟩

theorem takeHex_some {taken : List Char} (h : takeHex n cs = some (taken, rest)) :
    taken.length = n ∧ ∀ c ∈ taken, isLowerHex c = true := by
  unfold takeHex at h
  split_ifs at h with hclass
  obtain ⟨rfl, rfl⟩ := Prod.mk.inj (Option.some.inj h)
  obtain ⟨hlo, hhi, hall⟩ := matchesClass_iff.mp hclass
  exact ⟨le_antisymm hhi hlo, hall⟩

/-- What `TRACEPARENT_RE` takes is hexadecimal. -/
theorem execTraceparent_some {version : String} (h : execTraceparent cs = some (version, traceId, spanId)) :
    isHex 32 traceId = true ∧ isHex 16 spanId = true := by
  simp only [execTraceparent, Option.bind_eq_bind, Option.bind_eq_some_iff, Prod.exists] at h
  obtain ⟨_, _, _, traceChars, _, ⟨_, _, htrace⟩, spanChars, _, ⟨_, _, hspan⟩, _, _, _, hend⟩ := h
  split_ifs at hend
  obtain ⟨_, hids⟩ := Prod.mk.inj (Option.some.inj hend)
  obtain ⟨rfl, rfl⟩ := Prod.mk.inj hids
  rw [isHex_iff, isHex_iff, String.toList_ofList, String.toList_ofList]
  exact ⟨takeHex_some htrace, takeHex_some hspan⟩

theorem execTraceparent_eq (htrace : isHex 32 traceId = true) (hspan : isHex 16 spanId = true) :
    execTraceparent ("00-" ++ traceId ++ "-" ++ spanId ++ "-01").toList = some ("00", traceId, spanId) := by
  obtain ⟨htlength, htall⟩ := isHex_iff.mp htrace
  obtain ⟨hslength, hsall⟩ := isHex_iff.mp hspan
  have hchars : ("00-" ++ traceId ++ "-" ++ spanId ++ "-01").toList =
      ['0', '0'] ++ '-' :: (traceId.toList ++ '-' :: (spanId.toList ++ '-' :: (['0', '1'] ++ []))) := by
    simp [String.toList_append]
  have hversion : ∀ rest, takeHex 2 (['0', '0'] ++ rest) = some (['0', '0'], rest) := fun rest =>
    takeHex_append rfl (List.all_eq_true.mp rfl)
  have hflags : takeHex 2 (['0', '1'] ++ []) = some (['0', '1'], []) := takeHex_append rfl (List.all_eq_true.mp rfl)
  have htraceId : ∀ rest, takeHex 32 (traceId.toList ++ rest) = some (traceId.toList, rest) := fun rest =>
    takeHex_append htlength htall
  have hspanId : ∀ rest, takeHex 16 (spanId.toList ++ rest) = some (spanId.toList, rest) := fun rest =>
    takeHex_append hslength hsall
  rw [hchars]
  simp only [execTraceparent, Option.bind_eq_bind, hversion, Option.bind_some, dash, htraceId, hspanId, hflags, if_true,
    String.ofList_toList]

/-- A `traceparent` is a text of lower-case hexadecimal digits and dashes. -/
theorem mem_traceparentOf (htrace : isHex 32 (toW3CTraceId P traceId) = true) (hspan : IsW3C 16 spanId) :
    ∀ c ∈ (traceparentOf P traceId spanId).toList, c.toNat < 128 ∧ Worker.lowerChar c = c ∧ Worker.isTraceChar c = true := by
  have hhex : ∀ c, isLowerHex c = true → c.toNat < 128 ∧ Worker.lowerChar c = c ∧ Worker.isTraceChar c = true := fun c hc =>
    ⟨(isLowerHex_facts hc).1, (isLowerHex_facts hc).2.1, (isLowerHex_facts hc).2.2.2⟩
  have hpart : ∀ part ∈ ["00-", "-", "-01"], ∀ c ∈ part.toList,
      c.toNat < 128 ∧ Worker.lowerChar c = c ∧ Worker.isTraceChar c = true := by
    simp [Worker.lowerChar, Worker.isTraceChar]
  intro c hc
  unfold traceparentOf at hc
  rw [toW3CSpanId_eq_self hspan] at hc
  simp only [String.toList_append, List.mem_append] at hc
  rcases hc with (((hc | hc) | hc) | hc) | hc
  · exact hpart "00-" (by simp) c hc
  · exact hhex c ((isHex_iff.mp htrace).2 c hc)
  · exact hpart "-" (by simp) c hc
  · exact hhex c ((isHex_iff.mp hspan.1).2 c hc)
  · exact hpart "-01" (by simp) c hc

/-- **An injected `traceparent` is accepted**, with the ids it was made of. -/
theorem parseTraceparent_traceparentOf (htrace : IsW3C 32 (toW3CTraceId P traceId)) (hspan : IsW3C 16 spanId) :
    parseTraceparent P (some (traceparentOf P traceId spanId)) = some ⟨toW3CTraceId P traceId, some spanId⟩ := by
  have htext : traceparentOf P traceId spanId = "00-" ++ toW3CTraceId P traceId ++ "-" ++ spanId ++ "-01" := by
    unfold traceparentOf
    rw [toW3CSpanId_eq_self hspan]
  have hchar := mem_traceparentOf htrace.1 hspan
  have hlower : P.toLowerCase (traceparentOf P traceId spanId) = traceparentOf P traceId spanId := by
    rw [P.toLowerCase_ascii _ fun c hc => (hchar c hc).1]
    exact Worker.asciiLower_eq_self fun c hc => (hchar c hc).2.1
  have hne : traceparentOf P traceId spanId ≠ "" := by
    rw [htext]
    intro h
    have hchars := congrArg String.toList h
    simp [String.toList_append] at hchars
  have htruthy : truthy (some (traceparentOf P traceId spanId)) = some (traceparentOf P traceId spanId) := by
    rw [truthy, Option.filter_some, if_pos (decide_eq_true hne)]
  unfold parseTraceparent
  rw [htruthy]
  simp only [Option.bind_eq_bind, Option.bind_some, hlower]
  rw [htext, execTraceparent_eq htrace.1 hspan.1, Option.bind_some, htrace.2, hspan.2]
  rfl

/-- What is read from a `traceparent` is in the W3C form. -/
theorem parseTraceparent_some {value : Option String} (h : parseTraceparent P value = some context) :
    IsW3C 32 context.traceId := by
  simp only [parseTraceparent, Option.bind_eq_bind, Option.bind_eq_some_iff, Prod.exists] at h
  obtain ⟨text, _, version, traceId, spanId, hexec, hend⟩ := h
  split_ifs at hend with hbad
  simp only [Bool.or_eq_true, not_or, Bool.not_eq_true] at hbad
  rw [← Option.some.inj hend]
  exact ⟨(execTraceparent_some hexec).1, hbad.1.2⟩

theorem lookup_setHeader : lookup (setHeader headers name value) name = .text value := by
  unfold setHeader lookup
  by_cases hany : headers.any fun h => h.1 = name
  · rw [if_pos hany]
    induction headers with
    | nil => cases hany
    | cons first rest ih =>
      by_cases hfirst : first.1 = name
      · simp [hfirst]
      · have hrest : rest.any fun h => h.1 = name := by simpa [hfirst] using hany
        simpa [hfirst] using ih hrest
  · rw [if_neg hany, List.find?_append]
    have hnone : headers.find? (fun h => h.1 = name) = none := by
      rw [List.find?_eq_none]
      intro h hh hname
      exact hany (List.any_eq_true.mpr ⟨h, hh, hname⟩)
    simp [hnone]

theorem header_of_text (h : lookup headers name = .text value) : header P headers name = some (trim value) := by
  unfold header
  rw [h]

/-- A hop over headers reads the W3C form of the trace and the span. -/
theorem extract_inject (htrace : IsW3C 32 (toW3CTraceId P span.traceId)) (hspan : IsW3C 16 span.spanId) (random' : RandomBytes 16) :
    extractTraceContext P (injectTraceContext P (childContext span) random headers) random' =
      ⟨toW3CTraceId P span.traceId, some span.spanId⟩ := by
  have hspace : ∀ c ∈ (traceparentOf P span.traceId span.spanId).toList, Worker.isJsSpace c = false := fun c hc =>
    isJsSpace_of_isTraceChar (mem_traceparentOf htrace.1 hspan c hc).2.2
  have hheader : header P (injectTraceContext P (childContext span) random headers) "traceparent" =
      some (traceparentOf P span.traceId span.spanId) := by
    rw [← Worker.trim_eq_self hspace]
    exact header_of_text lookup_setHeader
  unfold extractTraceContext
  rw [hheader, parseTraceparent_traceparentOf htrace hspan]

/-- A hop over a record reads the ids as they are. -/
theorem extract_record (htrace : isTraceId span.traceId = true) (hspan : isTraceId span.spanId = true)
    (random' : RandomBytes 16) :
    extractTraceContext P (inbound P span random .record) random' = ⟨span.traceId, some span.spanId⟩ := by
  have hcatch : ∀ id, isTraceId id = true → fieldOf (catchTrace (some id)) = .text id := by
    intro id hid
    rw [catchTrace, Option.filter_some, if_pos hid]
    rfl
  have hsafe : ∀ id, isTraceId id = true → safeId (some (trim id)) = some id := by
    intro id hid
    rw [trim_of_isTraceId hid, safeId, Option.filter_some, if_pos hid]
  have hlower : ∀ name, (name.toList.all fun c => decide (c.toNat < 128 ∧ Worker.lowerChar c = c)) = true →
      P.toLowerCase name = name := by
    intro name hname
    have hall := fun c hc => of_decide_eq_true (List.all_eq_true.mp hname c hc)
    rw [P.toLowerCase_ascii name fun c hc => (hall c hc).1]
    exact Worker.asciiLower_eq_self fun c hc => (hall c hc).2
  have hnone : header P (inbound P span random .record) "traceparent" = none := by
    simp [header, inbound, lookup, hlower "x-trace-id" (by decide), hlower "x-span-id" (by decide)]
  have hids : header P (inbound P span random .record) "x-trace-id" = some (trim span.traceId) ∧
      header P (inbound P span random .record) "x-span-id" = some (trim span.spanId) := by
    constructor
    · exact header_of_text (hcatch _ htrace)
    · exact header_of_text (hcatch _ hspan)
  unfold extractTraceContext
  rw [hnone, hids.1, hids.2, hsafe _ htrace, hsafe _ hspan]
  rfl

end Reading

/-! ## Chains -/

section Chains

variable {P : Platform} {headers : TraceHeaderMap} {span : TraceSpan} {draws : Draws} {link : Link}
  {links : List (Link × Draws)}

def Link.isRecord : Link → Bool
  | .record => true
  | .request _ => false

/-- A span whose ids can be passed on. -/
structure Sound (P : Platform) (span : TraceSpan) : Prop where
  trace : isTraceId span.traceId = true
  spanId : IsW3C 16 span.spanId
  hash : isZeros (toW3CTraceId P span.traceId) = false

theorem Sound.w3c (h : Sound P span) : IsW3C 32 (toW3CTraceId P span.traceId) := ⟨isHex_toW3CTraceId, h.hash⟩

/-- **Step**: the next hop has the trace id as it is or in its W3C form, and this span as its parent. -/
theorem next_hop (h : Sound P span) (link : Link) (draws draws' : Draws) :
    (serverSpan P (inbound P span draws.inject link) draws').traceId =
        (if link.isRecord then span.traceId else toW3CTraceId P span.traceId) ∧
      (serverSpan P (inbound P span draws.inject link) draws').parentSpanId = some span.spanId := by
  cases link with
  | request headers =>
    unfold serverSpan
    rw [inbound, extract_inject h.w3c h.spanId]
    exact ⟨rfl, rfl⟩
  | record =>
    unfold serverSpan
    rw [extract_record h.trace (isTraceId_of_isHex h.spanId.1 (by decide) (by decide))]
    exact ⟨rfl, rfl⟩

theorem Sound.next (h : Sound P span) (link : Link) (draws draws' : Draws) :
    Sound P (serverSpan P (inbound P span draws.inject link) draws') := by
  have htrace := (next_hop h link draws draws').1
  refine ⟨?_, isW3C_hexOf draws'.span, ?_⟩
  · rw [htrace]
    split_ifs
    · exact h.trace
    · exact isTraceId_of_isHex h.w3c.1 (by decide) (by decide)
  · rw [htrace]
    split_ifs
    · exact h.hash
    · rw [toW3CTraceId_eq_self h.w3c]
      exact h.hash

/-- **Run**: so it is for every span of a chain. -/
theorem Sound.spans (h : Sound P span) : ∀ s ∈ spans P span links, Sound P s := by
  induction links generalizing span with
  | nil =>
    intro s hs
    rw [List.mem_singleton.mp hs]
    exact h
  | cons hop links ih =>
    intro s hs
    rcases List.mem_cons.mp hs with rfl | hs
    · exact h
    · exact ih (h.next hop.1 hop.2 hop.2) s hs

theorem head_spans (P : Platform) (span : TraceSpan) (links : List (Link × Draws)) :
    ∃ rest, spans P span links = span :: rest := by
  cases links with
  | nil => exact ⟨[], rfl⟩
  | cons hop links => exact ⟨_, rfl⟩

theorem parent_spans (h : Sound P span) :
    (spans P span links).IsChain fun s next => next.parentSpanId = some s.spanId := by
  induction links generalizing span with
  | nil => exact List.isChain_singleton _
  | cons hop links ih =>
    have hrest := ih (h.next hop.1 hop.2 hop.2)
    obtain ⟨rest, heq⟩ := head_spans P (serverSpan P (inbound P span hop.2.inject hop.1) hop.2) links
    rw [Tracing.spans, heq]
    rw [heq] at hrest
    exact List.isChain_cons_cons.mpr ⟨(next_hop h hop.1 hop.2 hop.2).2, hrest⟩

/-- **One trace** runs through a chain of records, and of any links when its id is in the W3C form. -/
theorem same_spans_iff (h : Sound P span) : (∀ s ∈ spans P span links, s.traceId = span.traceId) ↔
    (∀ hop ∈ links, hop.1.isRecord = true) ∨ IsW3C 32 span.traceId := by
  induction links generalizing span with
  | nil =>
    refine iff_of_true (fun s hs => ?_) (.inl fun hop hhop => absurd hhop List.not_mem_nil)
    rw [List.mem_singleton.mp hs]
  | cons hop links ih =>
    have htrace := (next_hop h hop.1 hop.2 hop.2).1
    have hnext := ih (h.next hop.1 hop.2 hop.2)
    rw [htrace] at hnext
    rw [Tracing.spans, List.forall_mem_cons, List.forall_mem_cons, and_iff_right rfl]
    cases hrecord : hop.1.isRecord with
    | true =>
      rw [hrecord, if_pos rfl] at hnext
      rw [hnext, and_iff_right rfl]
    | false =>
      rw [hrecord, if_neg Bool.false_ne_true] at hnext htrace
      constructor
      · intro hall
        obtain ⟨rest, heq⟩ := head_spans P (serverSpan P (inbound P span hop.2.inject hop.1) hop.2) links
        have hsame := hall _ (heq ▸ List.mem_cons_self)
        rw [htrace] at hsame
        exact .inr (hsame ▸ h.w3c)
      · rintro (⟨hfalse, _⟩ | hw3c)
        · cases hfalse
        · have hself : toW3CTraceId P span.traceId = span.traceId := toW3CTraceId_eq_self hw3c
          rw [hself] at hnext
          exact hnext.mpr (.inr hw3c)

/-- The first hop's trace id can be passed on, and is in the W3C form for canonical headers only. -/
theorem serverSpan_trace (hhash : isZeros (toW3CTraceId P (serverSpan P headers draws).traceId) = false) :
    Sound P (serverSpan P headers draws) ∧ (IsW3C 32 (serverSpan P headers draws).traceId ↔ Canonical P headers) := by
  have hspan : IsW3C 16 (serverSpan P headers draws).spanId := isW3C_hexOf draws.span
  have hsound : isTraceId (serverSpan P headers draws).traceId = true → Sound P (serverSpan P headers draws) := fun h =>
    ⟨h, hspan, hhash⟩
  have htrace : (serverSpan P headers draws).traceId = (extractTraceContext P headers draws.trace).traceId := rfl
  rw [htrace] at hsound ⊢
  unfold extractTraceContext at hsound ⊢
  unfold Canonical
  cases hparent : parseTraceparent P (header P headers "traceparent") with
  | some fromParent =>
    have hw3c := parseTraceparent_some hparent
    simp only [hparent] at hsound
    exact ⟨hsound (isTraceId_of_isHex hw3c.1 (by decide) (by decide)), iff_of_true hw3c fun hnone => by cases hnone⟩
  | none =>
    cases hid : (safeId (header P headers "x-trace-id")).or (safeId (header P headers "x-request-id")) with
    | some traceId =>
      have hsafe : isTraceId traceId = true := by
        rcases Option.or_eq_some_iff.mp hid with h | ⟨_, h⟩
        all_goals exact (Option.filter_eq_some_iff.mp h).2
      simp only [hparent, hid] at hsound
      refine ⟨hsound hsafe, ⟨fun hw3c _ id heq => ?_, fun hcanonical => hcanonical rfl traceId rfl⟩⟩
      rw [← Option.some.inj heq]
      exact hw3c
    | none =>
      have hw3c : IsW3C 32 (newTraceId draws.trace) := isW3C_hexOf draws.trace
      simp only [hparent, hid] at hsound
      exact ⟨hsound (isTraceId_of_isHex hw3c.1 (by decide) (by decide)), iff_of_true hw3c fun _ _ hnone => by cases hnone⟩

/-- **A trace keeps its identity** over every chain of records, and over every chain whose first id is in the W3C form; over
no other. -/
theorem one_trace_iff (P : Platform) (headers : TraceHeaderMap) (draws : Draws) (links : List (Link × Draws))
    (hhash : isZeros (toW3CTraceId P (serverSpan P headers draws).traceId) = false) :
    OneTrace P headers draws links ↔ (∀ hop ∈ links, hop.1.isRecord = true) ∨ Canonical P headers := by
  obtain ⟨hsound, hcanonical⟩ := serverSpan_trace hhash
  rw [← hcanonical]
  refine ⟨fun h => (same_spans_iff hsound).mp h.same, fun h => ⟨(same_spans_iff hsound).mpr h, parent_spans hsound, ?_, ?_⟩⟩
  · intro span hspan
    have hs := hsound.spans span hspan
    rw [parseTraceparent_traceparentOf hs.w3c hs.spanId]
    rfl
  · intro span hspan
    have hs := hsound.spans span hspan
    exact ⟨hs.trace, isTraceId_of_isHex hs.spanId.1 (by decide) (by decide)⟩

end Chains

/-! A browser's request through the gateway to a service and, on a record, to the worker. -/

/-- Lower case for ASCII, no URLs. -/
def asciiPlatform : Platform := Platform.ascii fun _ => none

def drawn : Draws where
  trace := ⟨List.replicate 16 1, rfl, 1, by decide, by decide⟩
  span := ⟨List.replicate 8 2, rfl, 2, by decide, by decide⟩
  inject := ⟨List.replicate 8 3, rfl, 3, by decide, by decide⟩

def gatewayToWorker : List (Link × Draws) := [(.request [("accept", .text "*/*")], drawn), (.record, drawn)]

def withTraceId (traceId : String) : TraceHeaderMap := [("X-Trace-Id", .many [traceId])]

theorem one_trace_w3c : OneTrace asciiPlatform (withTraceId "4bf92f3577b34da6a3ce929d0e0e4736") drawn gatewayToWorker := by
  refine (one_trace_iff asciiPlatform _ drawn gatewayToWorker (by decide +kernel)).mpr (.inr fun _ traceId htraceId => ?_)
  have hid : (safeId (header asciiPlatform (withTraceId "4bf92f3577b34da6a3ce929d0e0e4736") "x-trace-id")).or
      (safeId (header asciiPlatform (withTraceId "4bf92f3577b34da6a3ce929d0e0e4736") "x-request-id")) =
        some "4bf92f3577b34da6a3ce929d0e0e4736" := by decide +kernel
  obtain rfl : "4bf92f3577b34da6a3ce929d0e0e4736" = traceId := Option.some.inj (hid.symm.trans htraceId)
  decide +kernel

/-- An opaque id is kept by the first hop and hashed for the next ones. -/
theorem opaque_id_changes : ¬ OneTrace asciiPlatform (withTraceId "abc") drawn gatewayToWorker := by
  intro h
  have hids : (chain asciiPlatform (withTraceId "abc") drawn gatewayToWorker).map TraceSpan.traceId =
      ["abc", "ba7816bf8f01cfea414140de5dae2223", "ba7816bf8f01cfea414140de5dae2223"] := by decide +kernel
  have hfirst : (serverSpan asciiPlatform (withTraceId "abc") drawn).traceId = "abc" := by decide +kernel
  have hmem : "ba7816bf8f01cfea414140de5dae2223" ∈
      (chain asciiPlatform (withTraceId "abc") drawn gatewayToWorker).map TraceSpan.traceId := by simp [hids]
  obtain ⟨span, hspan, htrace⟩ := List.mem_map.mp hmem
  have hsame := h.same span hspan
  rw [htrace, hfirst] at hsame
  exact absurd hsame (by decide)

end Vellar.ServiceKit.Tracing
