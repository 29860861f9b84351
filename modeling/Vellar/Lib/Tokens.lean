import Mathlib

/-!
# Vellar.Lib.Tokens — the tokens of a list

A token is a maximal run of exactly `k` elements of a class `q` that begins with an element of `first`.  The class lies
within a wider class `w`, whose runs are words.  `replaceTokens` puts a mark in place of each token that is a whole
word, as a pattern with a word boundary on either side does: it leaves exactly the tokens that touch a word element.
-/

set_option autoImplicit false

namespace Vellar.Tokens

variable {α : Type*} (q w first : α → Bool) (k : ℕ)

/-! ## Tokens -/

/-- A maximal run in a list. -/
structure Run (l pre run post : List α) : Prop where
  parts : l = pre ++ run ++ post
  length : run.length = k
  first : ∃ a ∈ run.head?, first a = true
  all : ∀ a ∈ run, q a = true
  before : ∀ a ∈ pre.getLast?, q a = false
  after : ∀ a ∈ post.head?, q a = false

/-- The list has a token. -/
def HasToken (l : List α) : Prop := ∃ pre run post, Run q first k l pre run post

/-- The list has a token with a word element next to it. -/
def HasJoined (l : List α) : Prop :=
  ∃ pre run post, Run q first k l pre run post ∧
    ((∃ a ∈ pre.getLast?, w a = true) ∨ ∃ a ∈ post.head?, w a = true)

/-! ## Replacing -/

/-- Between two elements a word begins or ends. -/
def boundary (before after : Option α) : Bool := before.any w != after.any w

/-- A whole word that is a token begins here, after `before`. -/
def matchesAt (before : Option α) (l : List α) : Bool :=
  boundary w before l.head? && l.head?.any first && decide ((l.take k).length = k) && (l.take k).all q &&
    boundary w (l.take k).getLast? (l.drop k).head?

def replaceFrom (mark : List α) : ℕ → Option α → List α → List α
  | 0, _, l => l
  | _, _, [] => []
  | n + 1, before, a :: l =>
    if matchesAt q w first k before (a :: l) then
      mark ++ replaceFrom mark n ((a :: l).take k).getLast? ((a :: l).drop k)
    else a :: replaceFrom mark n (some a) l

/-- The list with the mark in place of each token that is a whole word. -/
def replaceTokens (mark l : List α) : List α := replaceFrom q w first k mark l.length none l

/-! ## Looking from the left -/

/-- `P` of some suffix and of what is before it. -/
def somewhere (P : Option α → List α → Bool) : Option α → List α → Bool
  | _, [] => false
  | before, a :: l => P before (a :: l) || somewhere P (some a) l

/-- A token begins here. -/
def tokenAt (before : Option α) (l : List α) : Bool :=
  !before.any q && l.head?.any first && decide ((l.takeWhile q).length = k)

def joinedAt (before : Option α) (l : List α) : Bool :=
  tokenAt q first k before l && (before.any w || (l.drop k).head?.any w)

/-- The decision of `HasToken`. -/
def hasToken (l : List α) : Bool := somewhere (tokenAt q first k) none l

def hasJoined (l : List α) : Bool := somewhere (joinedAt q w first k) none l

theorem somewhere_iff {P : Option α → List α → Bool} {before : Option α} {l : List α} :
    somewhere P before l = true ↔
      ∃ pre post, l = pre ++ post ∧ post ≠ [] ∧ P (pre.getLast?.or before) post = true := by
  induction l generalizing before with
  | nil =>
    refine iff_of_false Bool.false_ne_true ?_
    rintro ⟨pre, post, hl, hne, -⟩
    exact hne (List.append_eq_nil_iff.mp hl.symm).2
  | cons a l ih =>
    rw [somewhere, Bool.or_eq_true, ih]
    constructor
    · rintro (h | ⟨pre, post, rfl, hne, h⟩)
      · exact ⟨[], a :: l, rfl, List.cons_ne_nil a l, h⟩
      · refine ⟨a :: pre, post, rfl, hne, ?_⟩
        rw [List.getLast?_cons, Option.some_or]
        cases hpre : pre.getLast? <;> simpa [hpre] using h
    · rintro ⟨pre, post, hl, hne, h⟩
      rcases pre with _ | ⟨b, pre⟩
      · rw [List.nil_append] at hl
        subst hl
        exact Or.inl h
      · obtain ⟨rfl, rfl⟩ := List.cons_eq_cons.mp hl
        refine Or.inr ⟨pre, post, rfl, hne, ?_⟩
        rw [List.getLast?_cons, Option.some_or] at h
        cases hpre : pre.getLast? <;> simpa [hpre] using h

variable {q w first k}

theorem takeWhile_run {run post : List α} (hall : ∀ a ∈ run, q a = true) (hafter : ∀ a ∈ post.head?, q a = false) :
    (run ++ post).takeWhile q = run := by
  rw [List.takeWhile_append_of_pos hall]
  cases post with
  | nil => rw [List.takeWhile_nil, List.append_nil]
  | cons b post =>
    have hb : q b = false := hafter b rfl
    rw [List.takeWhile_cons_of_neg (by rw [hb]; exact Bool.false_ne_true), List.append_nil]

theorem head?_dropWhile {l : List α} : ∀ a ∈ (l.dropWhile q).head?, q a = false := by
  intro a ha
  have hne : l.dropWhile q ≠ [] := by
    rintro h
    rw [h] at ha
    exact absurd ha (Option.not_mem_none a)
  have hhead : (l.dropWhile q).head hne = a := Option.some.inj ((List.head?_eq_some_head hne).symm.trans ha)
  have hnot := List.head_dropWhile_not q hne
  rwa [hhead] at hnot

/-- What `tokenAt` says of the parts of a list. -/
theorem tokenAt_iff (hk : 0 < k) {pre l : List α} :
    tokenAt q first k pre.getLast? l = true ↔
      Run q first k (pre ++ l) pre (l.takeWhile q) (l.dropWhile q) ∧ l ≠ [] := by
  have hhead : ∀ b, (l.takeWhile q).head? = some b → l.head? = some b := by
    intro b hb
    rw [← List.takeWhile_append_dropWhile (p := q) (l := l), List.head?_append, hb]
    rfl
  rw [tokenAt, Bool.and_eq_true, Bool.and_eq_true, Bool.not_eq_true', decide_eq_true_iff]
  constructor
  · rintro ⟨⟨hbefore, hfirst⟩, hlength⟩
    have hne : l ≠ [] := by
      rintro rfl
      exact Bool.false_ne_true hfirst
    refine ⟨⟨?_, hlength, ?_, fun a ha => List.mem_takeWhile_imp ha, ?_, head?_dropWhile⟩, hne⟩
    · rw [List.append_assoc, List.takeWhile_append_dropWhile]
    · have hrun : l.takeWhile q ≠ [] := by
        rintro h
        rw [h, List.length_nil] at hlength
        omega
      obtain ⟨b, hb⟩ : ∃ b, (l.takeWhile q).head? = some b := ⟨_, List.head?_eq_some_head hrun⟩
      rw [hhead b hb, Option.any_some] at hfirst
      exact ⟨b, hb, hfirst⟩
    · intro a ha
      rw [Option.mem_def.mp ha, Option.any_some] at hbefore
      exact hbefore
  · rintro ⟨hrun, -⟩
    obtain ⟨b, hb, hfirst⟩ := hrun.first
    refine ⟨⟨?_, ?_⟩, hrun.length⟩
    · rcases hlast : pre.getLast? with _ | a
      · rfl
      · exact hrun.before a hlast
    · rw [hhead b hb]
      exact hfirst

theorem Run.tokenAt (hk : 0 < k) {l pre run post : List α} (h : Run q first k l pre run post) :
    l = pre ++ (run ++ post) ∧ run ++ post ≠ [] ∧ tokenAt q first k pre.getLast? (run ++ post) = true ∧
      (run ++ post).drop k = post := by
  have hne : run ++ post ≠ [] := by
    rintro hnil
    have hlength := h.length
    rw [(List.append_eq_nil_iff.mp hnil).1, List.length_nil] at hlength
    omega
  have hrun := takeWhile_run h.all h.after
  have hpost : (run ++ post).dropWhile q = post := by
    have hsplit := List.takeWhile_append_dropWhile (p := q) (l := run ++ post)
    rw [hrun] at hsplit
    exact List.append_cancel_left hsplit
  refine ⟨h.parts.trans (List.append_assoc _ _ _), hne, (tokenAt_iff hk).mpr ⟨?_, hne⟩, List.drop_left' h.length⟩
  rw [hrun, hpost]
  exact { h with parts := (List.append_assoc _ _ _).symm }

theorem hasToken_iff (hk : 0 < k) {l : List α} : hasToken q first k l = true ↔ HasToken q first k l := by
  rw [hasToken, somewhere_iff]
  constructor
  · rintro ⟨pre, post, rfl, -, h⟩
    rw [Option.or_none] at h
    exact ⟨pre, _, _, ((tokenAt_iff hk).mp h).1⟩
  · rintro ⟨pre, run, post, h⟩
    obtain ⟨hl, hne, htoken, -⟩ := h.tokenAt hk
    refine ⟨pre, run ++ post, hl, hne, ?_⟩
    rwa [Option.or_none]

theorem any_eq_true_iff {p : α → Bool} {o : Option α} : o.any p = true ↔ ∃ a ∈ o, p a = true := by
  cases o <;> simp

theorem drop_eq_dropWhile {l : List α} (h : (l.takeWhile q).length = k) : l.drop k = l.dropWhile q := by
  have hsplit := List.takeWhile_append_dropWhile (p := q) (l := l)
  rw [← h]
  nth_rewrite 2 [← hsplit]
  exact List.drop_left

theorem take_eq_takeWhile {l : List α} (h : (l.takeWhile q).length = k) : l.take k = l.takeWhile q := by
  conv_lhs => rw [← List.takeWhile_append_dropWhile (p := q) (l := l)]
  exact List.take_left' h

theorem hasJoined_iff (hk : 0 < k) {l : List α} : hasJoined q w first k l = true ↔ HasJoined q w first k l := by
  rw [hasJoined, somewhere_iff]
  constructor
  · rintro ⟨pre, post, rfl, -, h⟩
    rw [Option.or_none, joinedAt, Bool.and_eq_true, Bool.or_eq_true, any_eq_true_iff, any_eq_true_iff] at h
    have hrun := ((tokenAt_iff hk).mp h.1).1
    refine ⟨pre, _, _, hrun, ?_⟩
    rw [← drop_eq_dropWhile hrun.length]
    exact h.2
  · rintro ⟨pre, run, post, h, hword⟩
    obtain ⟨hl, hne, htoken, hdrop⟩ := h.tokenAt hk
    refine ⟨pre, run ++ post, hl, hne, ?_⟩
    rw [Option.or_none, joinedAt, Bool.and_eq_true, Bool.or_eq_true, any_eq_true_iff, any_eq_true_iff, hdrop]
    exact ⟨htoken, hword⟩

/-! ## What replacing leaves -/

section Replace

variable (hk : 0 < k) (hqw : ∀ a, q a = true → w a = true) (hfirst : ∀ a, first a = true → q a = true)

theorem boundary_before {before : Option α} {a : α} (ha : w a = true) : boundary w before (some a) = !before.any w := by
  rw [boundary, Option.any_some, ha]
  cases before.any w <;> rfl

theorem boundary_after {after : Option α} {a : α} (ha : w a = true) : boundary w (some a) after = !after.any w := by
  rw [boundary, Option.any_some, ha]
  cases after.any w <;> rfl

theorem any_of_le {o : Option α} (hqw : ∀ a, q a = true → w a = true) (h : o.any w = false) : o.any q = false := by
  rcases o with _ | a
  · rfl
  · rw [Option.any_some] at h ⊢
    by_contra hq
    rw [hqw a (Bool.not_eq_false _ ▸ hq)] at h
    exact Bool.noConfusion h

include hk hqw hfirst in
/-- Where the pattern matches, a token begins, and no word element touches it. -/
theorem matchesAt_iff {before : Option α} {l : List α} :
    matchesAt q w first k before l = true ↔
      tokenAt q first k before l = true ∧ (before.any w = false ∧ (l.drop k).head?.any w = false) := by
  rw [matchesAt, tokenAt]
  simp only [Bool.and_eq_true, decide_eq_true_iff, Bool.not_eq_true']
  -- the first element and the last are word elements
  have hbefore : l.head?.any first = true → boundary w before l.head? = !before.any w := by
    intro h
    obtain ⟨a, ha, hfa⟩ := any_eq_true_iff.mp h
    rw [Option.mem_def.mp ha, boundary_before (hqw a (hfirst a hfa))]
  have hafter : (l.take k).length = k → (l.take k).all q = true →
      boundary w (l.take k).getLast? (l.drop k).head? = !(l.drop k).head?.any w := by
    intro hlength hall
    have hne : l.take k ≠ [] := by
      rintro h
      rw [h, List.length_nil] at hlength
      omega
    rw [List.getLast?_eq_getLast_of_ne_nil hne]
    exact boundary_after (hqw _ (List.all_eq_true.mp hall _ (List.getLast_mem hne)))
  constructor
  · rintro ⟨⟨⟨⟨hb, hhead⟩, hlength⟩, hall⟩, ha⟩
    rw [hbefore hhead, Bool.not_eq_true'] at hb
    rw [hafter hlength hall, Bool.not_eq_true'] at ha
    have hrun : l.takeWhile q = l.take k := by
      conv_lhs => rw [← List.take_append_drop k l]
      refine takeWhile_run (List.all_eq_true.mp hall) fun a hmem => ?_
      have hnext := any_of_le hqw ha
      rwa [Option.mem_def.mp hmem, Option.any_some] at hnext
    rw [hrun]
    exact ⟨⟨⟨any_of_le hqw hb, hhead⟩, hlength⟩, hb, ha⟩
  · rintro ⟨⟨⟨-, hhead⟩, hlength⟩, hb, ha⟩
    have htake := take_eq_takeWhile hlength
    have hall : (l.take k).all q = true := by
      rw [htake]
      exact List.all_eq_true.mpr fun a hmem => List.mem_takeWhile_imp hmem
    have hfull : (l.take k).length = k := by rw [htake, hlength]
    rw [hbefore hhead, hafter hfull hall, hb, ha]
    exact ⟨⟨⟨⟨rfl, hhead⟩, hfull⟩, hall⟩, rfl⟩

include hk hqw hfirst in
/-- Replacing does not reach into a run that has begun. -/
theorem takeWhile_replaceFrom {mark : List α} {n : ℕ} {a : α} (ha : w a = true) {l : List α} :
    (replaceFrom q w first k mark n (some a) l).takeWhile q = l.takeWhile q := by
  induction n generalizing a l with
  | zero => rfl
  | succ n ih =>
    cases l with
    | nil => rfl
    | cons b l =>
      have hno : ¬ matchesAt q w first k (some a) (b :: l) = true := by
        intro h
        have hword := ((matchesAt_iff hk hqw hfirst).mp h).2.1
        rw [Option.any_some, ha] at hword
        exact Bool.noConfusion hword
      rw [replaceFrom, if_neg hno]
      by_cases hb : q b = true
      · rw [List.takeWhile_cons_of_pos hb, List.takeWhile_cons_of_pos hb, ih (hqw b hb)]
      · rw [List.takeWhile_cons_of_neg hb, List.takeWhile_cons_of_neg hb]

/-- What is before does not matter to a list that does not begin with a run. -/
theorem somewhere_tokenAt_congr (hfirst : ∀ a, first a = true → q a = true) {l : List α}
    (h : l.head?.any q = false) (before before' : Option α) :
    somewhere (tokenAt q first k) before l = somewhere (tokenAt q first k) before' l := by
  cases l with
  | nil => rfl
  | cons a l =>
    rw [List.head?_cons, Option.any_some] at h
    have hno : first a = false := by
      by_contra hf
      rw [hfirst a (Bool.not_eq_false _ ▸ hf)] at h
      exact Bool.noConfusion h
    have hnot : ∀ b : Option α, tokenAt q first k b (a :: l) = false := by
      intro b
      rw [tokenAt, List.head?_cons, Option.any_some, hno, Bool.and_false, Bool.false_and]
    rw [somewhere, somewhere, hnot, hnot]

/-- Inside a run no token begins. -/
theorem somewhere_joinedAt_run {run rest : List α} {a : α} (ha : q a = true) (hall : ∀ b ∈ run, q b = true) :
    somewhere (joinedAt q w first k) (some a) (run ++ rest) =
      somewhere (joinedAt q w first k) (run.getLast?.or (some a)) rest := by
  induction run generalizing a with
  | nil => rfl
  | cons b run ih =>
    have hb : q b = true := hall b List.mem_cons_self
    have hnot : joinedAt q w first k (some a) (b :: (run ++ rest)) = false := by
      rw [joinedAt, tokenAt, Option.any_some, ha, Bool.not_true, Bool.false_and, Bool.false_and, Bool.false_and]
    rw [List.cons_append, somewhere, hnot, Bool.false_or, ih hb fun c hc => hall c (List.mem_cons_of_mem b hc),
      List.getLast?_cons, Option.some_or]
    cases run.getLast? <;> rfl

/-- No token goes past an element outside the class. -/
theorem somewhere_tokenAt_stop (hk : 0 < k) {stop : α} (hstop : q stop = false) {before : Option α} {l m : List α} :
    somewhere (tokenAt q first k) before (l ++ stop :: m) =
      (somewhere (tokenAt q first k) before l || somewhere (tokenAt q first k) (some stop) m) := by
  have hcut : ∀ l : List α, (l ++ stop :: m).takeWhile q = l.takeWhile q := by
    intro l
    rw [List.takeWhile_append, List.takeWhile_cons_of_neg (by rw [hstop]; exact Bool.false_ne_true), List.append_nil]
    split_ifs with h
    · exact ((List.takeWhile_prefix q).eq_of_length h).symm
    · rfl
  induction l generalizing before with
  | nil =>
    have hnil : (stop :: m).takeWhile q = [] := hcut []
    have hnot : tokenAt q first k before (stop :: m) = false := by
      rw [tokenAt, hnil, List.length_nil, decide_eq_false hk.ne, Bool.and_false]
    rw [List.nil_append, somewhere, somewhere, hnot]
  | cons b l ih =>
    have hsame : tokenAt q first k before (b :: (l ++ stop :: m)) = tokenAt q first k before (b :: l) := by
      rw [tokenAt, tokenAt, ← List.cons_append, hcut]
      rfl
    rw [List.cons_append, somewhere, somewhere, hsame, ih, Bool.or_assoc]

variable {init : List α} {stop : α} (hopen : init.head?.any q = false) (hstop : q stop = false)
  (hinit : hasToken q first k init = false)

include hk hqw hfirst in
/-- Where no run begins nothing is replaced. -/
theorem head?_replaceFrom {mark l : List α} (h : l.head?.any q = false) (n : ℕ) (before : Option α) :
    (replaceFrom q w first k mark n before l).head? = l.head? := by
  rcases n with _ | n
  · rfl
  · rcases l with _ | ⟨b, l⟩
    · rfl
    · have hno : ¬ matchesAt q w first k before (b :: l) = true := by
        intro hmatch
        have htoken := ((matchesAt_iff hk hqw hfirst).mp hmatch).1
        rw [tokenAt, Bool.and_eq_true, Bool.and_eq_true, List.head?_cons, Option.any_some] at htoken
        rw [List.head?_cons, Option.any_some, hfirst b htoken.1.2] at h
        exact Bool.noConfusion h
      rw [replaceFrom, if_neg hno]
      rfl

include hk hqw hfirst in
/-- The tokens of a text whose front is not replaced. -/
theorem tokenAt_cons_replaceFrom {mark l : List α} {n : ℕ} {before : Option α} {a : α} :
    tokenAt q first k before (a :: replaceFrom q w first k mark n (some a) l) = tokenAt q first k before (a :: l) := by
  have hrun : (a :: replaceFrom q w first k mark n (some a) l).takeWhile q = (a :: l).takeWhile q := by
    by_cases ha : q a = true
    · rw [List.takeWhile_cons_of_pos ha, List.takeWhile_cons_of_pos ha, takeWhile_replaceFrom hk hqw hfirst (hqw a ha)]
    · rw [List.takeWhile_cons_of_neg ha, List.takeWhile_cons_of_neg ha]
  rw [tokenAt, tokenAt, hrun]
  rfl

include hk hqw hfirst hopen hstop hinit in
theorem somewhere_replaceFrom {n : ℕ} {before : Option α} {l : List α} (hn : l.length ≤ n) :
    somewhere (tokenAt q first k) before (replaceFrom q w first k (init ++ [stop]) n before l) =
      somewhere (joinedAt q w first k) before l := by
  induction n generalizing before l with
  | zero =>
    obtain rfl := List.length_eq_zero_iff.mp (Nat.le_zero.mp hn)
    rfl
  | succ n ih =>
    cases l with
    | nil => rfl
    | cons a l =>
      rw [List.length_cons] at hn
      by_cases hmatch : matchesAt q w first k before (a :: l) = true
      · obtain ⟨htoken, hbefore, hafter⟩ := (matchesAt_iff hk hqw hfirst).mp hmatch
        have hrest := any_of_le hqw hafter
        have hlength : ((a :: l).drop k).length ≤ n := by
          rw [List.length_drop, List.length_cons]
          omega
        -- the mark has no token, and none begins behind it
        rw [replaceFrom, if_pos hmatch, List.append_assoc, List.singleton_append, somewhere_tokenAt_stop hk hstop,
          somewhere_tokenAt_congr hfirst hopen before none, ← hasToken, hinit, Bool.false_or,
          somewhere_tokenAt_congr hfirst (head?_replaceFrom hk hqw hfirst hrest n _ ▸ hrest) (some stop)
            ((a :: l).take k).getLast?, ih hlength]
        -- nor does the replaced one touch a word element
        have hjoined : joinedAt q w first k before (a :: l) = false := by
          rw [joinedAt, hbefore, hafter, Bool.or_false, Bool.and_false]
        rw [tokenAt, Bool.and_eq_true, decide_eq_true_iff] at htoken
        have hall : ∀ b ∈ (a :: l).take k, q b = true := by
          rw [take_eq_takeWhile htoken.2]
          exact fun b hb => List.mem_takeWhile_imp hb
        obtain ⟨j, rfl⟩ : ∃ j, k = j + 1 := ⟨k - 1, by omega⟩
        rw [List.take_succ_cons] at hall
        rw [List.take_succ_cons, List.drop_succ_cons]
        rw [somewhere, hjoined, Bool.false_or]
        conv_rhs => rw [← List.take_append_drop j l]
        rw [somewhere_joinedAt_run (hall a List.mem_cons_self) fun b hb => hall b (List.mem_cons_of_mem a hb),
          List.getLast?_cons]
        cases (l.take j).getLast? <;> rfl
      · rw [replaceFrom, if_neg hmatch, somewhere, somewhere, ih (by omega), tokenAt_cons_replaceFrom hk hqw hfirst]
        congr 1
        rw [joinedAt]
        by_cases htoken : tokenAt q first k before (a :: l) = true
        · have hword : ¬ (before.any w = false ∧ ((a :: l).drop k).head?.any w = false) := fun h =>
            hmatch ((matchesAt_iff hk hqw hfirst).mpr ⟨htoken, h⟩)
          rw [← Bool.or_eq_false_iff, Bool.not_eq_false] at hword
          rw [hword, Bool.and_true]
        · rw [Bool.not_eq_true] at htoken
          rw [htoken, Bool.false_and]

include hk hqw hfirst hopen hstop hinit in
/-- Of the tokens, those are left that touch a word element. -/
theorem hasToken_replaceTokens (l : List α) :
    HasToken q first k (replaceTokens q w first k (init ++ [stop]) l) ↔ HasJoined q w first k l := by
  rw [← hasToken_iff hk, ← hasJoined_iff hk, hasToken, hasJoined, replaceTokens,
    somewhere_replaceFrom hk hqw hfirst hopen hstop hinit le_rfl]

end Replace

end Vellar.Tokens
