import Vellar.Web.HistoryWindows

/-!
# Vellar.Web.HistoryPages — both rails under one cursor

The operation pages as a rail, whose round serves every operation that is shown (`cycle_opsRail`), and `fetchPage` as
the mover of both rails (`moves_fetchPage`).  `servesOnce_iff` is what follows for all pages together.
-/

set_option autoImplicit false

namespace Vellar.Web.History

open Rails
open Worker (split truthy)

/-! ## The rail of the operations -/

section Operations

variable (horizon : Operations) (accountId : String) (pageSize : ℕ)

/-- Horizon is asked for the operations of a classic account only. -/
def accountOps : List ClassicOp := if isClassicAccount accountId then horizon.ops else []

def opsAt (pos : Option String) : List ClassicOp :=
  if isClassicAccount accountId then horizon.call pageSize pos else []

/-- The operation pages, by the ids of their rows. -/
def opsRail : Rails.Rail (Option String) String where
  start := none
  rows pos := ((opsAt horizon accountId pageSize pos).filter (isDisplayable accountId)).map opRowId
  next pos := (opsAt horizon accountId pageSize pos).getLast?.bind ClassicOp.paging_token
  done pos := decide ((opsAt horizon accountId pageSize pos).length < pageSize)

/-- The cursor after so many operations. -/
def tokenAt (i : ℕ) : Option String :=
  if i = 0 then none else (accountOps horizon accountId)[i - 1]?.bind ClassicOp.paging_token

/-- How many operations a page is after, from how many the page before is after. -/
def nextIndex (i : ℕ) : ℕ :=
  if (accountOps horizon accountId).length ≤ i then 0 else min (i + pageSize) (accountOps horizon accountId).length

variable {horizon accountId pageSize} {i k : ℕ}

theorem mem_ops_of_accountOps {op : ClassicOp} (h : op ∈ accountOps horizon accountId) : op ∈ horizon.ops := by
  unfold accountOps at h
  split_ifs at h
  · exact h
  · exact absurd h List.not_mem_nil

/-- The list from an element on, by what tells it apart. -/
theorem dropWhile_ne {α β : Type} [DecidableEq β] {f : α → β} {l : List α} (h : (l.map f).Nodup) (i : ℕ)
    (hi : i < l.length) : l.dropWhile (fun x => f x ≠ f (l.get ⟨i, hi⟩)) = l.drop i := by
  induction l generalizing i with
  | nil => exact absurd hi (Nat.not_lt_zero i)
  | cons a l ih =>
    cases i with
    | zero => exact List.dropWhile_cons_of_neg (by simp)
    | succ i =>
      have hi' : i < l.length := Nat.lt_of_succ_lt_succ hi
      have hne : f a ≠ f (l.get ⟨i, hi'⟩) := by
        intro heq
        exact (List.nodup_cons.mp h).1 (heq ▸ List.mem_map_of_mem (List.get_mem l ⟨i, hi'⟩))
      rw [List.drop_succ_cons, ← ih (List.nodup_cons.mp h).2 i hi']
      exact List.dropWhile_cons_of_pos (decide_eq_true hne)

theorem opsAt_tokenAt (hi : i ≤ (accountOps horizon accountId).length) :
    opsAt horizon accountId pageSize (tokenAt horizon accountId i) =
      ((accountOps horizon accountId).drop i).take pageSize := by
  unfold opsAt tokenAt
  unfold accountOps at hi ⊢
  by_cases hclassic : isClassicAccount accountId = true
  · rw [if_pos hclassic] at hi
    simp only [if_pos hclassic]
    rcases Nat.eq_zero_or_pos i with rfl | hpos
    · rfl
    · have hlt : i - 1 < horizon.ops.length := by omega
      obtain ⟨token, htoken, -⟩ := horizon.tokens _ (List.getElem_mem hlt)
      rw [if_neg hpos.ne', List.getElem?_eq_getElem hlt, Option.bind_some, htoken, Operations.call, ← htoken]
      have hdrop := dropWhile_ne horizon.distinct_tokens (i - 1) hlt
      rw [List.get_eq_getElem] at hdrop
      rw [hdrop, List.drop_drop, Nat.sub_add_cancel hpos]
  · simp [hclassic]

theorem tokenAt_eq_none (hi : i ≤ (accountOps horizon accountId).length) :
    tokenAt horizon accountId i = none ↔ i = 0 := by
  rw [tokenAt]
  rcases Nat.eq_zero_or_pos i with rfl | hpos
  · simp
  · have hlt : i - 1 < (accountOps horizon accountId).length := by omega
    obtain ⟨token, htoken, -⟩ := horizon.tokens _ (mem_ops_of_accountOps (List.getElem_mem hlt))
    rw [if_neg hpos.ne', List.getElem?_eq_getElem hlt, Option.bind_some, htoken]
    exact iff_of_false (Option.some_ne_none _) hpos.ne'

theorem nextIndex_le : nextIndex horizon accountId pageSize i ≤ (accountOps horizon accountId).length := by
  unfold nextIndex
  split_ifs
  · exact Nat.zero_le _
  · exact min_le_right _ _

theorem next_tokenAt (hpage : 1 ≤ pageSize) (hi : i ≤ (accountOps horizon accountId).length) :
    (opsRail horizon accountId pageSize).next (tokenAt horizon accountId i) =
      tokenAt horizon accountId (nextIndex horizon accountId pageSize i) := by
  show (opsAt horizon accountId pageSize (tokenAt horizon accountId i)).getLast?.bind _ = _
  rw [opsAt_tokenAt hi, nextIndex]
  by_cases hend : (accountOps horizon accountId).length ≤ i
  · rw [if_pos hend, List.drop_of_length_le hend, List.take_nil]
    rfl
  · have hindex : min (i + pageSize) (accountOps horizon accountId).length ≠ 0 := by omega
    rw [if_neg hend, tokenAt, if_neg hindex, List.getLast?_eq_getElem?, List.getElem?_take, List.getElem?_drop,
      List.length_take, List.length_drop]
    have hlt : min pageSize ((accountOps horizon accountId).length - i) - 1 < pageSize := by omega
    rw [if_pos hlt]
    congr 2
    omega

/-- How many operations page `k` is after. -/
def indexAt (horizon : Operations) (accountId : String) (pageSize k : ℕ) : ℕ :=
  (nextIndex horizon accountId pageSize)^[k] 0

theorem indexAt_le (k : ℕ) : indexAt horizon accountId pageSize k ≤ (accountOps horizon accountId).length := by
  cases k with
  | zero => exact Nat.zero_le _
  | succ k =>
    rw [indexAt, Function.iterate_succ_apply']
    exact nextIndex_le

theorem pos_opsRail (hpage : 1 ≤ pageSize) (k : ℕ) :
    (opsRail horizon accountId pageSize).pos k = tokenAt horizon accountId (indexAt horizon accountId pageSize k) := by
  induction k with
  | zero => rfl
  | succ k ih =>
    rw [Rail.pos_succ, ih, next_tokenAt hpage (indexAt_le k), indexAt, indexAt, Function.iterate_succ_apply']

/-- Until the operations are all read, page `k` is after `k` pages. -/
theorem indexAt_eq (h : k = 0 ∨ (k - 1) * pageSize < (accountOps horizon accountId).length) :
    indexAt horizon accountId pageSize k = min (k * pageSize) (accountOps horizon accountId).length := by
  induction k with
  | zero => rw [Nat.zero_mul, Nat.zero_min]; rfl
  | succ k ih =>
    have hlt : k * pageSize < (accountOps horizon accountId).length := by
      rcases h with h | h
      · exact absurd h (Nat.succ_ne_zero k)
      · exact h
    have hbefore : k = 0 ∨ (k - 1) * pageSize < (accountOps horizon accountId).length :=
      Or.inr ((Nat.mul_le_mul_right _ (Nat.sub_le k 1)).trans_lt hlt)
    rw [indexAt, Function.iterate_succ_apply', ← indexAt, ih hbefore, min_eq_left hlt.le, nextIndex,
      if_neg (not_le.mpr hlt), Nat.succ_mul]

/-- How many pages the operations fill. -/
def opPages (horizon : Operations) (accountId : String) (pageSize : ℕ) : ℕ :=
  ((accountOps horizon accountId).length + pageSize - 1) / pageSize

theorem opPages_spec (horizon : Operations) (accountId : String) (hpage : 1 ≤ pageSize) :
    (accountOps horizon accountId).length ≤ opPages horizon accountId pageSize * pageSize ∧
      (opPages horizon accountId pageSize = 0 ∨
        (opPages horizon accountId pageSize - 1) * pageSize < (accountOps horizon accountId).length) := by
  have hdiv := Nat.div_add_mod ((accountOps horizon accountId).length + pageSize - 1) pageSize
  have hmod := Nat.mod_lt ((accountOps horizon accountId).length + pageSize - 1) hpage
  rw [← opPages, Nat.mul_comm] at hdiv
  refine ⟨by omega, ?_⟩
  rcases Nat.eq_zero_or_pos (opPages horizon accountId pageSize) with hzero | hpos
  · exact Or.inl hzero
  · rw [Nat.sub_mul, Nat.one_mul]
    have hle := Nat.le_mul_of_pos_left pageSize hpos
    exact Or.inr (by omega)

theorem pos_eq_none (hpage : 1 ≤ pageSize) :
    (opsRail horizon accountId pageSize).pos k = none ↔ indexAt horizon accountId pageSize k = 0 := by
  rw [pos_opsRail hpage]
  exact tokenAt_eq_none (indexAt_le k)

theorem opsAt_pos (hpage : 1 ≤ pageSize) (k : ℕ) :
    opsAt horizon accountId pageSize ((opsRail horizon accountId pageSize).pos k) =
      ((accountOps horizon accountId).drop (indexAt horizon accountId pageSize k)).take pageSize := by
  rw [pos_opsRail hpage]
  exact opsAt_tokenAt (indexAt_le k)

theorem indexAt_succ (k : ℕ) : indexAt horizon accountId pageSize (k + 1) =
    nextIndex horizon accountId pageSize (indexAt horizon accountId pageSize k) :=
  Function.iterate_succ_apply' _ _ _

/-- The page after the operations are all read is empty, and the next one is the first again. -/
theorem indexAt_opPages (hpage : 1 ≤ pageSize) :
    indexAt horizon accountId pageSize (opPages horizon accountId pageSize) =
        (accountOps horizon accountId).length ∧
      indexAt horizon accountId pageSize (opPages horizon accountId pageSize + 1) = 0 := by
  obtain ⟨hcover, hneeded⟩ := opPages_spec horizon accountId hpage
  have hall := indexAt_eq hneeded
  rw [min_eq_right hcover] at hall
  refine ⟨hall, ?_⟩
  rw [indexAt_succ, hall, nextIndex, if_pos le_rfl]

theorem opsRail_lawful (hpage : 1 ≤ pageSize) : (opsRail horizon accountId pageSize).Lawful where
  returns := ⟨_, (pos_eq_none hpage).mpr (indexAt_opPages hpage).2⟩
  done k hk := by
    have hindex := (pos_eq_none hpage).mp hk
    rw [indexAt_succ, nextIndex] at hindex
    have hend : (accountOps horizon accountId).length ≤ indexAt horizon accountId pageSize k := by
      by_contra hmore
      rw [if_neg hmore] at hindex
      omega
    refine decide_eq_true ?_
    rw [opsAt_pos hpage, List.drop_of_length_le hend, List.take_nil, List.length_nil]
    exact hpage
  last k hk := by
    have hshort := of_decide_eq_true hk
    rw [opsAt_pos hpage, List.length_take, List.length_drop] at hshort
    rw [show (opsRail horizon accountId pageSize).start = none from rfl, pos_eq_none hpage, pos_eq_none hpage]
    by_cases hend : (accountOps horizon accountId).length ≤ indexAt horizon accountId pageSize k
    · rw [indexAt_succ, nextIndex, if_pos hend]
      exact Or.inl rfl
    · have hnext : indexAt horizon accountId pageSize (k + 1) = (accountOps horizon accountId).length := by
        rw [indexAt_succ, nextIndex, if_neg hend]
        omega
      refine Or.inr ⟨?_, ?_⟩
      · show ((opsAt horizon accountId pageSize _).filter _).map _ = []
        rw [opsAt_pos hpage, hnext, List.drop_length, List.take_nil]
        rfl
      · rw [indexAt_succ, hnext, nextIndex, if_pos le_rfl]

theorem period_opsRail (hpage : 1 ≤ pageSize) :
    (opsRail horizon accountId pageSize).period = opPages horizon accountId pageSize + 1 := by
  have hreturn : (opsRail horizon accountId pageSize).pos (opPages horizon accountId pageSize + 1) = none :=
    (pos_eq_none hpage).mpr (indexAt_opPages hpage).2
  have hle := Nat.le_of_dvd (Nat.succ_pos _) (Rail.pos_eq_start_iff.mp hreturn)
  refine le_antisymm hle ?_
  by_contra hlt
  have hpos : 0 < (opsRail horizon accountId pageSize).period := (opsRail_lawful hpage).period_pos
  have hback : (opsRail horizon accountId pageSize).pos (opsRail horizon accountId pageSize).period = none :=
    Rail.pos_eq_start_iff.mpr (dvd_refl _)
  obtain ⟨-, hneeded⟩ := opPages_spec horizon accountId hpage
  have hbefore : ((opsRail horizon accountId pageSize).period - 1) * pageSize <
      (accountOps horizon accountId).length := by
    rcases hneeded with hzero | hneeded
    · omega
    · exact (Nat.mul_le_mul_right _ (by omega)).trans_lt hneeded
  rw [pos_eq_none hpage, indexAt_eq (Or.inr hbefore)] at hback
  have hfirst := Nat.le_mul_of_pos_right (opsRail horizon accountId pageSize).period hpage
  omega

/-- A round serves every operation that is shown, in order. -/
theorem cycle_opsRail (hpage : 1 ≤ pageSize) :
    (opsRail horizon accountId pageSize).cycle =
      ((accountOps horizon accountId).filter (isDisplayable accountId)).map opRowId := by
  obtain ⟨hcover, hneeded⟩ := opPages_spec horizon accountId hpage
  have hrows : ∀ k ∈ List.range (opPages horizon accountId pageSize + 1),
      (opsRail horizon accountId pageSize).rows ((opsRail horizon accountId pageSize).pos k) =
        ((((accountOps horizon accountId).drop (k * pageSize)).take pageSize).filter
          (isDisplayable accountId)).map opRowId := by
    intro k hk
    have hle := Nat.lt_succ_iff.mp (List.mem_range.mp hk)
    have hbefore : k = 0 ∨ (k - 1) * pageSize < (accountOps horizon accountId).length := by
      rcases Nat.eq_zero_or_pos k with hzero | hpos
      · exact Or.inl hzero
      · rcases hneeded with hzero | hneeded
        · omega
        · exact Or.inr ((Nat.mul_le_mul_right _ (by omega)).trans_lt hneeded)
    show ((opsAt horizon accountId pageSize _).filter _).map _ = _
    rw [opsAt_pos hpage, indexAt_eq hbefore]
    rcases le_total (k * pageSize) (accountOps horizon accountId).length with hle | hge
    · rw [min_eq_left hle]
    · rw [min_eq_right hge, List.drop_length, List.drop_of_length_le hge]
  have hall : (accountOps horizon accountId).length ≤ (opPages horizon accountId pageSize + 1) * pageSize :=
    hcover.trans (Nat.mul_le_mul_right _ (Nat.le_succ _))
  have hslices := Partial.flatMap_slices pageSize (accountOps horizon accountId)
    (opPages horizon accountId pageSize + 1)
  rw [List.take_of_length_le hall] at hslices
  rw [Rail.cycle, Rail.served, period_opsRail hpage, List.flatMap_congr hrows, ← List.map_flatMap,
    ← List.filter_flatMap, hslices]

end Operations

/-! ## The rows of a page -/

section Rows

variable {V : Type} {sdk : Sdk V} {horizon : Operations} {accountId : String} {pageSize : ℕ}

/-- The results of a function that keeps an id, by what it gives a result for. -/
theorem map_filterMap_id {α β γ : Type} {f : α → Option β} {g : β → γ} {h : α → γ} {l : List α}
    (hid : ∀ a ∈ l, ∀ b, f a = some b → g b = h a) :
    (l.filterMap f).map g = (l.filter fun a => (f a).isSome).map h := by
  induction l with
  | nil => rfl
  | cons a l ih =>
    have hl := ih fun b hb => hid b (List.mem_cons_of_mem _ hb)
    rcases hfa : f a with _ | b
    · rw [List.filterMap_cons_none hfa, List.filter_cons_of_neg (by simp [hfa]), hl]
    · rw [List.filterMap_cons_some hfa, List.filter_cons_of_pos (by simp [hfa]), List.map_cons, List.map_cons, hl,
        hid a List.mem_cons_self b hfa]

theorem sorobanRow_id {assetOf : String → Option HistoryAsset} {e : RawEvent V} {row : HistoryTx}
    (h : sorobanRow sdk.decoder assetOf accountId e = some row) : row.id = eventRowId e := by
  unfold sorobanRow at h
  split_ifs at h
  obtain ⟨asset, -, h⟩ := Option.bind_eq_some_iff.mp h
  unfold parseSACTransfer at h
  split_ifs at h
  obtain ⟨sender, -, h⟩ := Option.bind_eq_some_iff.mp h
  obtain ⟨receiver, -, h⟩ := Option.bind_eq_some_iff.mp h
  obtain ⟨amount, -, h⟩ := Option.bind_eq_some_iff.mp h
  rw [← Option.some.inj h]

/-- The assets of a page are resolved for its transfers. -/
theorem sorobanRow_assetOf {events : List (RawEvent V)} {e : RawEvent V} (he : e ∈ events) :
    sorobanRow sdk.decoder (assetOf sdk events) accountId e =
      sorobanRow sdk.decoder sdk.resolveAsset accountId e := by
  unfold sorobanRow
  split_ifs with htransfer
  · have htype : e.type = "contract" := by
      simp only [isSACTransferEvent, Bool.and_eq_true, decide_eq_true_eq] at htransfer
      exact htransfer.1.1
    have hany : (events.any fun f => f.type = "contract" && contractIdOf f = contractIdOf e) = true :=
      List.any_eq_true.mpr ⟨e, he, by simp [htype]⟩
    rw [assetOf, if_pos hany]
  · rfl

theorem ids_buildSorobanRail (events : List (RawEvent V)) :
    ((buildSorobanRail sdk.decoder (assetOf sdk events) accountId events).map HistoryTx.id).Perm
      ((events.filter (isServed sdk accountId)).map eventRowId) := by
  have hrows : events.filterMap (sorobanRow sdk.decoder (assetOf sdk events) accountId) =
      events.filterMap (sorobanRow sdk.decoder sdk.resolveAsset accountId) :=
    List.filterMap_congr fun e he => sorobanRow_assetOf he
  rw [buildSorobanRail, hrows, List.map_reverse, map_filterMap_id fun e _ row => sorobanRow_id]
  exact List.reverse_perm _

theorem withAmount_isSome {α : Type} {amount : Option String} {f : ℤ → α}
    (h : ∀ text, amount = some text → (decimalToRaw text).isSome = true) : (withAmount amount f).isSome = true := by
  unfold withAmount
  rcases htext : truthy amount with _ | text
  · rfl
  · simpa using h text (Option.eq_some_of_filter_eq_some htext)

theorem classicOpToRow_isSome {op : ClassicOp} (h : op ∈ horizon.ops) :
    (classicOpToRow accountId op).isSome = true := by
  have hmovement : (movementOf accountId op).isSome = true := by
    unfold movementOf
    split
    · exact withAmount_isSome fun text htext => horizon.amounts op h text (Or.inl htext)
    · split
      · exact withAmount_isSome fun text htext => horizon.amounts op h text (Or.inr htext)
      · split
        · rfl
        · rfl
  unfold classicOpToRow
  split_ifs
  · rfl
  · rcases classicAssetOf op with _ | asset
    · rfl
    · simpa using hmovement

theorem classicOpToRow_id {op : ClassicOp} {row : HistoryTx} (h : (classicOpToRow accountId op).bind id = some row) :
    row.id = opRowId op := by
  obtain ⟨shown, hshown, hrow⟩ := Option.bind_eq_some_iff.mp h
  obtain rfl : shown = some row := hrow
  unfold classicOpToRow at hshown
  split_ifs at hshown
  · rw [← Option.some.inj (Option.some.inj hshown)]
    rfl
  · split at hshown
    · exact absurd (Option.some.inj hshown) (by simp)
    · obtain ⟨movement, -, hmovement⟩ := Option.map_eq_some_iff.mp hshown
      obtain ⟨-, -, rfl⟩ := Option.map_eq_some_iff.mp hmovement
      rfl

/-- A page of operations is shown as a whole. -/
theorem buildClassicRail_eq {ops : List ClassicOp} (hops : ∀ op ∈ ops, op ∈ horizon.ops)
    (hlength : ops.length ≤ pageSize) : ∃ rows, buildClassicRail accountId ops pageSize = some ⟨rows, none⟩ ∧
      rows.map HistoryTx.id = (ops.filter (isDisplayable accountId)).map opRowId := by
  have hshown : ops.mapM (classicOpToRow accountId) =
      some (ops.map fun op => (classicOpToRow accountId op).bind id) := by
    refine Partial.mapM_eq_some.mpr (List.forall₂_map_right_iff.mpr (List.forall₂_same.mpr fun op hop => ?_))
    have hsome : (classicOpToRow accountId op).isSome = true := classicOpToRow_isSome (hops op hop)
    obtain ⟨row, hrow⟩ := Option.isSome_iff_exists.mp hsome
    rw [hrow]
    rfl
  have hrows : (ops.map fun op => (classicOpToRow accountId op).bind id).reduceOption =
      ops.filterMap fun op => (classicOpToRow accountId op).bind id := by
    rw [List.reduceOption, List.filterMap_map]
    rfl
  refine ⟨ops.filterMap fun op => (classicOpToRow accountId op).bind id, ?_,
    map_filterMap_id fun op _ row => classicOpToRow_id⟩
  rw [buildClassicRail, hshown]
  show (if (ops.map fun op => (classicOpToRow accountId op).bind id).reduceOption.length ≤ pageSize then _ else _) = _
  rw [hrows, if_pos ((List.length_filterMap_le _ _).trans hlength)]

end Rows

/-! ## The cursor of both rails -/

section Cursor

variable {V : Type}

/-- The window that a text of the cursor names; the node takes no window from zero. -/
def windowOfText (text : String) : Option (ℕ × ℕ) :=
  match carriedLedger (split text ':')[0]?, carriedLedger (split text ':')[1]? with
  | some 0, some 0 => none
  | some carriedFrom, some carriedTo => some (carriedFrom, carriedTo)
  | _, _ => some (0, 0)

/-- Where a cursor has the two rails. -/
def positionOf (sdk : Sdk V) (cursor : Option String) : Option (ℕ × ℕ) × Option String :=
  let pack := decodePageCursor sdk.readNumber sdk.replaced cursor
  (windowOfText ((pack.bind PageCursor.events).getD ""), truthy (pack.bind PageCursor.ops))

def windowText (carriedFrom carriedTo : ℕ) : String := toString carriedFrom ++ ":" ++ toString carriedTo

variable {sdk : Sdk V} {chain : Chain V} {horizon : Operations} {accountId : String} {pageSize : ℕ}

theorem carriedLedger_toString {n : ℕ} (h : n < 2 ^ 53) : carriedLedger (some (toString n)) = some n := by
  have hread : JsNumber.ofText (some (toString n)) = .finite n := JsNumber.ofString_toString h
  rw [carriedLedger, hread]
  simp

theorem split_windowText (carriedFrom carriedTo : ℕ) :
    split (windowText carriedFrom carriedTo) ':' = [toString carriedFrom, toString carriedTo] := by
  have hdigits : ∀ n : ℕ, ':' ∉ (toString n).toList := by
    intro n hmem
    have htext : (toString n).toList = Nat.toDigits 10 n := Nat.toList_repr
    rw [htext] at hmem
    exact absurd (Decimal.isDigit_toDigits hmem) (by decide)
  have htext : (windowText carriedFrom carriedTo).toList =
      (toString carriedFrom).toList ++ ':' :: (toString carriedTo).toList := by
    simp [windowText]
  rw [split, htext, List.splitOn_append_cons_self_of_not_mem (hdigits carriedFrom),
    List.splitOn_eq_singleton (hdigits carriedTo), List.map_cons, List.map_singleton, String.ofList_toList,
    String.ofList_toList]

theorem windowOfText_windowText {carriedFrom carriedTo : ℕ} (hfrom : carriedFrom < 2 ^ 53) (hto : carriedTo < 2 ^ 53)
    (hpos : carriedFrom ≠ 0) : windowOfText (windowText carriedFrom carriedTo) = some (carriedFrom, carriedTo) := by
  rw [windowOfText, split_windowText]
  show (match carriedLedger (some (toString carriedFrom)), carriedLedger (some (toString carriedTo)) with
    | some 0, some 0 => none
    | some carriedFrom, some carriedTo => some (carriedFrom, carriedTo)
    | _, _ => some (0, 0)) = _
  rw [carriedLedger_toString hfrom, carriedLedger_toString hto]
  split
  · next h _ => exact absurd (Option.some.inj h) hpos
  · next h h' => rw [Option.some.inj h, Option.some.inj h']
  · next h => exact absurd rfl (h _ _ rfl)

/-- What the cursor carries, from where it has the windows. -/
theorem carried_of_windowOfText {text : String} {pos : Option (ℕ × ℕ)} (h : windowOfText text = pos)
    (hreached : Reached chain pos) :
    carriedLedger (split text ':')[0]? = some (pos.elim 0 Prod.fst) ∧
      carriedLedger (split text ':')[1]? = some (pos.elim 0 Prod.snd) := by
  unfold windowOfText at h
  split at h
  · next hfrom hto =>
    subst h
    exact ⟨hfrom, hto⟩
  · next hfrom hto =>
    subst h
    exact ⟨hfrom, hto⟩
  · subst h
    exact absurd rfl hreached.scanned_pos.1

theorem windowOfText_empty : windowOfText "" = none := by decide

theorem positionOf_none : positionOf sdk none = (none, none) := by
  show (windowOfText "", truthy none) = _
  rw [windowOfText_empty]
  rfl

theorem positionOf_encodePageCursor {events ops : Option String} {cursor : String}
    (h : encodePageCursor events ops = some cursor) :
    positionOf sdk (some cursor) = (windowOfText ((truthy events).getD ""), truthy ops) := by
  rw [positionOf, decodePageCursor_encodePageCursor sdk.readNumber_zero sdk.replaced h]
  simp only [Option.bind_some, truthy_truthy]

theorem encodePageCursor_isSome {events ops : Option String} (h : truthy events ≠ none ∨ truthy ops ≠ none) :
    ∃ cursor, encodePageCursor events ops = some cursor := by
  rw [encodePageCursor, if_neg]
  · exact ⟨_, rfl⟩
  · rw [Bool.and_eq_true, Option.isNone_iff_eq_none, Option.isNone_iff_eq_none]
    rintro ⟨hevents, hops⟩
    exact h.elim (fun h => h hevents) fun h => h hops

/-- The cursor of the next window, if there is one. -/
def eventsCursor (chain : Chain V) (page : EventPage (V := V)) : Option String :=
  if chain.oldestRetained < page.nextTo then some (windowText page.nextFrom page.nextTo) else none

theorem truthy_windowText (carriedFrom carriedTo : ℕ) :
    truthy (some (windowText carriedFrom carriedTo)) = some (windowText carriedFrom carriedTo) := by
  have hne : windowText carriedFrom carriedTo ≠ "" := by
    intro hempty
    have hchars := congrArg String.toList hempty
    simp [windowText] at hchars
  simp [truthy, hne]

/-- The cursor of the next window reads as the next position of the rail. -/
theorem windowOfText_eventsCursor {pos : Option (ℕ × ℕ)} (h : Reached chain pos) :
    windowOfText ((truthy (eventsCursor chain (pageOf sdk chain pageSize pos))).getD "") =
      (eventsRail sdk chain accountId pageSize).next pos := by
  have hnext : (eventsRail sdk chain accountId pageSize).next pos =
      if chain.oldestRetained < (pageOf sdk chain pageSize pos).nextTo then
        some ((pageOf sdk chain pageSize pos).nextFrom, (pageOf sdk chain pageSize pos).nextTo) else none := rfl
  rw [hnext, eventsCursor]
  by_cases hmore : chain.oldestRetained < (pageOf sdk chain pageSize pos).nextTo
  · have hreached : Reached chain (some ((pageOf sdk chain pageSize pos).nextFrom,
        (pageOf sdk chain pageSize pos).nextTo)) := by
      have hnext' : Reached chain ((eventsRail sdk chain accountId pageSize).next pos) := h.next
      rwa [hnext, if_pos hmore] at hnext'
    obtain ⟨hfrom, -, -, hle, hhigh⟩ := hreached.scanned_pos
    have hlatest := chain.latest_lt
    rw [if_pos hmore, if_pos hmore, truthy_windowText, Option.getD_some,
      windowOfText_windowText (by omega) (by omega) hfrom]
  · rw [if_neg hmore, if_neg hmore]
    exact windowOfText_empty

theorem mem_ops_of_opsAt {pos : Option String} {op : ClassicOp} (h : op ∈ opsAt horizon accountId pageSize pos) :
    op ∈ horizon.ops := by
  unfold opsAt Operations.call at h
  split at h
  · split at h
    · exact List.mem_of_mem_take h
    · exact List.dropWhile_sublist _ |>.subset (List.mem_of_mem_drop (List.mem_of_mem_take h))
  · exact absurd h List.not_mem_nil

theorem length_opsAt (pos : Option String) : (opsAt horizon accountId pageSize pos).length ≤ pageSize := by
  unfold opsAt Operations.call
  split
  · split
    · exact List.length_take_le _ _
    · exact List.length_take_le _ _
  · exact Nat.zero_le _

/-- The last operation of a page has a token to go on from. -/
theorem truthy_next_opsRail (pos : Option String) :
    truthy ((opsRail horizon accountId pageSize).next pos) = (opsRail horizon accountId pageSize).next pos := by
  show truthy ((opsAt horizon accountId pageSize pos).getLast?.bind _) = _
  rcases hlast : (opsAt horizon accountId pageSize pos).getLast? with _ | op
  · show truthy none = (opsAt horizon accountId pageSize pos).getLast?.bind _
    rw [hlast]
    rfl
  · obtain ⟨token, htoken, hne⟩ := horizon.tokens op (mem_ops_of_opsAt (List.mem_of_getLast? hlast))
    show _ = (opsAt horizon accountId pageSize pos).getLast?.bind _
    rw [hlast, Option.bind_some, htoken]
    simp [truthy, hne]

theorem next_opsRail_ne_none (hpage : 1 ≤ pageSize) {pos : Option String}
    (h : ¬ (opsAt horizon accountId pageSize pos).length < pageSize) :
    (opsRail horizon accountId pageSize).next pos ≠ none := by
  show (opsAt horizon accountId pageSize pos).getLast?.bind _ ≠ none
  rcases hlast : (opsAt horizon accountId pageSize pos).getLast? with _ | op
  · rw [List.getLast?_eq_none_iff.mp hlast, List.length_nil] at h
    omega
  · obtain ⟨token, htoken, -⟩ := horizon.tokens op (mem_ops_of_opsAt (List.mem_of_getLast? hlast))
    rw [Option.bind_some, htoken]
    exact Option.some_ne_none token

/-- A page, from where the cursor has the two rails. -/
theorem fetchPage_eq {cursor : Option String} {events : Option (ℕ × ℕ)} {ops : Option String}
    (h : positionOf sdk cursor = (events, ops)) (hreached : Reached chain events) :
    fetchPage sdk chain horizon accountId pageSize cursor =
      (buildClassicRail accountId (opsAt horizon accountId pageSize ops) pageSize).bind fun classic =>
        let page := pageOf sdk chain pageSize events
        let next := classic.resume.or ((opsRail horizon accountId pageSize).next ops)
        some ⟨(buildSorobanRail sdk.decoder (assetOf sdk page.events) accountId page.events ++
            classic.rows).mergeSort (newerFirst sdk),
          if (eventsCursor chain page).isNone &&
              (!isClassicAccount accountId || (opsAt horizon accountId pageSize ops).length < pageSize) then none
          else encodePageCursor (eventsCursor chain page) next⟩ := by
  obtain ⟨hevents, hops⟩ := Prod.mk.inj h
  obtain ⟨hfrom, hto⟩ := carried_of_windowOfText hevents hreached
  rw [fetchPage]
  simp only [hfrom, hto, hops, Option.bind_eq_bind, Option.bind_some]
  rfl

theorem opsDone_iff (hpage : 1 ≤ pageSize) (ops : Option String) :
    (!isClassicAccount accountId || decide ((opsAt horizon accountId pageSize ops).length < pageSize)) =
      (opsRail horizon accountId pageSize).done ops := by
  show _ = decide ((opsAt horizon accountId pageSize ops).length < pageSize)
  by_cases hclassic : isClassicAccount accountId = true
  · rw [hclassic]
    rfl
  · have hempty : opsAt horizon accountId pageSize ops = [] := if_neg hclassic
    rw [hempty, List.length_nil, decide_eq_true (Nat.pos_of_ne_zero (Nat.one_le_iff_ne_zero.mp hpage)), Bool.or_true]

theorem eventsDone_iff (accountId : String) (pos : Option (ℕ × ℕ)) :
    (eventsCursor chain (pageOf sdk chain pageSize pos)).isNone = (eventsRail sdk chain accountId pageSize).done pos := by
  show _ = decide (¬ chain.oldestRetained < (pageOf sdk chain pageSize pos).nextTo)
  rw [eventsCursor]
  by_cases hmore : chain.oldestRetained < (pageOf sdk chain pageSize pos).nextTo
  · rw [if_pos hmore, decide_eq_false (not_not.mpr hmore)]
    rfl
  · rw [if_neg hmore, decide_eq_true hmore]
    rfl

/-- Unless both rails are done there is a cursor, and it has both at their next positions. -/
theorem exists_cursor (hpage : 1 ≤ pageSize) {pos : Option (ℕ × ℕ)} (hreached : Reached chain pos)
    (ops : Option String)
    (h : ¬ ((eventsRail sdk chain accountId pageSize).done pos = true ∧
      (opsRail horizon accountId pageSize).done ops = true)) :
    ∃ cursor, encodePageCursor (eventsCursor chain (pageOf sdk chain pageSize pos))
        ((opsRail horizon accountId pageSize).next ops) = some cursor ∧
      positionOf sdk (some cursor) =
        ((eventsRail sdk chain accountId pageSize).next pos, (opsRail horizon accountId pageSize).next ops) := by
  have hsome : truthy (eventsCursor chain (pageOf sdk chain pageSize pos)) ≠ none ∨
      truthy ((opsRail horizon accountId pageSize).next ops) ≠ none := by
    by_cases hops : (opsRail horizon accountId pageSize).done ops = true
    · have hevents : (eventsRail sdk chain accountId pageSize).done pos ≠ true := fun hevents => h ⟨hevents, hops⟩
      have hmore : chain.oldestRetained < (pageOf sdk chain pageSize pos).nextTo := by
        by_contra hend
        exact hevents (decide_eq_true hend)
      rw [eventsCursor, if_pos hmore, truthy_windowText]
      exact Or.inl (Option.some_ne_none _)
    · rw [truthy_next_opsRail]
      exact Or.inr (next_opsRail_ne_none hpage fun hlt => hops (decide_eq_true hlt))
  obtain ⟨cursor, hcursor⟩ := encodePageCursor_isSome hsome
  refine ⟨cursor, hcursor, ?_⟩
  rw [positionOf_encodePageCursor hcursor, windowOfText_eventsCursor hreached, truthy_next_opsRail]

/-- `fetchPage` serves a page of each rail and moves both. -/
theorem moves_fetchPage (hpage : 1 ≤ pageSize) :
    Moves (pageIds sdk chain horizon accountId pageSize) (eventsRail sdk chain accountId pageSize)
      (opsRail horizon accountId pageSize) (positionOf sdk) where
  start := positionOf_none
  page cursor n hcursor := by
    have hreached : Reached chain ((eventsRail sdk chain accountId pageSize).pos n) := reached_windowAt n
    have hdone : BothDone (eventsRail sdk chain accountId pageSize) (opsRail horizon accountId pageSize) n ↔
        (eventsRail sdk chain accountId pageSize).done ((eventsRail sdk chain accountId pageSize).pos n) = true ∧
          (opsRail horizon accountId pageSize).done ((opsRail horizon accountId pageSize).pos n) = true := Iff.rfl
    rw [hdone, Rail.pos_succ, Rail.pos_succ]
    generalize (eventsRail sdk chain accountId pageSize).pos n = pos at hcursor hreached
    generalize (opsRail horizon accountId pageSize).pos n = token at hcursor
    obtain ⟨classic, hclassic, hids⟩ : ∃ rows,
        buildClassicRail accountId (opsAt horizon accountId pageSize token) pageSize = some ⟨rows, none⟩ ∧
        rows.map HistoryTx.id = (opsRail horizon accountId pageSize).rows token :=
      buildClassicRail_eq (fun op hop => mem_ops_of_opsAt hop) (length_opsAt token)
    rw [pageIds, fetchPage_eq hcursor hreached, hclassic, Option.bind_some, Option.map_some]
    dsimp only
    rw [opsDone_iff hpage, eventsDone_iff accountId, Option.none_or]
    refine ⟨_, _, rfl, ?_, ?_, ?_⟩
    · refine ((List.mergeSort_perm _ _).map _).trans ?_
      rw [List.map_append, hids]
      exact (ids_buildSorobanRail _).append_right _
    · by_cases hboth : (eventsRail sdk chain accountId pageSize).done pos = true ∧
          (opsRail horizon accountId pageSize).done token = true
      · rw [hboth.1, hboth.2]
        exact iff_of_true rfl ⟨rfl, rfl⟩
      · obtain ⟨c, hc, -⟩ := exists_cursor hpage hreached token hboth
        rw [if_neg (by rwa [Bool.and_eq_true]), hc]
        exact iff_of_false (Option.some_ne_none c) hboth
    · intro c hc
      by_cases hboth : (eventsRail sdk chain accountId pageSize).done pos = true ∧
          (opsRail horizon accountId pageSize).done token = true
      · rw [hboth.1, hboth.2] at hc
        exact absurd hc (by simp)
      · obtain ⟨c', hc', hposition⟩ := exists_cursor hpage hreached token hboth
        rw [if_neg (by rwa [Bool.and_eq_true]), hc'] at hc
        obtain rfl := Option.some.inj hc
        exact hposition

end Cursor

/-! ## All pages together -/

section Once

variable {V : Type} {sdk : Sdk V} {chain : Chain V} {horizon : Operations} {accountId : String} {pageSize : ℕ}

/-- The rows of events, by their ids. -/
def isEventRowId (rowId : String) : Bool := rowId.toList.head? = some 's'

theorem isEventRowId_eventRowId (e : RawEvent V) : isEventRowId (eventRowId e) = true := by
  simp [isEventRowId, eventRowId]

theorem isEventRowId_opRowId (op : ClassicOp) : isEventRowId (opRowId op) = false := by
  simp [isEventRowId, opRowId]

theorem isEventRowId_served (n : ℕ) :
    ∀ rowId ∈ (eventsRail sdk chain accountId pageSize).served n, isEventRowId rowId = true := by
  intro rowId hmem
  obtain ⟨k, -, hrow⟩ := List.mem_flatMap.mp hmem
  obtain ⟨e, -, rfl⟩ := List.mem_map.mp hrow
  exact isEventRowId_eventRowId e

theorem isEventRowId_opsServed (n : ℕ) :
    ∀ rowId ∈ (opsRail horizon accountId pageSize).served n, isEventRowId rowId = false := by
  intro rowId hmem
  obtain ⟨k, -, hrow⟩ := List.mem_flatMap.mp hmem
  obtain ⟨op, -, rfl⟩ := List.mem_map.mp hrow
  exact isEventRowId_opRowId op

theorem wantedOps_eq : wantedOps horizon accountId = (accountOps horizon accountId).filter (isDisplayable accountId) := by
  unfold wantedOps accountOps
  split
  · rfl
  · rfl

theorem nodup_wantedOps : ((wantedOps horizon accountId).map opRowId).Nodup := by
  unfold wantedOps
  split
  · exact (List.filter_sublist.map opRowId).nodup horizon.distinct
  · exact List.nodup_nil

/-- Every page of windows does its part, and a rail with rows does not start again before both rails are done. -/
structure OncePossible (sdk : Sdk V) (chain : Chain V) (horizon : Operations) (accountId : String) (pageSize : ℕ) :
    Prop where
  pages : ∀ k, PageServes sdk chain accountId pageSize (windowAt sdk chain accountId pageSize k)
  events : wantedEvents sdk chain accountId = [] ∨ ∃ k < windows sdk chain accountId pageSize,
    BothDone (eventsRail sdk chain accountId pageSize) (opsRail horizon accountId pageSize) k
  ops : wantedOps horizon accountId = [] ∨ ∃ k < opPages horizon accountId pageSize + 1,
    BothDone (eventsRail sdk chain accountId pageSize) (opsRail horizon accountId pageSize) k

/-- What is read, by the rows of the two rails. -/
theorem servesOnce_iff_served (hpage : 1 ≤ pageSize) {n : ℕ}
    (hn : FirstDone (eventsRail sdk chain accountId pageSize) (opsRail horizon accountId pageSize) n) :
    ServesOnce sdk chain horizon accountId pageSize ↔
      ((eventsRail sdk chain accountId pageSize).served (n + 1)).Perm
          ((wantedEvents sdk chain accountId).map eventRowId) ∧
        ((opsRail horizon accountId pageSize).served (n + 1)).Perm ((wantedOps horizon accountId).map opRowId) := by
  obtain ⟨ids, hreads, hids⟩ := (@moves_fetchPage _ sdk chain horizon accountId pageSize hpage).reads_perm hn
  rw [← append_perm_iff (isEventRowId_served _) _ (isEventRowId_opsServed _) _]
  · constructor
    · rintro ⟨ids', hreads', hwanted⟩
      obtain rfl := hreads.unique hreads'
      exact hids.symm.trans hwanted
    · intro hwanted
      exact ⟨ids, hreads, hids.trans hwanted⟩
  · intro rowId hmem
    obtain ⟨e, -, rfl⟩ := List.mem_map.mp hmem
    exact isEventRowId_eventRowId e
  · intro rowId hmem
    obtain ⟨op, -, rfl⟩ := List.mem_map.mp hmem
    exact isEventRowId_opRowId op

/-- When following the cursors serves every transfer and every operation of the account once. -/
theorem servesOnce_iff (hpage : 1 ≤ pageSize) :
    ServesOnce sdk chain horizon accountId pageSize ↔ OncePossible sdk chain horizon accountId pageSize := by
  have hevents : (eventsRail sdk chain accountId pageSize).Lawful := eventsRail_lawful
  have hops : (opsRail horizon accountId pageSize).Lawful := opsRail_lawful hpage
  obtain ⟨n, hn⟩ := exists_firstDone hevents hops
  have hround : (eventsRail sdk chain accountId pageSize).cycle.Perm
      ((wantedEvents sdk chain accountId).map eventRowId) →
      ((eventsRail sdk chain accountId pageSize).cycle = [] ↔ wantedEvents sdk chain accountId = []) := by
    intro hperm
    rw [← List.map_eq_nil_iff (f := eventRowId)]
    constructor
    · intro hempty
      rw [hempty] at hperm
      exact hperm.nil_eq.symm
    · intro hempty
      rw [hempty] at hperm
      exact hperm.eq_nil
  rw [servesOnce_iff_served hpage hn, once_iff hevents hops hn nodup_wantedIds nodup_wantedOps, cycle_opsRail hpage,
    ← wantedOps_eq, period_opsRail hpage, List.map_eq_nil_iff]
  constructor
  · rintro ⟨⟨hperm, honce⟩, -, hopsOnce⟩
    rw [hround hperm] at honce
    exact ⟨cycle_perm_iff.mp hperm, honce, hopsOnce⟩
  · rintro ⟨hpages, honce, hopsOnce⟩
    have hperm := cycle_perm_iff.mpr hpages
    refine ⟨⟨hperm, ?_⟩, List.Perm.refl _, hopsOnce⟩
    rw [hround hperm]
    exact honce

end Once

/-! ### One transfer on the chain -/

section Samples

/-- An SDK whose values are decoded already, and which knows every asset. -/
def plainSdk : Sdk Unit where
  decoder := some
  resolveAsset contractId := some ⟨.soroban, "USDC", 7, contractId, none⟩
  dateParse _ := none
  readNumber _ := some 0
  readNumber_zero := ⟨0, rfl⟩
  replaced _ := ""

def transferEvent (sender receiver : String) : RawEvent Unit where
  type := "contract"
  ledger := 1
  ledgerClosedAt := none
  id := "0000000004294971392-0000000001"
  txHash := "b1e2"
  inSuccessfulContractCall := true
  topic := some [.text "transfer", .text sender, .text receiver]
  value := .bigint 5
  contractId := "CUSDC"

/-- A chain of one ledger with one transfer. -/
def oneTransfer (sender receiver : String) : Chain Unit where
  oldestLedger := some 1
  latestLedger := 1
  events := [transferEvent sender receiver]
  oldest_pos := by decide
  latest_lt := by decide
  ascending := List.pairwise_singleton _ _
  retained e he := by
    obtain rfl := List.mem_singleton.mp he
    exact ⟨le_rfl, le_rfl⟩
  distinct := List.nodup_singleton _

def noOperations : Operations where
  ops := []
  tokens _ h := absurd h List.not_mem_nil
  distinct_tokens := List.nodup_nil
  distinct := List.nodup_nil
  amounts _ h := absurd h List.not_mem_nil

/-- The history of an account serves the transfers of others. -/
theorem foreign_served : ¬ ServesOnce plainSdk (oneTransfer "CALICE" "CBOB") noOperations "CCAROL" 20 := by
  have hops : (opsRail noOperations "CCAROL" 20).Lawful := opsRail_lawful (by decide)
  obtain ⟨n, hn⟩ := exists_firstDone (@eventsRail_lawful _ plainSdk (oneTransfer "CALICE" "CBOB") "CCAROL" 20) hops
  rw [servesOnce_iff_served (by decide) hn]
  rintro ⟨hperm, -⟩
  have hrows : (eventsRail plainSdk (oneTransfer "CALICE" "CBOB") "CCAROL" 20).rows none =
      [eventRowId (transferEvent "CALICE" "CBOB")] := by decide
  have hserved : eventRowId (transferEvent "CALICE" "CBOB") ∈
      (eventsRail plainSdk (oneTransfer "CALICE" "CBOB") "CCAROL" 20).served (n + 1) := by
    refine List.mem_flatMap.mpr ⟨0, List.mem_range.mpr (Nat.succ_pos n), ?_⟩
    show _ ∈ (eventsRail plainSdk (oneTransfer "CALICE" "CBOB") "CCAROL" 20).rows none
    rw [hrows]
    exact List.mem_singleton_self _
  have hwanted : (wantedEvents plainSdk (oneTransfer "CALICE" "CBOB") "CCAROL").map eventRowId = [] := by
    decide
  rw [hwanted] at hperm
  exact absurd (hperm.subset hserved) List.not_mem_nil

theorem own_served : ServesOnce plainSdk (oneTransfer "CALICE" "CBOB") noOperations "CBOB" 20 := by
  have hnext : (eventsRail plainSdk (oneTransfer "CALICE" "CBOB") "CBOB" 20).next none = none := by decide
  have hwindow : ∀ k, windowAt plainSdk (oneTransfer "CALICE" "CBOB") "CBOB" 20 k = none :=
    fun k => Function.iterate_fixed hnext k
  have hdone : BothDone (eventsRail plainSdk (oneTransfer "CALICE" "CBOB") "CBOB" 20)
      (opsRail noOperations "CBOB" 20) 0 := by decide
  refine (servesOnce_iff (by decide)).mpr ⟨fun k => ?_, Or.inr ⟨0, windows_pos _ _ _ _, hdone⟩, Or.inl rfl⟩
  rw [hwindow]
  have hrows : (readEvents plainSdk (oneTransfer "CALICE" "CBOB") 20 none).all
      (fun e => isServed plainSdk "CBOB" e == isWanted plainSdk "CBOB" e) = true := by decide
  refine ⟨fun e he => beq_iff_eq.mp (List.all_eq_true.mp hrows e he), fun e he => ?_, fun _ e he hbelow => ?_⟩
  · have hlength : (scannedEvents plainSdk (oneTransfer "CALICE" "CBOB") 20 none).length ≤
        MAX_SCAN_PAGES * SCAN_PAGE_SIZE := (List.length_filter_le _ _).trans (by decide)
    rw [List.drop_of_length_le hlength] at he
    exact absurd he List.not_mem_nil
  · have hfrom : scannedFrom plainSdk (oneTransfer "CALICE" "CBOB") 20 none = 1 := by decide
    have hold : 1 ≤ e.ledger := oldest_le he
    omega

end Samples

end Vellar.Web.History
