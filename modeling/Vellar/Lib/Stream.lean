import Vellar.Lib.Checked

/-!
# Vellar.Lib.Stream — parsing a stream of items to its end

`items p` runs the item parser `p` until nothing is left.  It recurses on the length of the input, which is
enough for every parser that consumes something (`items_ok_iff`): the relation `Items` has no bound in it.

* `items_map`: two item parsers that differ by a map of their items give lists that differ by it.
* `items_flatMap`: where an item is determined by its own bytes (`Framed`), any items that were parsed parse
  again from the concatenation of their bytes.
* `items_ok_flatMap`: where an item parser finds exactly the items of a grammar (`Reads`), a stream that parses is the
  items' bytes, one after the other.
* `Local.bind`: sequencing keeps a parser local, that is, blind to what follows the bytes it takes.
-/

set_option autoImplicit false

namespace Vellar.Streams

open Checked

universe u

variable {ε : Type*} {α γ β : Type u}

/-- At most `n` items. -/
def itemsFrom (p : List β → Except ε (α × List β)) : ℕ → List β → Except ε (List α)
  | _, [] => .ok []
  | 0, _ :: _ => .ok []
  | n + 1, b :: bs => p (b :: bs) >>= fun r => itemsFrom p n r.2 >>= fun l => pure (r.1 :: l)

/-- The items of a stream, to its end. -/
def items (p : List β → Except ε (α × List β)) (bs : List β) : Except ε (List α) := itemsFrom p bs.length bs

/-- `bs` is the items `l`, one after the other. -/
inductive Items (p : List β → Except ε (α × List β)) : List β → List α → Prop
  | nil : Items p [] []
  | cons {bs rest : List β} {a : α} {l : List α} (hne : bs ≠ []) (hp : p bs = .ok (a, rest))
      (hrest : Items p rest l) : Items p bs (a :: l)

section Rules

variable {p : List β → Except ε (α × List β)}

/-- Every item takes something. -/
def Consuming (p : List β → Except ε (α × List β)) : Prop :=
  ∀ bs a rest, p bs = .ok (a, rest) → rest.length < bs.length

theorem itemsFrom_ok_iff (hp : Consuming p) {n : ℕ} {bs : List β} {l : List α} (hn : bs.length ≤ n) :
    itemsFrom p n bs = .ok l ↔ Items p bs l := by
  induction n generalizing bs l with
  | zero =>
    obtain rfl := List.length_eq_zero_iff.mp (Nat.le_zero.mp hn)
    refine ⟨fun h => ?_, fun h => ?_⟩
    · obtain rfl : [] = l := by simpa [itemsFrom] using h
      exact .nil
    · cases h with
      | nil => rfl
      | cons hne hp' hrest => exact absurd rfl hne
  | succ n ih =>
    cases bs with
    | nil =>
      refine ⟨fun h => ?_, fun h => ?_⟩
      · obtain rfl : [] = l := by simpa [itemsFrom] using h
        exact .nil
      · cases h with
        | nil => rfl
        | cons hne hp' hrest => exact absurd rfl hne
    | cons b bs =>
      have hfuel : ∀ a rest, p (b :: bs) = .ok (a, rest) → rest.length ≤ n := by
        intro a rest h
        have := hp _ _ _ h
        simp only [List.length_cons] at this hn
        omega
      rw [itemsFrom, bind_ok]
      simp only [bind_ok, pure_ok]
      refine ⟨fun h => ?_, fun h => ?_⟩
      · obtain ⟨⟨a, rest⟩, h1, l', h2, rfl⟩ := h
        exact .cons (by simp) h1 ((ih (hfuel a rest h1)).mp h2)
      · cases h with
        | cons hne h1 hrest => exact ⟨_, h1, _, (ih (hfuel _ _ h1)).mpr hrest, rfl⟩

/-- **No bound**: the items of a stream are what the parser finds, to the end. -/
theorem items_ok_iff (hp : Consuming p) {bs : List β} {l : List α} : items p bs = .ok l ↔ Items p bs l :=
  itemsFrom_ok_iff hp le_rfl

/-- Parsing item by item commutes with a map of the items. -/
theorem items_map {q : List β → Except ε (γ × List β)} {f : α → γ}
    (hq : ∀ bs, q bs = (p bs).map fun r => (f r.1, r.2)) (bs : List β) :
    items q bs = (items p bs).map (List.map f) := by
  unfold items
  generalize bs.length = n
  induction n generalizing bs with
  | zero => cases bs <;> rfl
  | succ n ih =>
    cases bs with
    | nil => rfl
    | cons b bs =>
      rw [itemsFrom, itemsFrom, hq]
      cases p (b :: bs) with
      | error e => rfl
      | ok r =>
        have hr := ih r.2
        simp only [Except.map, bind, Except.bind] at hr ⊢
        rw [hr]
        cases itemsFrom p n r.2 <;> rfl

/-- The item is determined by its own bytes, whatever follows. -/
def Framed (p : List β → Except ε (α × List β)) (raw : α → List β) (a : α) : Prop :=
  raw a ≠ [] ∧ ∀ rest, p (raw a ++ rest) = .ok (a, rest)

theorem Items.framed {raw : α → List β} (hraw : ∀ bs a rest, bs ≠ [] → p bs = .ok (a, rest) → Framed p raw a)
    {bs : List β} {l : List α} (h : Items p bs l) : ∀ a ∈ l, Framed p raw a := by
  induction h with
  | nil => simp
  | cons hne hp hrest ih => exact List.forall_mem_cons.mpr ⟨hraw _ _ _ hne hp, ih⟩

/-- Framed items parse from the concatenation of their bytes. -/
theorem items_flatMap {raw : α → List β} {l : List α} (h : ∀ a ∈ l, Framed p raw a) :
    Items p (l.flatMap raw) l := by
  induction l with
  | nil => exact .nil
  | cons a l ih =>
    obtain ⟨⟨hne, hp⟩, hl⟩ := List.forall_mem_cons.mp h
    rw [List.flatMap_cons]
    exact .cons (by simp [hne]) (hp _) (ih hl)

end Rules

/-! ## Grammars -/

section Grammar

variable {δ : Type*} {p : List β → Except ε (α × List β)} {raw : δ → List β} {H : δ → α → Prop}

/-- What the parser finds is a form of the grammar at the front, with the item that `H` tells of it. -/
def Reads (p : List β → Except ε (α × List β)) (raw : δ → List β) (H : δ → α → Prop) : Prop :=
  ∀ bs a rest, p bs = .ok (a, rest) ↔ ∃ d, bs = raw d ++ rest ∧ H d a

theorem Reads.consuming (hp : Reads p raw H) (hne : ∀ d a, H d a → raw d ≠ []) : Consuming p := by
  intro bs a rest h
  obtain ⟨d, rfl, ha⟩ := (hp _ _ _).mp h
  have := List.length_pos_iff.mpr (hne d a ha)
  rw [List.length_append]
  omega

/-- **Tiling**: a stream that parses is its forms, one after the other, without a gap. -/
theorem items_ok_flatMap (hp : Reads p raw H) (hne : ∀ d a, H d a → raw d ≠ []) {bs : List β} {l : List α} :
    items p bs = .ok l ↔ ∃ ds, bs = ds.flatMap raw ∧ List.Forall₂ H ds l := by
  rw [items_ok_iff (hp.consuming hne)]
  constructor
  · intro h
    induction h with
    | nil => exact ⟨[], rfl, .nil⟩
    | cons _ hitem _ ih =>
      obtain ⟨d, rfl, ha⟩ := (hp _ _ _).mp hitem
      obtain ⟨ds, rfl, hall⟩ := ih
      exact ⟨d :: ds, List.flatMap_cons.symm, .cons ha hall⟩
  · rintro ⟨ds, rfl, hall⟩
    induction hall with
    | nil => exact .nil
    | cons ha _ ih =>
      rw [List.flatMap_cons]
      exact .cons (List.append_ne_nil_of_left_ne_nil (hne _ _ ha) _) ((hp _ _ _).mpr ⟨_, rfl, ha⟩) ih

end Grammar

/-! ## Local parsers -/

/-- What the parser finds depends on the bytes it takes only. -/
def Local (p : List β → Except ε (α × List β)) : Prop :=
  ∀ bs a rest, p bs = .ok (a, rest) → ∃ used, bs = used ++ rest ∧ ∀ rest', p (used ++ rest') = .ok (a, rest')

theorem Local.bind {p : List β → Except ε (α × List β)} {q : α → List β → Except ε (γ × List β)}
    (hp : Local p) (hq : ∀ a, Local (q a)) : Local (fun bs => p bs >>= fun r => q r.1 r.2) := by
  intro bs c rest h
  obtain ⟨⟨a, mid⟩, h1, h2⟩ := bind_ok.mp h
  obtain ⟨used₁, rfl, hu₁⟩ := hp _ _ _ h1
  obtain ⟨used₂, rfl, hu₂⟩ := hq a _ _ _ h2
  refine ⟨used₁ ++ used₂, by rw [List.append_assoc], fun rest' => ?_⟩
  rw [List.append_assoc]
  exact bind_ok.mpr ⟨_, hu₁ _, hu₂ _⟩

/-- A check of what was found. -/
theorem Local.check {q : List β → Except ε (γ × List β)} {c : Except ε PUnit} (hq : Local q) :
    Local (fun bs => c >>= fun _ => q bs) := by
  intro bs a rest h
  obtain ⟨hc, h2⟩ := check_bind_ok.mp h
  obtain ⟨used, rfl, hu⟩ := hq _ _ _ h2
  exact ⟨used, rfl, fun rest' => check_bind_ok.mpr ⟨hc, hu _⟩⟩

theorem Local.done (a : α) : Local (fun bs => (.ok (a, bs) : Except ε (α × List β))) := by
  intro bs b rest h
  obtain ⟨rfl, rfl⟩ := Prod.mk.inj (Except.ok.inj h)
  exact ⟨[], rfl, fun _ => rfl⟩

end Vellar.Streams
