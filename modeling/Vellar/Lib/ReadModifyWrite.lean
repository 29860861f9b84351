import Vellar.Lib.Processes

/-!
# Vellar.Lib.ReadModifyWrite — operations that read a cell and then write it

Any number of operations over one cell, each a read and a later write of what it computed; every access may fail.  Where no
read fails and no operation writes over a write that landed since its own read, the cell holds what the operations that
succeeded make of it one after another, in the order in which they took effect (`serial_upto`).
-/

set_option autoImplicit false

namespace Vellar.ReadModifyWrite

open Machine Processes

variable {σ ι : Type*}

/-! ## Operations -/

/-- What an operation does with the value it read. -/
inductive Outcome (σ : Type*) where
  | writes (s : σ)
  | keeps
  | refuses

structure Ops (σ ι : Type*) where
  effect : ι → σ → Outcome σ
  /-- What an operation writes that does not read. -/
  blind : ι → Option σ
  effect_blind : ∀ {op s}, blind op = some s → ∀ seen, effect op seen = .writes s
  /-- What is read when the read fails. -/
  fallback : σ

inductive Phase (σ ι : Type*) where
  | begun (i : ℕ) (op : ι)
  /-- `seen` counts the writes at the read. -/
  | writing (i : ℕ) (op : ι) (s : σ) (seen : ℕ)
  | done (i : ℕ) (op : ι) (succeeded : Bool)

def Phase.call : Phase σ ι → ℕ × ι
  | .begun i op | .writing i op _ _ | .done i op _ => (i, op)

def Phase.id (p : Phase σ ι) : ℕ := p.call.1

structure World (σ ι : Type*) where
  cell : σ
  writes : ℕ
  /-- The operations that succeeded, as they took effect. -/
  log : List (ℕ × ι)

section Exec

variable (O : Ops σ ι)

def commit (i : ℕ) (op : ι) (s : σ) (w : World σ ι) : Phase σ ι × World σ ι :=
  (.done i op true, ⟨s, w.writes + 1, w.log ++ [(i, op)]⟩)

def read (i : ℕ) (op : ι) (seen : σ) (w : World σ ι) : Phase σ ι × World σ ι :=
  match O.effect op seen with
  | .writes s => (.writing i op s w.writes, w)
  | .keeps => (.done i op true, { w with log := w.log ++ [(i, op)] })
  | .refuses => (.done i op false, w)

/-- The next access of an operation; `answered` tells whether it succeeds. -/
def exec (answered : Bool) (p : Phase σ ι) (w : World σ ι) : Phase σ ι × World σ ι :=
  match p with
  | .begun i op =>
    match O.blind op with
    | some s => if answered then commit i op s w else (.done i op false, w)
    | none => read O i op (if answered then w.cell else O.fallback) w
  | .writing i op s _ => if answered then commit i op s w else (.done i op false, w)
  | .done _ _ _ => (p, w)

def start (init : σ) (ops : ℕ → ι) : Config (World σ ι) (Phase σ ι) where
  shared := ⟨init, 0, []⟩
  procs i := .begun i (ops i)

def reached (init : σ) (ops : ℕ → ι) (schedule : List (ℕ × Bool)) : Config (World σ ι) (Phase σ ι) :=
  run (step (exec O)) (start init ops) schedule

/-- No read fails, and nothing was written between a read and the write that follows it. -/
def Undisturbed (answered : Bool) (p : Phase σ ι) (w : World σ ι) : Prop :=
  match p with
  | .begun _ op => O.blind op = none → answered = true
  | .writing _ _ _ seen => answered = true → seen = w.writes
  | .done _ _ _ => True

/-! ## One after another -/

def apply (s : σ) (op : ι) : σ :=
  match O.effect op s with
  | .writes s' => s'
  | .keeps | .refuses => s

def serial (init : σ) (order : List (ℕ × ι)) : σ := (order.map Prod.snd).foldl (apply O) init

/-- The cell holds what the operations that succeeded make of it in that order. -/
structure Serial (init : σ) (order : List (ℕ × ι)) (c : Config (World σ ι) (Phase σ ι)) : Prop where
  distinct : (order.map Prod.fst).Nodup
  succeeded : ∀ i op, (i, op) ∈ order ↔ c.procs i = .done i op true
  cell : c.shared.cell = serial O init order

end Exec

section Rules

variable {O : Ops σ ι} {init : σ} {w : World σ ι} {p : Phase σ ι}

theorem serial_append (order order' : List (ℕ × ι)) :
    serial O init (order ++ order') = serial O (serial O init order) order' := by
  unfold serial
  rw [List.map_append, List.foldl_append]

theorem serial_singleton (q : ℕ × ι) : serial O init [q] = apply O init q.2 := rfl

/-- What every operation keeps holds after any of them. -/
theorem serial_keeps {P : σ → Prop} {order : List (ℕ × ι)} (hop : ∀ q ∈ order, ∀ s, P s → P (apply O s q.2)) (h : P init) :
    P (serial O init order) := by
  unfold serial
  induction order generalizing init with
  | nil => exact h
  | cons q order ih => exact ih (fun q' hq' => hop q' (List.mem_cons_of_mem _ hq')) (hop q List.mem_cons_self _ h)

/-! ## The invariant -/

/-- The log explains the cell. -/
structure Explains (O : Ops σ ι) (init : σ) (w : World σ ι) : Prop where
  cell : w.cell = serial O init w.log
  distinct : (w.log.map Prod.fst).Nodup

/-- What holds of an operation: whether it is logged, and what it may rely on. -/
def Holds (O : Ops σ ι) (w : World σ ι) : Phase σ ι → Prop
  | .begun i _ => i ∉ w.log.map Prod.fst
  | .writing i op s seen => i ∉ w.log.map Prod.fst ∧ seen ≤ w.writes ∧ (seen = w.writes → O.effect op w.cell = .writes s)
  | .done i op true => (i, op) ∈ w.log
  | .done i _ false => i ∉ w.log.map Prod.fst

def Apart (p q : Phase σ ι) : Prop := p.id ≠ q.id

/-- Neither succeeded nor failed yet. -/
def Phase.Active (i : ℕ) (op : ι) (p : Phase σ ι) : Prop := p = .begun i op ∨ ∃ s seen, p = .writing i op s seen

/-- A step; `quiet` stands for the condition of the run at it. -/
inductive Move (O : Ops σ ι) (quiet : Prop) (w : World σ ι) : Phase σ ι → Phase σ ι → World σ ι → Prop where
  | stay (p : Phase σ ι) : Move O quiet w p p w
  | fail (i : ℕ) (op : ι) (p : Phase σ ι) (hp : p.Active i op) : Move O quiet w p (.done i op false) w
  | read (i : ℕ) (op : ι) (s : σ) (heffect : quiet → O.effect op w.cell = .writes s) :
      Move O quiet w (.begun i op) (.writing i op s w.writes) w
  | keep (i : ℕ) (op : ι) (heffect : quiet → O.effect op w.cell = .keeps) :
      Move O quiet w (.begun i op) (.done i op true) { w with log := w.log ++ [(i, op)] }
  | write (i : ℕ) (op : ι) (s : σ) (p : Phase σ ι) (hp : p.Active i op)
      (heffect : quiet → Holds O w p → O.effect op w.cell = .writes s) :
      Move O quiet w p (.done i op true) ⟨s, w.writes + 1, w.log ++ [(i, op)]⟩

section Moves

variable {quiet : Prop} {p' q : Phase σ ι} {w' : World σ ι}

theorem read_move {i : ℕ} {op : ι} {seen : σ} (hseen : quiet → seen = w.cell) :
    Move O quiet w (.begun i op) (read O i op seen w).1 (read O i op seen w).2 := by
  unfold read
  split
  · rename_i s heffect
    exact .read i op s fun hquiet => hseen hquiet ▸ heffect
  · rename_i heffect
    exact .keep i op fun hquiet => hseen hquiet ▸ heffect
  · exact .fail i op _ (.inl rfl)

theorem exec_move {answered : Bool} :
    Move O (Undisturbed O answered p w) w p (exec O answered p w).1 (exec O answered p w).2 := by
  cases p with
  | begun i op =>
    simp only [exec]
    split
    · rename_i s hblind
      cases answered
      · exact .fail i op _ (.inl rfl)
      · exact .write i op s _ (.inl rfl) fun _ _ => O.effect_blind hblind _
    · rename_i hblind
      exact read_move fun hquiet => by rw [if_pos (hquiet hblind)]
  | writing i op s seen =>
    cases answered
    · exact .fail i op _ (.inr ⟨s, seen, rfl⟩)
    · exact .write i op s _ (.inr ⟨s, seen, rfl⟩) fun hquiet hp => hp.2.2 (hquiet rfl)
  | done i op succeeded => exact .stay _

theorem Phase.Active.not_logged {i : ℕ} {op : ι} (hactive : p.Active i op) (hp : Holds O w p) :
    p.id = i ∧ i ∉ w.log.map Prod.fst := by
  obtain rfl | ⟨s, seen, rfl⟩ := hactive
  · exact ⟨rfl, hp⟩
  · exact ⟨rfl, hp.1⟩

theorem apply_of_effect {op : ι} {s s' : σ} (h : O.effect op s = .writes s') : apply O s op = s' := by
  unfold apply
  rw [h]

theorem Explains.append (h : Explains O init w) {i : ℕ} {op : ι} (hnew : i ∉ w.log.map Prod.fst) {s : σ}
    (hs : s = apply O w.cell op) (writes : ℕ) : Explains O init ⟨s, writes, w.log ++ [(i, op)]⟩ := by
  refine ⟨?_, ?_⟩
  · rw [serial_append, ← h.cell, serial_singleton]
    exact hs
  · rw [List.map_append, List.nodup_append]
    refine ⟨h.distinct, List.nodup_singleton _, fun a ha b hb hab => ?_⟩
    obtain rfl := List.mem_singleton.mp hb
    exact hnew (hab ▸ ha)

/-- **Step**: the log still explains the cell. -/
theorem Move.explains (h : Move O quiet w p p' w') (hquiet : quiet) (hw : Explains O init w) (hp : Holds O w p) :
    Explains O init w' := by
  cases h with
  | stay | fail | read => exact hw
  | keep i op heffect =>
    refine hw.append hp ?_ _
    unfold apply
    rw [heffect hquiet]
  | write i op s _ hactive heffect =>
    exact hw.append (hactive.not_logged hp).2 (apply_of_effect (heffect hquiet hp)).symm _

theorem Move.holds (h : Move O quiet w p p' w') (hquiet : quiet) (hp : Holds O w p) : Holds O w' p' := by
  cases h with
  | stay => exact hp
  | fail i op _ hactive => exact (hactive.not_logged hp).2
  | read i op s heffect => exact ⟨hp, le_rfl, fun _ => heffect hquiet⟩
  | keep | write => exact List.mem_append_right _ (List.mem_singleton.mpr rfl)

theorem Move.call_eq (h : Move O quiet w p p' w') : p'.call = p.call := by
  cases h with
  | stay | read | keep => rfl
  | fail i op _ hactive | write i op s _ hactive => obtain rfl | ⟨s', seen, rfl⟩ := hactive <;> rfl

theorem not_mem_append {i j : ℕ} {op : ι} {log : List (ℕ × ι)} (h : j ∉ log.map Prod.fst) (hij : j ≠ i) :
    j ∉ (log ++ [(i, op)]).map Prod.fst := by
  rw [List.map_append, List.mem_append, not_or]
  exact ⟨h, fun hmem => hij (List.mem_singleton.mp hmem)⟩

/-- What another operation relies on survives an entry of the log, and a write that is counted. -/
theorem Holds.append {i : ℕ} {op : ι} {s : σ} {writes : ℕ} (hq : Holds O w q) (hid : q.id ≠ i)
    (hs : (s = w.cell ∧ writes = w.writes) ∨ w.writes < writes) : Holds O ⟨s, writes, w.log ++ [(i, op)]⟩ q := by
  cases q with
  | begun j op' => exact not_mem_append hq hid
  | writing j op' s' seen =>
    obtain ⟨hnew, hle, heffect⟩ := hq
    refine ⟨not_mem_append hnew hid, ?_, fun hseen => ?_⟩
    · rcases hs with ⟨-, rfl⟩ | hlt
      · exact hle
      · exact hle.trans hlt.le
    · rcases hs with ⟨rfl, rfl⟩ | hlt
      · exact heffect hseen
      · exact absurd hseen (ne_of_lt (lt_of_le_of_lt hle hlt))
  | done j op' succeeded =>
    cases succeeded with
    | true => exact List.mem_append_left _ hq
    | false => exact not_mem_append hq hid

theorem Move.other (h : Move O quiet w p p' w') (hp : Holds O w p) (hq : Holds O w q) (hapart : p.id ≠ q.id) :
    Holds O w' q := by
  cases h with
  | stay | fail | read => exact hq
  | keep i op => exact hq.append hapart.symm (.inl ⟨rfl, rfl⟩)
  | write i op s _ hactive => exact hq.append ((hactive.not_logged hp).1 ▸ hapart.symm) (.inr (Nat.lt_succ_self _))

/-- A step logs one operation at most. -/
theorem Move.log_eq (h : Move O quiet w p p' w') : w'.log = w.log ∨ ∃ q, w'.log = w.log ++ [q] := by
  cases h with
  | stay | fail | read => exact .inl rfl
  | keep | write => exact .inr ⟨_, rfl⟩

theorem Move.log_prefix (h : Move O quiet w p p' w') : w.log <+: w'.log := by
  rcases h.log_eq with heq | ⟨q, heq⟩
  · rw [heq]
  · rw [heq]
    exact List.prefix_append _ _

end Moves

theorem stable : Stable (exec O) (Undisturbed O) (Explains O init) (Holds O) Apart where
  symm _ _ h := Ne.symm h
  shared _ _ _ hquiet hw hp := exec_move.explains hquiet hw hp
  own _ _ _ hquiet _ hp := exec_move.holds hquiet hp
  other _ _ _ _ _ _ hp hq hapart := exec_move.other hp hq hapart
  apart x p w q _ _ _ _ hapart := by
    show (exec O x p w).1.id ≠ q.id
    rw [Phase.id, exec_move.call_eq]
    exact hapart

/-! ## Runs -/

variable {ops : ℕ → ι} {schedule : List (ℕ × Bool)}

theorem inv_start : Inv (Explains O init) (Holds O) Apart (start init ops) :=
  ⟨⟨rfl, List.nodup_nil⟩, fun _ => List.not_mem_nil, fun _ _ hij => hij⟩

theorem call_reached (i : ℕ) : ((reached O init ops schedule).procs i).call = (i, ops i) := by
  have hcall : ∀ i, ((reached O init ops schedule).procs i).call = (i, ops i) := inv_run
    (P := fun c : Config (World σ ι) (Phase σ ι) => ∀ i, (c.procs i).call = (i, ops i)) (G := fun _ _ => True)
    (fun c a hc _ i => by
      by_cases hi : i = a.1
      · rw [hi, procs_step_self, exec_move.call_eq]
        exact hc _
      · rw [procs_step_other hi]
        exact hc i) (fun _ => rfl) along_true
  exact hcall i

theorem log_prefix (schedule more : List (ℕ × Bool)) :
    (reached O init ops schedule).shared.log <+: (reached O init ops (schedule ++ more)).shared.log := by
  unfold reached
  rw [run_append]
  exact inv_run
    (P := fun c : Config (World σ ι) (Phase σ ι) => (run (step (exec O)) (start init ops) schedule).shared.log <+: c.shared.log)
    (G := fun _ _ => True) (fun c a hc _ => hc.trans exec_move.log_prefix) List.prefix_rfl along_true

theorem log_snoc (schedule : List (ℕ × Bool)) (a : ℕ × Bool) :
    (reached O init ops (schedule ++ [a])).shared.log = (reached O init ops schedule).shared.log ∨
      ∃ q, (reached O init ops (schedule ++ [a])).shared.log = (reached O init ops schedule).shared.log ++ [q] := by
  unfold reached
  rw [run_snoc]
  exact exec_move.log_eq

/-- **The operations that succeeded, one after another**: after every prefix of an undisturbed run, in the order of the log. -/
theorem serial_upto (hquiet : Along (step (exec O)) (fun c a => Undisturbed O a.2 (c.procs a.1) c.shared)
    (start init ops) schedule) : ∀ pre, pre <+: schedule →
      Serial O init (reached O init ops pre).shared.log (reached O init ops pre) := by
  intro pre hpre
  have hinv := stable.inv_upto inv_start hquiet pre hpre
  refine ⟨hinv.shared.distinct, fun i op => ?_, hinv.shared.cell⟩
  have hown := hinv.own i
  have hid : ((reached O init ops pre).procs i).id = i := congrArg Prod.fst (call_reached i)
  constructor
  · intro hmem
    have hkey : i ∈ (reached O init ops pre).shared.log.map Prod.fst := List.mem_map_of_mem hmem
    show (reached O init ops pre).procs i = _
    change Holds O (reached O init ops pre).shared ((reached O init ops pre).procs i) at hown
    cases hphase : (reached O init ops pre).procs i with
    | begun j op' =>
      rw [hphase] at hown hid
      obtain rfl : j = i := hid
      exact absurd hkey hown
    | writing j op' s seen =>
      rw [hphase] at hown hid
      obtain rfl : j = i := hid
      exact absurd hkey hown.1
    | done j op' succeeded =>
      rw [hphase] at hown hid
      obtain rfl : j = i := hid
      cases succeeded with
      | false => exact absurd hkey hown
      | true =>
        have heq := List.inj_on_of_nodup_map hinv.shared.distinct hmem hown rfl
        obtain rfl := (Prod.mk.inj heq).2
        rfl
  · intro hdone
    change Holds O (reached O init ops pre).shared ((reached O init ops pre).procs i) at hown
    rw [hdone] at hown
    exact hown

end Rules

end Vellar.ReadModifyWrite
