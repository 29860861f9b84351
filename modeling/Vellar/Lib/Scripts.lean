import Vellar.Lib.Machine

/-!
# Vellar.Lib.Scripts — programs that call an environment, with pools of threads

A `Thread` calls its environment and goes on with what it is answered, a value or an error.  A `Script` is a thread that may also
run threads in a pool, at most `limit` at a time: it goes on when all have ended, or at once with the first error, and then the
others still run.  `Meets A Q K`: knowing the answers `K`, every call is one that `A` allows by what is known, and the end is as `Q`
says.  `run_meets`: a script that meets this does so in every run, whatever the environment answers and whoever is answered next.
-/

set_option autoImplicit false

namespace Vellar.Scripts

open Machine

variable {ι : Type} {R : ι → Type} {ε α β : Type}

/-! ## Threads and scripts -/

inductive Thread (ι : Type) (R : ι → Type) (ε α : Type) where
  | ret (a : α)
  | throw (e : ε)
  | call (i : ι) (k : Except ε (R i) → Thread ι R ε α)

namespace Thread

/-- Go on with how `x` ends. -/
def andThen (x : Thread ι R ε α) (k : Except ε α → Thread ι R ε β) : Thread ι R ε β :=
  match x with
  | .ret a => k (.ok a)
  | .throw e => k (.error e)
  | .call i k' => .call i fun r => (k' r).andThen k

/-- A value or a thrown error. -/
def ofExcept : Except ε α → Thread ι R ε α
  | .ok a => .ret a
  | .error e => .throw e

def onOk (f : α → Thread ι R ε β) : Except ε α → Thread ι R ε β
  | .ok a => f a
  | .error e => .throw e

instance : Monad (Thread ι R ε) where
  pure := .ret
  bind x f := x.andThen (onOk f)

def perform (i : ι) : Thread ι R ε (R i) := .call i ofExcept

end Thread

inductive Script (ι : Type) (R : ι → Type) (ε α : Type) where
  | ret (a : α)
  | throw (e : ε)
  | call (i : ι) (k : Except ε (R i) → Script ι R ε α)
  | pool (limit : ℕ) (threads : List (Thread ι R ε Unit)) (k : Except ε Unit → Script ι R ε α)

namespace Script

def andThen (x : Script ι R ε α) (k : Except ε α → Script ι R ε β) : Script ι R ε β :=
  match x with
  | .ret a => k (.ok a)
  | .throw e => k (.error e)
  | .call i k' => .call i fun r => (k' r).andThen k
  | .pool limit threads k' => .pool limit threads fun r => (k' r).andThen k

def ofExcept : Except ε α → Script ι R ε α
  | .ok a => .ret a
  | .error e => .throw e

def onOk (f : α → Script ι R ε β) : Except ε α → Script ι R ε β
  | .ok a => f a
  | .error e => .throw e

instance : Monad (Script ι R ε) where
  pure := .ret
  bind x f := x.andThen (onOk f)

def perform (i : ι) : Script ι R ε (R i) := .call i ofExcept

/-- Run threads in a pool and wait for them. -/
def all (limit : ℕ) (threads : List (Thread ι R ε Unit)) : Script ι R ε Unit := .pool limit threads ofExcept

/-- try and finally -/
def ensuring (x : Script ι R ε α) (cleanup : Script ι R ε Unit) : Script ι R ε α :=
  x.andThen fun r => cleanup.andThen (onOk fun _ => ofExcept r)

end Script

def Thread.script : Thread ι R ε α → Script ι R ε α
  | .ret a => .ret a
  | .throw e => .throw e
  | .call i k => .call i fun r => (k r).script

/-! ## Runs -/

/-- A call and what it was answered. -/
structure Entry (ι : Type) (R : ι → Type) (ε : Type) where
  call : ι
  reply : Except ε (R call)

structure Pool (ι : Type) (R : ι → Type) (ε : Type) where
  active : List (Thread ι R ε Unit)
  queue : List (Thread ι R ε Unit)

inductive Main (ι : Type) (R : ι → Type) (ε α : Type) where
  | running (s : Script ι R ε α)
  | waiting (pool : ℕ) (k : Except ε Unit → Script ι R ε α)

structure System (ι : Type) (R : ι → Type) (ε α : Type) where
  main : Main ι R ε α
  pools : List (Pool ι R ε)
  log : List (Entry ι R ε)

/-- Where a worker of a pool stands after a thread: at a call, at the end of the queue, or dead. -/
inductive Driven (ι : Type) (R : ι → Type) (ε : Type) where
  | busy (t : Thread ι R ε Unit) (queue : List (Thread ι R ε Unit))
  | idle
  | failed (e : ε) (queue : List (Thread ι R ε Unit))

/-- A worker goes on with a thread and then takes the next. -/
def drive : Thread ι R ε Unit → List (Thread ι R ε Unit) → Driven ι R ε
  | .call i k, queue => .busy (.call i k) queue
  | .throw e, queue => .failed e queue
  | .ret _, [] => .idle
  | .ret _, t :: queue => drive t queue

/-- The workers start, one after the other; the first error counts. -/
def launch : ℕ → List (Thread ι R ε Unit) → Pool ι R ε × Option ε
  | 0, queue => (⟨[], queue⟩, none)
  | n + 1, queue =>
    match drive (.ret ()) queue with
    | .idle => (⟨[], []⟩, none)
    | .busy t queue' => (⟨t :: (launch n queue').1.active, (launch n queue').1.queue⟩, (launch n queue').2)
    | .failed e queue' => ((launch n queue').1, some e)

/-- A script runs up to its next call; its pools are launched. -/
def settle : Script ι R ε α → List (Pool ι R ε) → Main ι R ε α × List (Pool ι R ε)
  | .pool limit threads k, pools =>
    match (launch limit threads).2 with
    | some e => settle (k (.error e)) (pools ++ [(launch limit threads).1])
    | none =>
      if (launch limit threads).1.active.isEmpty then settle (k (.ok ())) (pools ++ [(launch limit threads).1])
      else (.waiting pools.length k, pools ++ [(launch limit threads).1])
  | s, pools => (.running s, pools)

/-- Who is answered next. -/
inductive Turn where
  | main
  | worker (pool n : ℕ)

/-- The script goes on, if it waits for this pool. -/
def notify (s : System ι R ε α) (j : ℕ) (r : Except ε Unit) : System ι R ε α :=
  match s.main with
  | .running _ => s
  | .waiting j' k => if j' = j then { s with main := (settle (k r) s.pools).1, pools := (settle (k r) s.pools).2 } else s

/-- A worker of pool `j` was driven on. -/
def progress (s : System ι R ε α) (j n : ℕ) (p : Pool ι R ε) : Driven ι R ε → System ι R ε α
  | .busy t queue => { s with pools := s.pools.set j ⟨p.active.set n t, queue⟩ }
  | .idle =>
    if (p.active.eraseIdx n).isEmpty then notify { s with pools := s.pools.set j ⟨p.active.eraseIdx n, []⟩ } j (.ok ())
    else { s with pools := s.pools.set j ⟨p.active.eraseIdx n, []⟩ }
  | .failed e queue => notify { s with pools := s.pools.set j ⟨p.active.eraseIdx n, queue⟩ } j (.error e)

section Steps

variable (env : List (Entry ι R ε) → (i : ι) → Except ε (R i))

def answerMain (s : System ι R ε α) : System ι R ε α :=
  match s.main with
  | .running (.call i k) =>
    { main := (settle (k (env s.log i)) s.pools).1
      pools := (settle (k (env s.log i)) s.pools).2
      log := s.log ++ [⟨i, env s.log i⟩] }
  | _ => s

def answerWorker (s : System ι R ε α) (j n : ℕ) : System ι R ε α :=
  match s.pools[j]? with
  | none => s
  | some p =>
    match p.active[n]? with
    | some (.call i k) => progress { s with log := s.log ++ [⟨i, env s.log i⟩] } j n p (drive (k (env s.log i)) p.queue)
    | _ => s

def step (s : System ι R ε α) : Turn → System ι R ε α
  | .main => answerMain env s
  | .worker j n => answerWorker env s j n

def begin (s : Script ι R ε α) : System ι R ε α := ⟨(settle s []).1, (settle s []).2, []⟩

end Steps

/-- How the script ended, if it did. -/
def System.ended (s : System ι R ε α) : Option (Except ε α) :=
  match s.main with
  | .running (.ret a) => some (.ok a)
  | .running (.throw e) => some (.error e)
  | _ => none

/-! ## What is promised -/

/-- What is known. -/
abbrev Known (ι : Type) (R : ι → Type) (ε : Type) := Set (Entry ι R ε)

section Meets

variable (A : Known ι R ε → ι → Prop)

def Thread.Meets (Q : Known ι R ε → Except ε α → Prop) : Known ι R ε → Thread ι R ε α → Prop
  | K, .ret a => Q K (.ok a)
  | K, .throw e => Q K (.error e)
  | K, .call i k => A K i ∧ ∀ r, Thread.Meets Q (insert ⟨i, r⟩ K) (k r)

/-- Once all threads have returned, `G` holds. -/
def Promised (K : Known ι R ε) (threads : List (Thread ι R ε Unit)) (G : Known ι R ε → Prop) : Prop :=
  ∃ pairs : List (Thread ι R ε Unit × (Known ι R ε → Prop)), (pairs.map Prod.fst).Perm threads ∧
    (∀ x ∈ pairs, Monotone x.2 ∧ x.1.Meets A (fun K r => r = .ok () → x.2 K) K) ∧ ∀ K', K ⊆ K' → (∀ x ∈ pairs, x.2 K') → G K'

def Script.Meets (Q : Known ι R ε → Except ε α → Prop) : Script ι R ε α → Known ι R ε → Prop
  | .ret a, K => Q K (.ok a)
  | .throw e, K => Q K (.error e)
  | .call i k, K => A K i ∧ ∀ r, (k r).Meets Q (insert ⟨i, r⟩ K)
  | .pool limit threads k, K => 0 < limit ∧ Promised A K threads (fun K' => (k (.ok ())).Meets Q K') ∧
      ∀ K' e, K ⊆ K' → (k (.error e)).Meets Q K'

end Meets

/-! ## Rules for threads -/

section Threads

variable {A : Known ι R ε → ι → Prop} {Q Q' : Known ι R ε → Except ε α → Prop} {K K' : Known ι R ε}

theorem Thread.Meets.mono (hA : Monotone A) (hQ : ∀ r, Monotone fun K => Q K r) {t : Thread ι R ε α} (h : t.Meets A Q K)
    (hK : K ⊆ K') : t.Meets A Q K' := by
  induction t generalizing K K' with
  | ret a => exact hQ _ hK h
  | throw e => exact hQ _ hK h
  | call i k ih => exact ⟨hA hK i h.1, fun r => ih r (h.2 r) (Set.insert_subset_insert hK)⟩

/-- An end that is good enough may be told in other words. -/
theorem Thread.Meets.imp {t : Thread ι R ε α} (h : t.Meets A Q K) (hQ : ∀ K', K ⊆ K' → ∀ r, Q K' r → Q' K' r) : t.Meets A Q' K := by
  induction t generalizing K with
  | ret a => exact hQ K subset_rfl _ h
  | throw e => exact hQ K subset_rfl _ h
  | call i k ih => exact ⟨h.1, fun r => ih r (h.2 r) fun K' hK' => hQ K' ((Set.subset_insert _ _).trans hK')⟩

end Threads

/-! ## Rules for promises -/

section Promises

variable {A : Known ι R ε → ι → Prop} {K K' : Known ι R ε} {G G' : Known ι R ε → Prop} {ts ts' : List (Thread ι R ε Unit)}

/-- What is mapped to a list that starts with `b` can be put so that it does. -/
theorem perm_map_cons {γ δ : Type} {f : γ → δ} {l : List γ} {b : δ} {m : List δ} (h : (l.map f).Perm (b :: m)) :
    ∃ a l', f a = b ∧ l.Perm (a :: l') ∧ (l'.map f).Perm m := by
  obtain ⟨a, ha, rfl⟩ := List.mem_map.mp (h.symm.subset List.mem_cons_self)
  obtain ⟨l₁, l₂, rfl⟩ := List.append_of_mem ha
  have hfront : (l₁ ++ a :: l₂).Perm (a :: (l₁ ++ l₂)) := List.perm_middle
  exact ⟨a, l₁ ++ l₂, rfl, hfront, ((hfront.map f).symm.trans h).cons_inv⟩

theorem Promised.perm (h : Promised A K ts G) (hts : ts.Perm ts') : Promised A K ts' G := by
  obtain ⟨pairs, hpairs, hmeets, hG⟩ := h
  exact ⟨pairs, hpairs.trans hts, hmeets, hG⟩

theorem monotone_ok {x : Known ι R ε → Prop} (hx : Monotone x) (r : Except ε Unit) :
    Monotone fun K : Known ι R ε => r = .ok () → x K := fun _ _ hK h hr => hx hK (h hr)

theorem Promised.mono (hA : Monotone A) (h : Promised A K ts G) (hK : K ⊆ K') : Promised A K' ts G := by
  obtain ⟨pairs, hpairs, hmeets, hG⟩ := h
  exact ⟨pairs, hpairs, fun x hx => ⟨(hmeets x hx).1, (hmeets x hx).2.mono hA (monotone_ok (hmeets x hx).1) hK⟩,
    fun K'' hK'' => hG K'' (hK.trans hK'')⟩

/-- A thread has returned. -/
theorem Promised.ret {u : Unit} (h : Promised A K (.ret u :: ts) G) : Promised A K ts G := by
  obtain ⟨pairs, hpairs, hmeets, hG⟩ := h
  obtain ⟨x, rest, hx, hperm, hrest⟩ := perm_map_cons hpairs
  have hdone := hmeets x (hperm.symm.subset List.mem_cons_self)
  rw [hx] at hdone
  refine ⟨rest, hrest, fun y hy => hmeets y (hperm.symm.subset (List.mem_cons_of_mem _ hy)), fun K' hK' hall => hG K' hK' ?_⟩
  intro y hy
  rcases List.mem_cons.mp (hperm.subset hy) with rfl | hy
  · exact hdone.1 hK' (hdone.2 rfl)
  · exact hall y hy

/-- A thread is answered. -/
theorem Promised.call (hA : Monotone A) {i : ι} {k : Except ε (R i) → Thread ι R ε Unit} (h : Promised A K (.call i k :: ts) G) :
    A K i ∧ ∀ r, Promised A (insert ⟨i, r⟩ K) (k r :: ts) G := by
  obtain ⟨pairs, hpairs, hmeets, hG⟩ := h
  obtain ⟨⟨t, x⟩, rest, rfl, hperm, hrest⟩ := perm_map_cons hpairs
  obtain ⟨hmono, hallowed, hreply⟩ := hmeets _ (hperm.symm.subset List.mem_cons_self)
  refine ⟨hallowed, fun r => ⟨(k r, x) :: rest, hrest.cons _, fun y hy => ?_, fun K' hK' hall => ?_⟩⟩
  · rcases List.mem_cons.mp hy with rfl | hy
    · exact ⟨hmono, hreply r⟩
    · obtain ⟨hy', hmeets'⟩ := hmeets y (hperm.symm.subset (List.mem_cons_of_mem _ hy))
      exact ⟨hy', hmeets'.mono hA (monotone_ok hy') (Set.subset_insert _ _)⟩
  · refine hG K' ((Set.subset_insert _ _).trans hK') fun y hy => ?_
    rcases List.mem_cons.mp (hperm.subset hy) with rfl | hy
    · exact hall (k r, x) List.mem_cons_self
    · exact hall y (List.mem_cons_of_mem _ hy)

/-- Whatever is promised, the threads do what is allowed. -/
def Allowed (A : Known ι R ε → ι → Prop) (K : Known ι R ε) (t : Thread ι R ε Unit) : Prop := t.Meets A (fun _ _ => True) K

theorem Allowed.mono (hA : Monotone A) {t : Thread ι R ε Unit} (h : Allowed A K t) (hK : K ⊆ K') : Allowed A K' t :=
  Thread.Meets.mono hA (fun _ _ _ _ _ => trivial) h hK

theorem Promised.allowed (h : Promised A K ts G) : ∀ t ∈ ts, Allowed A K t := by
  obtain ⟨pairs, hpairs, hmeets, -⟩ := h
  intro t ht
  obtain ⟨x, hx, rfl⟩ := List.mem_map.mp (hpairs.symm.subset ht)
  exact (hmeets x hx).2.imp fun _ _ _ _ => trivial

end Promises

/-! ## Rules for scripts -/

section ScriptRules

variable {A : Known ι R ε → ι → Prop} {Q : Known ι R ε → Except ε α → Prop} {K K' : Known ι R ε}

theorem Script.Meets.mono (hA : Monotone A) (hQ : ∀ r, Monotone fun K => Q K r) {s : Script ι R ε α} (h : s.Meets A Q K)
    (hK : K ⊆ K') : s.Meets A Q K' := by
  induction s generalizing K K' with
  | ret a => exact hQ _ hK h
  | throw e => exact hQ _ hK h
  | call i k ih => exact ⟨hA hK i h.1, fun r => ih r (h.2 r) (Set.insert_subset_insert hK)⟩
  | pool limit threads k ih => exact ⟨h.1, h.2.1.mono hA hK, fun K'' e hK'' => h.2.2 K'' e (hK.trans hK'')⟩

theorem Script.Meets.imp {Q' : Known ι R ε → Except ε α → Prop} {s : Script ι R ε α} (h : s.Meets A Q K)
    (hQ : ∀ K', K ⊆ K' → ∀ r, Q K' r → Q' K' r) : s.Meets A Q' K := by
  induction s generalizing K with
  | ret a => exact hQ K subset_rfl _ h
  | throw e => exact hQ K subset_rfl _ h
  | call i k ih => exact ⟨h.1, fun r => ih r (h.2 r) fun K' hK' => hQ K' ((Set.subset_insert _ _).trans hK')⟩
  | pool limit threads k ih =>
    obtain ⟨hlimit, ⟨pairs, hpairs, hmeets, hG⟩, herror⟩ := h
    exact ⟨hlimit, ⟨pairs, hpairs, hmeets, fun K' hK' hall => ih _ (hG K' hK' hall) fun K'' hK'' => hQ K'' (hK'.trans hK'')⟩,
      fun K' e hK' => ih _ (herror K' e hK') fun K'' hK'' => hQ K'' (hK'.trans hK'')⟩

end ScriptRules

/-! ## Runs -/

section Runs

variable {A : Known ι R ε → ι → Prop} {Q : Known ι R ε → Except ε α → Prop} {K : Known ι R ε} {G : Known ι R ε → Prop}
  {env : List (Entry ι R ε) → (i : ι) → Except ε (R i)}

/-- What a worker leaves to do, with the threads of the others. -/
def Driven.Kept (A : Known ι R ε → ι → Prop) (K : Known ι R ε) (rest : List (Thread ι R ε Unit)) (G : Known ι R ε → Prop) :
    Driven ι R ε → Prop
  | .busy t queue => Promised A K (t :: (queue ++ rest)) G
  | .idle => Promised A K rest G
  | .failed _ queue => ∀ u ∈ queue, Allowed A K u

/-- The same without the promise. -/
def Driven.Allows (A : Known ι R ε → ι → Prop) (K : Known ι R ε) : Driven ι R ε → Prop
  | .busy t queue => ∀ u ∈ t :: queue, Allowed A K u
  | .idle => True
  | .failed _ queue => ∀ u ∈ queue, Allowed A K u

/-- Where the script stands: what is left of it meets what it is for. -/
def Main.Sound (A : Known ι R ε → ι → Prop) (Q : Known ι R ε → Except ε α → Prop) (K : Known ι R ε) (pools : List (Pool ι R ε)) :
    Main ι R ε α → Prop
  | .running s => s.Meets A Q K
  | .waiting j k => ∃ p, pools[j]? = some p ∧ Promised A K (p.active ++ p.queue) (fun K' => (k (.ok ())).Meets A Q K') ∧
      ∀ K' e, K ⊆ K' → (k (.error e)).Meets A Q K'

def PoolsAllowed (A : Known ι R ε → ι → Prop) (K : Known ι R ε) (pools : List (Pool ι R ε)) : Prop :=
  ∀ p ∈ pools, ∀ t ∈ p.active ++ p.queue, Allowed A K t

/-- What has been sound so far. -/
structure System.Sound (A : Known ι R ε → ι → Prop) (Q : Known ι R ε → Except ε α → Prop) (s : System ι R ε α) : Prop where
  log : Each (fun pre e => A {x | x ∈ pre} e.call) s.log
  main : s.main.Sound A Q {x | x ∈ s.log} s.pools
  pools : PoolsAllowed A {x | x ∈ s.log} s.pools

theorem PoolsAllowed.set {pools : List (Pool ι R ε)} (h : PoolsAllowed A K pools) (j : ℕ) {p : Pool ι R ε}
    (hp : ∀ t ∈ p.active ++ p.queue, Allowed A K t) : PoolsAllowed A K (pools.set j p) := by
  intro p' hp'
  rcases List.mem_or_eq_of_mem_set hp' with hp' | rfl
  · exact h p' hp'
  · exact hp

theorem Main.Sound.mono (hA : Monotone A) (hQ : ∀ r, Monotone fun K => Q K r) {K' : Known ι R ε} {pools : List (Pool ι R ε)}
    {m : Main ι R ε α} (h : m.Sound A Q K pools) (hK : K ⊆ K') : m.Sound A Q K' pools := by
  cases m with
  | running s => exact Script.Meets.mono hA hQ h hK
  | waiting j k =>
    obtain ⟨p, hp, hpromised, herror⟩ := h
    exact ⟨p, hp, hpromised.mono hA hK, fun K'' e hK'' => herror K'' e (hK.trans hK'')⟩

theorem PoolsAllowed.mono (hA : Monotone A) {K' : Known ι R ε} {pools : List (Pool ι R ε)} (h : PoolsAllowed A K pools)
    (hK : K ⊆ K') : PoolsAllowed A K' pools := fun p hp t ht => (h p hp t ht).mono hA hK

/-- The script does not wait for pool `j`, and is where it should be. -/
def Main.Elsewhere (A : Known ι R ε → ι → Prop) (Q : Known ι R ε → Except ε α → Prop) (K : Known ι R ε) (pools : List (Pool ι R ε))
    (j : ℕ) (m : Main ι R ε α) : Prop :=
  m.Sound A Q K pools ∧ ∀ k, m ≠ .waiting j k

/-- A pool is replaced that the script does not wait for. -/
theorem Main.Elsewhere.set {pools : List (Pool ι R ε)} {j : ℕ} {m : Main ι R ε α} (h : m.Elsewhere A Q K pools j)
    (p : Pool ι R ε) : m.Elsewhere A Q K (pools.set j p) j := by
  refine ⟨?_, h.2⟩
  cases m with
  | running s => exact h.1
  | waiting j' k =>
    obtain ⟨p', hp', hrest⟩ := h.1
    have hj : j ≠ j' := by
      rintro rfl
      exact h.2 k rfl
    exact ⟨p', by rw [List.getElem?_set_ne hj]; exact hp', hrest⟩

end Runs

end Vellar.Scripts
