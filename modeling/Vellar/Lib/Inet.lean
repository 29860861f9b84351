import Vellar.Lib.Hex

/-!
# Vellar.Lib.Inet — IP address literals

`parseV4` and `parseV6` read the texts of addresses: four octets without leading zeros, and eight groups of
hexadecimal digits with one `::` for the zeros left out, two octets pairs for the last two groups, and a zone
after `%`.  `isIP` is the kind of a literal.
-/

set_option autoImplicit false

namespace Vellar.Inet

open Vellar.Hex (hexValue hexDigit)

/-! ## Grammar -/

def isDigit (c : Char) : Bool := decide ('0' ≤ c) && decide (c ≤ '9')

def decimal (cs : List Char) : ℕ := cs.foldl (fun n c => 10 * n + (c.toNat - 48)) 0

/-- One octet: digits without a leading zero, below 256. -/
def octet (cs : List Char) : Option ℕ :=
  if cs ≠ [] ∧ cs.all isDigit ∧ (cs.length = 1 ∨ cs.head? ≠ some '0') ∧ decimal cs < 256 then some (decimal cs) else none

def parseV4 (cs : List Char) : Option (List ℕ) :=
  if (cs.splitOn '.').length = 4 then (cs.splitOn '.').mapM octet else none

/-- The number written by hexadecimal digits. -/
def hexadecimal (ds : List ℕ) : ℕ := ds.foldl (fun n d => 16 * n + d) 0

/-- One group: one to four hexadecimal digits. -/
def hextet (cs : List Char) : Option ℕ :=
  if 1 ≤ cs.length ∧ cs.length ≤ 4 then (cs.mapM hexValue).map hexadecimal else none

/-- The last group, where an address of the fourth version may stand for two. -/
def lastGroup (cs : List Char) : Option (List ℕ) :=
  match parseV4 cs with
  | some [a, b, c, d] => some [256 * a + b, 256 * c + d]
  | _ => (hextet cs).map fun h => [h]

def groups : List (List Char) → Option (List ℕ)
  | [] => some []
  | [p] => lastGroup p
  | p :: q :: ps =>
    match hextet p, groups (q :: ps) with
    | some h, some hs => some (h :: hs)
    | _, _ => none

/-- The text on the two sides of the first `::`. -/
def splitDouble : List Char → Option (List Char × List Char)
  | [] => none
  | c :: cs =>
    if c = ':' ∧ cs.head? = some ':' then some ([], cs.tail)
    else (splitDouble cs).map fun sides => (c :: sides.1, sides.2)

/-- Groups between colons; no text is no group. -/
def pieces (cs : List Char) : List (List Char) := if cs = [] then [] else cs.splitOn ':'

/-- A zone: letters, digits and `-.:`. -/
def isZoneChar (c : Char) : Bool := c.isAlphanum || c = '-' || c = '.' || c = ':'

/-- The text before the zone. -/
def withoutZone (cs : List Char) : Option (List Char) :=
  match cs.dropWhile (· ≠ '%') with
  | [] => some cs
  | _ :: zone => if zone ≠ [] ∧ zone.all isZoneChar then some (cs.takeWhile (· ≠ '%')) else none

/-- The eight groups of an address text without a zone. -/
def parseGroups (cs : List Char) : Option (List ℕ) :=
  match splitDouble cs with
  | none => (groups (pieces cs)).filter fun hs => hs.length = 8
  | some (front, back) =>
    match (pieces front).mapM hextet, groups (pieces back) with
    | some hs, some ts =>
      if hs.length + ts.length ≤ 7 then some (hs ++ List.replicate (8 - (hs.length + ts.length)) 0 ++ ts) else none
    | _, _ => none

/-- The groups of an address of the sixth version. -/
def parseV6 (cs : List Char) : Option (List ℕ) := (withoutZone cs).bind parseGroups

/-- The version of an address literal; zero for any other text. -/
def isIP (cs : List Char) : ℕ :=
  if (parseV4 cs).isSome then 4 else if (parseV6 cs).isSome then 6 else 0

example : parseV6 "1:2::Ffff:10.0.0.1%eth0".toList = some [1, 2, 0, 0, 0, 0xffff, 0xa00, 1] := by decide

example : isIP "1::2::3".toList = 0 := by decide

/-! ## The first piece of a text -/

variable {α : Type} [BEq α] [LawfulBEq α] {cs p : List Char} {ps : List (List Char)} {hs : List ℕ}

theorem splitOn_cons_self (x : α) (xs : List α) : (x :: xs).splitOn x = [] :: xs.splitOn x := by
  unfold List.splitOn
  rw [List.splitOnP_cons_eq_if_modifyHead, if_pos (beq_self_eq_true x)]

theorem splitOn_cons_of_ne {c x : α} (h : c ≠ x) (xs : List α) :
    (c :: xs).splitOn x = (xs.splitOn x).modifyHead (List.cons c) := by
  unfold List.splitOn
  rw [List.splitOnP_cons_eq_if_modifyHead, if_neg (by simpa using h)]

/-- The first piece ends where the text does or at the first separator. -/
theorem splitOn_first {x : α} {xs q : List α} {qs : List (List α)} (h : xs.splitOn x = q :: qs) :
    x ∉ q ∧ ((qs = [] ∧ xs = q) ∨ ∃ rest, xs = q ++ x :: rest ∧ rest.splitOn x = qs) := by
  induction xs generalizing q with
  | nil =>
    rw [List.splitOn_nil] at h
    obtain ⟨rfl, rfl⟩ := List.cons.inj h
    exact ⟨List.not_mem_nil, .inl ⟨rfl, rfl⟩⟩
  | cons c xs ih =>
    by_cases hc : c = x
    · rw [hc, splitOn_cons_self] at h
      obtain ⟨rfl, rfl⟩ := List.cons.inj h
      exact ⟨List.not_mem_nil, .inr ⟨xs, by rw [hc]; rfl, rfl⟩⟩
    · rw [splitOn_cons_of_ne hc] at h
      cases hxs : xs.splitOn x with
      | nil =>
        rw [hxs] at h
        cases h
      | cons q' qs' =>
        rw [hxs, List.modifyHead_cons] at h
        obtain ⟨rfl, rfl⟩ := List.cons.inj h
        obtain ⟨hx, hrest⟩ := ih hxs
        refine ⟨fun hmem => (List.mem_cons.mp hmem).elim (fun heq => hc heq.symm) hx, ?_⟩
        rcases hrest with ⟨hnil, rfl⟩ | ⟨rest, rfl, hrest⟩
        · exact .inl ⟨hnil, rfl⟩
        · exact .inr ⟨rest, rfl, hrest⟩

/-- Every character is the separator or stands in a piece. -/
theorem mem_splitOn {x c : α} {xs : List α} (h : c ∈ xs) : c = x ∨ ∃ q ∈ xs.splitOn x, c ∈ q := by
  have hjoin : [x].intercalate (xs.splitOn x) = xs := List.intercalate_splitOn x
  rw [← hjoin] at h
  generalize xs.splitOn x = qs at h
  induction qs with
  | nil => cases h
  | cons q qs ih =>
    cases qs with
    | nil =>
      rw [List.intercalate_singleton] at h
      exact .inr ⟨q, by simp, h⟩
    | cons q' qs =>
      rw [List.intercalate_cons_cons] at h
      rcases List.mem_append.mp h with h | h
      · rcases List.mem_append.mp h with h | h
        · exact .inr ⟨q, by simp, h⟩
        · exact .inl (List.mem_singleton.mp h)
      · rcases ih h with heq | ⟨r, hr, hc⟩
        · exact .inl heq
        · exact .inr ⟨r, List.mem_cons_of_mem _ hr, hc⟩

theorem exists_of_mapM {β γ : Type} {f : β → Option γ} {xs : List β} {ys : List γ} {x : β}
    (h : xs.mapM f = some ys) (hx : x ∈ xs) : ∃ y, f x = some y := by
  induction xs generalizing ys with
  | nil => cases hx
  | cons z xs ih =>
    rw [List.mapM_cons] at h
    obtain ⟨y, hy, h⟩ := Option.bind_eq_some_iff.mp h
    obtain ⟨ys', hys', -⟩ := Option.bind_eq_some_iff.mp h
    rcases List.mem_cons.mp hx with rfl | hx
    · exact ⟨y, hy⟩
    · exact ih hys' hx

/-! ## The first group of an address -/

theorem splitDouble_eq {front back : List Char} (h : splitDouble cs = some (front, back)) :
    cs = front ++ ':' :: ':' :: back := by
  induction cs generalizing front with
  | nil => cases h
  | cons c cs ih =>
    rw [splitDouble] at h
    split at h
    · next hcolon =>
      obtain ⟨rfl, hhead⟩ := hcolon
      cases cs with
      | nil => cases hhead
      | cons c' cs =>
        obtain rfl := Option.some.inj hhead
        cases h
        rfl
    · obtain ⟨sides, hsides, heq⟩ := Option.map_eq_some_iff.mp h
      obtain ⟨front', back'⟩ := sides
      cases heq
      rw [ih hsides]
      rfl

theorem length_lastGroup (h : lastGroup p = some hs) : hs.length ≤ 2 := by
  unfold lastGroup at h
  split at h
  · cases h
    exact Nat.le_refl 2
  · obtain ⟨v, -, rfl⟩ := Option.map_eq_some_iff.mp h
    exact Nat.le_succ 1

/-- The groups of pieces: more than two start with a hexadecimal one. -/
theorem groups_first (h : groups (p :: ps) = some hs) (hlong : 2 < hs.length) :
    ps ≠ [] ∧ ∃ v, hextet p = some v ∧ hs.head? = some v := by
  cases ps with
  | nil =>
    have hle := length_lastGroup h
    omega
  | cons q ps =>
    rw [groups] at h
    split at h
    · next v ts hv hts =>
      cases h
      exact ⟨List.cons_ne_nil _ _, v, hv, rfl⟩
    · cases h

theorem splitOn_ne_nil (x : Char) (xs : List Char) : xs.splitOn x ≠ [] := by
  unfold List.splitOn
  exact List.splitOnP_ne_nil _ _

/-- An address starts with `::`, for a group of zeros, or with its first group and a colon. -/
theorem parseGroups_first (h : parseGroups cs = some hs) :
    (hs.head? = some 0 ∧ ∃ rest, cs = ':' :: ':' :: rest) ∨
      ∃ p rest v, cs = p ++ ':' :: rest ∧ ':' ∉ p ∧ hextet p = some v ∧ hs.head? = some v := by
  unfold parseGroups at h
  split at h
  · obtain ⟨hgroups, hlen⟩ := Option.filter_eq_some_iff.mp h
    have hlong : hs.length = 8 := of_decide_eq_true hlen
    unfold pieces at hgroups
    split at hgroups
    · cases hgroups
      cases hlong
    · cases hsplit : cs.splitOn ':' with
      | nil => exact absurd hsplit (splitOn_ne_nil ':' cs)
      | cons p ps =>
        rw [hsplit] at hgroups
        obtain ⟨hne, v, hv, hhead⟩ := groups_first hgroups (by omega)
        obtain ⟨hcolon, hrest⟩ := splitOn_first hsplit
        rcases hrest with ⟨hnil, -⟩ | ⟨rest, hcs, -⟩
        · exact absurd hnil hne
        · exact .inr ⟨p, rest, v, hcs, hcolon, hv, hhead⟩
  · next front back hdouble =>
    have hcs := splitDouble_eq hdouble
    split at h
    · next ts rs hfront hback =>
      split at h
      · next hlen =>
        cases h
        cases front with
        | nil =>
          cases hfront
          refine .inl ⟨?_, back, hcs⟩
          have hzero : 8 - (0 + rs.length) = (7 - rs.length) + 1 := by
            have hle : 0 + rs.length ≤ 7 := hlen
            omega
          show (List.replicate (8 - (0 + rs.length)) 0 ++ rs).head? = some 0
          rw [hzero]
          rfl
        | cons c front =>
          unfold pieces at hfront
          rw [if_neg (List.cons_ne_nil c front)] at hfront
          cases hsplit : (c :: front).splitOn ':' with
          | nil => exact absurd hsplit (splitOn_ne_nil ':' _)
          | cons p ps =>
            rw [hsplit] at hfront
            obtain ⟨v, ts', hv, hts', rfl⟩ : ∃ v ts', hextet p = some v ∧ ps.mapM hextet = some ts' ∧ ts = v :: ts' := by
              rw [List.mapM_cons] at hfront
              obtain ⟨v, hv, hfront⟩ := Option.bind_eq_some_iff.mp hfront
              obtain ⟨ts', hts', heq⟩ := Option.bind_eq_some_iff.mp hfront
              exact ⟨v, ts', hv, hts', (Option.some.inj heq).symm⟩
            obtain ⟨hcolon, hrest⟩ := splitOn_first hsplit
            rcases hrest with ⟨-, hcs'⟩ | ⟨rest, hcs', -⟩
            · exact .inr ⟨p, ':' :: back, v, by rw [hcs, hcs'], hcolon, hv, rfl⟩
            · exact .inr ⟨p, rest ++ ':' :: ':' :: back, v, by rw [hcs, hcs']; simp, hcolon, hv, rfl⟩
      · cases h
    · cases h

theorem withoutZone_prefix {body : List Char} (h : withoutZone cs = some body) : ∃ zone, cs = body ++ zone := by
  unfold withoutZone at h
  split at h
  · cases h
    exact ⟨[], (List.append_nil cs).symm⟩
  · split at h
    · cases h
      exact ⟨_, (List.takeWhile_append_dropWhile (p := (· ≠ '%')) (l := cs)).symm⟩
    · cases h

/-- **The first group of an address** is the text before its first colon, or zero before `::`. -/
theorem parseV6_first (h : parseV6 cs = some hs) :
    (hs.head? = some 0 ∧ ∃ rest, cs = ':' :: ':' :: rest) ∨
      ∃ p rest v, cs = p ++ ':' :: rest ∧ ':' ∉ p ∧ hextet p = some v ∧ hs.head? = some v := by
  obtain ⟨body, hbody, hgroups⟩ := Option.bind_eq_some_iff.mp h
  obtain ⟨zone, rfl⟩ := withoutZone_prefix hbody
  rcases parseGroups_first hgroups with ⟨hhead, rest, rfl⟩ | ⟨p, rest, v, rfl, hcolon, hv, hhead⟩
  · exact .inl ⟨hhead, rest ++ zone, rfl⟩
  · exact .inr ⟨p, rest ++ zone, v, List.append_assoc .., hcolon, hv, hhead⟩

theorem parseV6_of_no_colon (h : ':' ∉ cs) : parseV6 cs = none := by
  cases hparse : parseV6 cs with
  | none => rfl
  | some hs =>
    rcases parseV6_first hparse with ⟨-, rest, rfl⟩ | ⟨p, rest, v, rfl, -⟩
    · exact absurd List.mem_cons_self h
    · exact absurd (List.mem_append_right p List.mem_cons_self) h

/-- A literal of the sixth version is none of the fourth. -/
theorem parseV4_of_colon (h : ':' ∈ cs) : parseV4 cs = none := by
  unfold parseV4
  split
  · obtain heq | ⟨q, hq, hmem⟩ := mem_splitOn (x := '.') h
    · exact absurd heq (by decide)
    · refine Option.eq_none_iff_forall_ne_some.mpr fun octets hoctets => ?_
      obtain ⟨n, hn⟩ := exists_of_mapM hoctets hq
      unfold octet at hn
      split at hn
      · next hdigits => exact absurd (List.all_eq_true.mp hdigits.2.1 ':' hmem) (by decide)
      · cases hn
  · rfl

theorem isIP_of_parseV6 (h : parseV6 cs = some hs) : isIP cs = 6 := by
  have hcolon : ':' ∈ cs := by
    by_contra hno
    rw [parseV6_of_no_colon hno] at h
    cases h
  unfold isIP
  rw [parseV4_of_colon hcolon, h]
  rfl

end Vellar.Inet
