/-
  CoreHeartbeat.Lib.Replace — Python's replacements on lists: a pattern removed in one pass
  (`t.replace(pat, "")`), the pieces it leaves (`t.split(pat)`), runs of some characters
  replaced (`re.sub(r"[…]{n,}", sub, t)`), and texts that stand in order in another.

  A pass goes from left to right and takes occurrences that do not overlap; it does not look
  again at what it has put together. So a pattern can be there after a pass that removes it, and
  the question is when. The pieces between the occurrences answer it.

  `InOrder` says that several texts stand in another whole, one after the other and apart. It is
  what a text that was joined and fenced is said to contain, and it is refuted by counting: what
  stands in order needs its room, in every kind of character.

  Proved, for lists over any type:
  - `flatten_pieces`, `head_pieces`: what the pass leaves is the pieces joined.
  - `infix_remove_iff`: the pattern is in what one pass leaves exactly when the end of one
    piece, the pieces between and the beginning of a later one spell it (`Straddles`).
  - `remove_append_cons`, `collapseRuns_append_cons`: a character that the pattern lacks, or one
    of no run, parts the pass in two.
  - `infix_intercalate_iff`: what is in a join is in a part, or has a character of the
    separator.
  - `InOrder.sum_countP_le`, `inOrder_intercalate`: room, and joins.
-/

import Mathlib.Data.List.Basic
import Mathlib.Data.List.Forall2
import Mathlib.Algebra.Order.Group.Nat
import Mathlib.Algebra.GroupWithZero.Nat

namespace Replace

universe u

variable {α : Type u}

/-! ## Joined pieces -/

section Joined

variable {pat : List α}

/-- The end of one piece, the pieces between and the beginning of a later one spell `pat`. -/
def Straddles (pat : List α) (ps : List (List α)) : Prop :=
  ∃ before x mids y after s p, ps = before ++ x :: (mids ++ y :: after) ∧ s ≠ [] ∧ p ≠ [] ∧ s <:+ x ∧ p <+: y ∧
    pat = s ++ (mids.flatten ++ p)

/-- Where a text that begins some pieces, joined, ends. -/
theorem prefix_flatten {q : List α} (hq : q ≠ []) {ps : List (List α)} (h : q <+: ps.flatten) :
    ∃ mids y after p, ps = mids ++ y :: after ∧ p ≠ [] ∧ p <+: y ∧ q = mids.flatten ++ p := by
  induction ps generalizing q with
  | nil => exact absurd (List.prefix_nil.mp h) hq
  | cons x ps ih =>
    rw [List.flatten_cons] at h
    rcases Nat.lt_or_ge x.length q.length with hlen | hlen
    · obtain ⟨q', rfl⟩ := List.prefix_of_prefix_length_le (List.prefix_append x ps.flatten) h hlen.le
      have hq' : q' ≠ [] := by
        intro hnil
        simp [hnil] at hlen
      obtain ⟨mids, y, after, p, rfl, hp, hy, rfl⟩ := ih hq' ((List.prefix_append_right_inj x).mp h)
      exact ⟨x :: mids, y, after, p, rfl, hp, hy, by simp⟩
    · exact ⟨[], x, ps, q, rfl, hq, List.prefix_of_prefix_length_le h (List.prefix_append x ps.flatten) hlen, by simp⟩

theorem infix_flatten_iff (hpat : pat ≠ []) {ps : List (List α)} (hps : ∀ x ∈ ps, ¬ pat <:+: x) :
    pat <:+: ps.flatten ↔ Straddles pat ps := by
  constructor
  · intro h
    induction ps with
    | nil => exact absurd (List.infix_nil.mp h) hpat
    | cons x ps ih =>
      rw [List.forall_mem_cons] at hps
      rw [List.flatten_cons] at h
      rcases List.infix_append_iff_ne_nil.mp h with hx | hrest | ⟨s, q, hs, hq, hcut, hsx, hqps⟩
      · exact absurd hx hps.1
      · obtain ⟨before, x', mids, y, after, s, p, hsplit, hspell⟩ := ih hps.2 hrest
        exact ⟨x :: before, x', mids, y, after, s, p, by rw [hsplit]; rfl, hspell⟩
      · obtain ⟨mids, y, after, p, rfl, hp, hy, rfl⟩ := prefix_flatten hq hqps
        exact ⟨[], x, mids, y, after, s, p, rfl, hs, hp, hsx, hy, hcut⟩
  · intro h
    obtain ⟨before, x, mids, y, after, s, p, rfl, -, -, ⟨x₀, rfl⟩, ⟨y₁, rfl⟩, rfl⟩ := h
    exact ⟨before.flatten ++ x₀, y₁ ++ after.flatten, by simp⟩

theorem prefix_append_cons_iff {c : α} (hc : c ∉ pat) (a b : List α) : pat <+: a ++ c :: b ↔ pat <+: a := by
  constructor
  · intro h
    rcases Nat.lt_or_ge a.length pat.length with hlen | hlen
    · obtain ⟨r, rfl⟩ := List.prefix_of_prefix_length_le (List.prefix_append a (c :: b)) h hlen.le
      rw [List.prefix_append_right_inj] at h
      cases r with
      | nil => simp at hlen
      | cons d r =>
        obtain ⟨rfl, -⟩ := List.cons_prefix_cons.mp h
        simp at hc
    · exact List.prefix_of_prefix_length_le h (List.prefix_append a (c :: b)) hlen
  · intro h
    exact h.trans (List.prefix_append a (c :: b))

theorem infix_append_cons_iff {c : α} (hc : c ∉ pat) (a b : List α) :
    pat <:+: a ++ c :: b ↔ pat <:+: a ∨ pat <:+: b := by
  constructor
  · intro h
    rcases List.infix_append_iff_ne_nil.mp h with ha | hb | ⟨s, q, -, hq, rfl, -, hqb⟩
    · exact .inl ha
    · rcases List.infix_cons_iff.mp hb with hpre | hb
      · exact .inl ((prefix_append_cons_iff hc [] b).mp hpre |>.isInfix.trans List.nil_infix)
      · exact .inr hb
    · obtain rfl | ⟨q', rfl, -⟩ := List.prefix_cons_iff.mp hqb
      · contradiction
      · simp at hc
  · intro h
    rcases h with ha | hb
    · exact List.infix_append_of_infix_left ha
    · exact List.infix_append_of_infix_right (List.infix_cons hb)

theorem infix_append_iff_of_lacks {s : List α} (hs : ∀ c ∈ s, c ∉ pat) (hne : s ≠ []) (a b : List α) :
    pat <:+: a ++ s ++ b ↔ pat <:+: a ∨ pat <:+: b := by
  induction s generalizing a with
  | nil => contradiction
  | cons c s ih =>
    rw [List.forall_mem_cons] at hs
    by_cases hlast : s = []
    · simp only [hlast, List.append_assoc, List.cons_append, List.nil_append]
      exact infix_append_cons_iff hs.1 a b
    · have hrest := ih hs.2 hlast []
      rw [List.nil_append] at hrest
      rw [List.append_assoc, List.cons_append, infix_append_cons_iff hs.1, hrest]
      have hnil : pat <:+: [] → pat <:+: a := fun h => h.trans List.nil_infix
      tauto

/-- What lacks a character stands on one side of it. -/
theorem split_around {c : α} {a b before after : List α} (hc : c ∉ pat) (hpat : pat ≠ [])
    (h : a ++ c :: b = before ++ pat ++ after) :
    (∃ after', a = before ++ pat ++ after') ∨ ∃ before', b = before' ++ pat ++ after := by
  rcases List.append_eq_append_iff.mp h with ⟨m, hm, hb⟩ | ⟨m, ha, -⟩
  · rcases List.append_eq_append_iff.mp hm with ⟨m', rfl, rfl⟩ | ⟨m', -, rfl⟩
    · cases m with
      | nil => exact .inl ⟨[], by simp⟩
      | cons d m =>
        obtain ⟨rfl, -⟩ := List.cons.inj hb
        simp at hc
    · cases m' with
      | nil =>
        obtain ⟨d, pat, rfl⟩ := List.exists_cons_of_ne_nil hpat
        obtain ⟨rfl, -⟩ := List.cons.inj hb
        simp at hc
      | cons d m' =>
        obtain ⟨-, rfl⟩ := List.cons.inj hb
        exact .inr ⟨m', rfl⟩
  · exact .inl ⟨m, ha⟩

/-- A text without a character of the separator is in a join exactly when it is in a part. -/
theorem infix_intercalate_iff {sep : List α} (hsep : ∀ c ∈ sep, c ∉ pat) (hne : sep ≠ []) (hpat : pat ≠ [])
    (ts : List (List α)) : pat <:+: sep.intercalate ts ↔ ∃ t ∈ ts, pat <:+: t := by
  induction ts with
  | nil => simpa using hpat
  | cons t ts ih =>
    cases ts with
    | nil => simp
    | cons t' ts =>
      rw [List.intercalate_cons_cons, infix_append_iff_of_lacks hsep hne, ih]
      simp only [List.mem_cons, exists_eq_or_imp]

end Joined

/-! ## One pass -/

section Pass

variable [DecidableEq α] (pat : List α)

/-- `t.replace(pat, "")` for a `pat` that is not empty; the first `skip` characters belong to
    an occurrence that is being removed. -/
def remove : Nat → List α → List α
  | _, [] => []
  | skip + 1, _ :: t => remove skip t
  | 0, c :: t => if pat <+: c :: t then remove (pat.length - 1) t else c :: remove 0 t

/-- `t.split(pat)`. -/
def pieces : Nat → List α → List (List α)
  | _, [] => [[]]
  | skip + 1, _ :: t => pieces skip t
  | 0, c :: t => if pat <+: c :: t then [] :: pieces (pat.length - 1) t else (pieces 0 t).modifyHead (c :: ·)

variable {pat}

theorem pieces_ne_nil (skip : Nat) (t : List α) : pieces pat skip t ≠ [] := by
  fun_induction pieces pat skip t with
  | case1 => simp
  | case2 _ _ _ ih => exact ih
  | case3 => simp
  | case4 c t _ ih => cases h : pieces pat 0 t <;> simp_all

/-- What the pass leaves is the pieces joined. -/
theorem flatten_pieces (skip : Nat) (t : List α) : (pieces pat skip t).flatten = remove pat skip t := by
  fun_induction remove pat skip t with
  | case1 => simp [pieces]
  | case2 skip c t ih => exact ih
  | case3 c t hp ih => simp [pieces, hp, ih]
  | case4 c t hp ih =>
    have hne := @pieces_ne_nil α _ pat 0 t
    rw [pieces, if_neg hp]
    cases h : pieces pat 0 t with
    | nil => contradiction
    | cons x ps =>
      rw [h] at ih
      simp only [List.modifyHead_cons, List.flatten_cons, List.cons_append] at ih ⊢
      rw [ih]

/-- The first piece is what stands before the first occurrence. -/
theorem head_pieces (t : List α) : ∃ x ps, pieces pat 0 t = x :: ps ∧ x <+: t := by
  induction t with
  | nil => exact ⟨[], [], rfl, List.nil_prefix⟩
  | cons c t ih =>
    obtain ⟨x, ps, h, hx⟩ := ih
    by_cases hp : pat <+: c :: t
    · exact ⟨[], _, by rw [pieces, if_pos hp], List.nil_prefix⟩
    · refine ⟨c :: x, ps, by rw [pieces, if_neg hp, h]; rfl, ?_⟩
      rwa [List.prefix_cons_inj]

theorem not_infix_of_mem_pieces (hpat : pat ≠ []) (skip : Nat) (t : List α) :
    ∀ x ∈ pieces pat skip t, ¬ pat <:+: x := by
  have hnil : ¬ pat <:+: [] := fun h => hpat (List.infix_nil.mp h)
  fun_induction pieces pat skip t with
  | case1 => simpa using hnil
  | case2 _ _ _ ih => exact ih
  | case3 c t _ ih =>
    intro x hx
    rcases List.mem_cons.mp hx with rfl | hx
    · exact hnil
    · exact ih x hx
  | case4 c t hp ih =>
    obtain ⟨y, ps, h, hy⟩ := @head_pieces α _ pat t
    rw [h] at ih ⊢
    intro x hx
    rcases List.mem_cons.mp hx with rfl | hx
    · intro hin
      rcases List.infix_cons_iff.mp hin with hpre | hin
      · exact hp (hpre.trans ((List.prefix_cons_inj c).mpr hy))
      · exact ih y List.mem_cons_self hin
    · exact ih x (List.mem_cons_of_mem _ hx)

/-- The pattern is still there after a pass exactly when the pass brings it together. -/
theorem infix_remove_iff (hpat : pat ≠ []) (t : List α) :
    pat <:+: remove pat 0 t ↔ Straddles pat (pieces pat 0 t) := by
  rw [← flatten_pieces]
  exact infix_flatten_iff hpat (not_infix_of_mem_pieces hpat 0 t)

/-! ### A character that the pattern lacks -/

theorem remove_append_cons (hpat : pat ≠ []) {c : α} (hc : c ∉ pat) {skip : Nat} {a : List α} (hskip : skip ≤ a.length)
    (b : List α) : remove pat skip (a ++ c :: b) = remove pat skip a ++ c :: remove pat 0 b := by
  fun_induction remove pat skip a with
  | case1 skip =>
    obtain rfl := Nat.le_zero.mp hskip
    have hno : ¬ pat <+: c :: b := by
      intro h
      exact hpat (List.prefix_nil.mp ((prefix_append_cons_iff hc [] b).mp h))
    simp [remove, hno]
  | case2 skip d a ih =>
    rw [List.cons_append, remove]
    exact ih (by simpa using hskip)
  | case3 d a hp ih =>
    have hp' := (prefix_append_cons_iff hc (d :: a) b).mpr hp
    rw [List.cons_append] at hp' ⊢
    rw [remove, if_pos hp']
    apply ih
    have hlen := hp.length_le
    simp only [List.length_cons] at hlen
    omega
  | case4 d a hp ih =>
    have hp' : ¬ pat <+: d :: (a ++ c :: b) := fun h => hp ((prefix_append_cons_iff hc (d :: a) b).mp h)
    rw [List.cons_append, remove, if_neg hp', ih (Nat.zero_le _)]
    rfl

theorem remove_eq_self {t : List α} (h : ¬ pat <:+: t) : remove pat 0 t = t := by
  induction t with
  | nil => rfl
  | cons c t ih =>
    rw [List.infix_cons_iff, not_or] at h
    rw [remove, if_neg h.1, ih h.2]

theorem remove_skip (skip : Nat) (t : List α) : remove pat skip t = remove pat 0 (t.drop skip) := by
  induction t generalizing skip with
  | nil => cases skip <;> rfl
  | cons c t ih =>
    cases skip with
    | zero => rfl
    | succ skip => exact ih skip

theorem remove_append_left (hpat : pat ≠ []) (t : List α) : remove pat 0 (pat ++ t) = remove pat 0 t := by
  cases pat with
  | nil => contradiction
  | cons c rest =>
    have hpre : c :: rest <+: c :: (rest ++ t) := List.prefix_append (c :: rest) t
    rw [List.cons_append, remove, if_pos hpre, remove_skip]
    simp

theorem countP_remove_le (p : α → Bool) (skip : Nat) (t : List α) : (remove pat skip t).countP p ≤ t.countP p := by
  fun_induction remove pat skip t with
  | case1 => simp
  | case2 _ c t ih => rw [List.countP_cons]; omega
  | case3 c t _ ih => rw [List.countP_cons]; omega
  | case4 c t _ ih => rw [List.countP_cons, List.countP_cons]; omega

/-- An occurrence that the pass removes takes the characters of the pattern with it. -/
theorem countP_remove_lt {p : α → Bool} (hp : 0 < pat.countP p) {t : List α} (h : pat <:+: t) :
    (remove pat 0 t).countP p < t.countP p := by
  have hpat : pat ≠ [] := by
    intro hnil
    simp [hnil] at hp
  induction t with
  | nil => exact absurd (List.infix_nil.mp h) hpat
  | cons c t ih =>
    by_cases hpre : pat <+: c :: t
    · obtain ⟨rest, hrest⟩ := hpre
      have hle := @countP_remove_le α _ pat p 0 rest
      rw [← hrest, remove_append_left hpat, List.countP_append]
      omega
    · have hlt := ih ((List.infix_cons_iff.mp h).resolve_left hpre)
      rw [remove, if_neg hpre, List.countP_cons, List.countP_cons]
      omega

end Pass

/-! ## Runs -/

section Runs

variable (p : α → Bool) (n : Nat) (sub : List α)

def flush (run : List α) : List α := if n ≤ run.length then sub else run

/-- `re.sub(r"[…]{n,}", sub, t)`; `run` is the run being read, reversed. -/
def collapseRuns (run : List α) : List α → List α
  | [] => flush n sub run.reverse
  | c :: t => if p c then collapseRuns (c :: run) t else flush n sub run.reverse ++ c :: collapseRuns [] t

variable {p n sub}

theorem collapseRuns_append_cons {c : α} (hc : p c = false) (run a b : List α) :
    collapseRuns p n sub run (a ++ c :: b) = collapseRuns p n sub run a ++ c :: collapseRuns p n sub [] b := by
  fun_induction collapseRuns p n sub run a with
  | case1 run => rw [List.nil_append, collapseRuns, hc]; rfl
  | case2 run d a hd ih => rw [List.cons_append, collapseRuns, if_pos hd, ih]
  | case3 run d a hd ih => rw [List.cons_append, collapseRuns, if_neg hd, ih, List.append_assoc]; rfl

theorem collapseRuns_run {g : List α} (hg : ∀ c ∈ g, p c = true) (run : List α) :
    collapseRuns p n sub run g = flush n sub (run.reverse ++ g) := by
  induction g generalizing run with
  | nil => rw [collapseRuns, List.append_nil]
  | cons c g ih =>
    rw [List.forall_mem_cons] at hg
    rw [collapseRuns, if_pos hg.1, ih hg.2]
    simp

theorem collapseRuns_short {g : List α} (hg : ∀ c ∈ g, p c = true) (hn : g.length < n) :
    collapseRuns p n sub [] g = g := by
  rw [collapseRuns_run hg, flush, if_neg (by simpa using hn)]
  rfl

theorem collapseRuns_append_of_lacks {s : List α} (hs : ∀ c ∈ s, p c = false) (hne : s ≠ []) (hn : 0 < n)
    (a b : List α) :
    collapseRuns p n sub [] (a ++ s ++ b) = collapseRuns p n sub [] a ++ s ++ collapseRuns p n sub [] b := by
  have hnil : collapseRuns p n sub [] [] = [] := collapseRuns_short (by simp) hn
  induction s generalizing a with
  | nil => contradiction
  | cons c s ih =>
    rw [List.forall_mem_cons] at hs
    rw [List.append_assoc, List.cons_append, collapseRuns_append_cons hs.1]
    by_cases hlast : s = []
    · simp [hlast]
    · have hrest := ih hs.2 hlast []
      rw [hnil, List.nil_append] at hrest
      rw [hrest]
      simp

theorem collapseRuns_eq_self {t : List α} (ht : ∀ c ∈ t, p c = false) (hn : 0 < n) :
    collapseRuns p n sub [] t = t := by
  have hnil : collapseRuns p n sub [] [] = [] := collapseRuns_short (by simp) hn
  by_cases hne : t = []
  · rw [hne, hnil]
  · have hall : collapseRuns p n sub [] ([] ++ t ++ []) = _ := collapseRuns_append_of_lacks ht hne hn [] []
    simpa [hnil] using hall

/-- A short run between two characters of no run stays. -/
theorem collapseRuns_gap {x y : α} (hx : p x = false) (hy : p y = false) {g : List α} (hg : ∀ c ∈ g, p c = true)
    (hn : g.length < n) (a b : List α) :
    collapseRuns p n sub [] (a ++ x :: (g ++ y :: b)) =
      collapseRuns p n sub [] (a ++ [x]) ++ g ++ collapseRuns p n sub [] (y :: b) := by
  have hnil : collapseRuns p n sub [] [] = [] := collapseRuns_short (by simp) (Nat.zero_lt_of_lt hn)
  have hy' : collapseRuns p n sub [] ([] ++ y :: b) = _ := collapseRuns_append_cons hy [] [] b
  rw [List.nil_append, hnil, List.nil_append] at hy'
  rw [collapseRuns_append_cons hx, collapseRuns_append_cons hy, collapseRuns_short hg hn, collapseRuns_append_cons hx,
    hnil, hy']
  simp

end Runs

/-! ## Texts in order -/

/-- The texts stand in `t` whole, one after the other. -/
def InOrder : List (List α) → List α → Prop
  | [], _ => True
  | x :: xs, t => ∃ before after, t = before ++ x ++ after ∧ InOrder xs after

theorem InOrder.append_left {xs : List (List α)} {t : List α} (h : InOrder xs t) (a : List α) : InOrder xs (a ++ t) := by
  cases xs with
  | nil => trivial
  | cons x xs =>
    obtain ⟨before, after, rfl, hrest⟩ := h
    exact ⟨a ++ before, after, by simp, hrest⟩

theorem InOrder.intercalate_cons {sep : List α} {xs parts : List (List α)} (h : InOrder xs (sep.intercalate parts))
    (part : List α) : InOrder xs (sep.intercalate (part :: parts)) := by
  cases parts with
  | nil => simpa using h.append_left part
  | cons part' parts =>
    rw [List.intercalate_cons_cons]
    exact h.append_left (part ++ sep)

/-- What stands in some parts of a join, one in each, stands in order in the join. -/
theorem inOrder_intercalate (sep : List α) {xs some all : List (List α)} (h : List.Forall₂ (· <:+: ·) xs some)
    (hsome : some.Sublist all) : InOrder xs (sep.intercalate all) := by
  induction hsome generalizing xs with
  | slnil =>
    cases h
    trivial
  | cons part _ ih => exact (ih h).intercalate_cons part
  | @cons_cons some all part hsome ih =>
    cases h with
    | @cons x _ xs _ hx hxs =>
      obtain ⟨before, after, rfl⟩ := hx
      have hrest := ih hxs
      cases all with
      | nil => exact ⟨before, after, by simp, by simpa using hrest.append_left after⟩
      | cons part' all =>
        refine ⟨before, after ++ sep ++ sep.intercalate (part' :: all), ?_, hrest.append_left (after ++ sep)⟩
        rw [List.intercalate_cons_cons]
        simp

theorem length_intercalate (sep : List α) (xs : List (List α)) :
    (sep.intercalate xs).length = (xs.map List.length).sum + sep.length * (xs.length - 1) := by
  induction xs with
  | nil => rfl
  | cons x xs ih =>
    cases xs with
    | nil => simp
    | cons x' xs =>
      rw [List.intercalate_cons_cons, List.length_append, List.length_append, ih]
      simp only [List.map_cons, List.sum_cons, List.length_cons, Nat.add_sub_cancel, Nat.mul_add, Nat.mul_one]
      omega

theorem intercalate_concat (sep : List α) {xs : List (List α)} (hxs : xs ≠ []) (y : List α) :
    sep.intercalate (xs ++ [y]) = sep.intercalate xs ++ sep ++ y := by
  induction xs with
  | nil => contradiction
  | cons x xs ih =>
    cases xs with
    | nil => simp
    | cons x' xs =>
      rw [List.cons_append, List.cons_append, List.intercalate_cons_cons, List.intercalate_cons_cons,
        ← List.cons_append, ih (by simp)]
      simp

/-- What stands in order needs its room. -/
theorem InOrder.sum_countP_le (p : α → Bool) {xs : List (List α)} {t : List α} (h : InOrder xs t) :
    (xs.map (List.countP p)).sum ≤ t.countP p := by
  induction xs generalizing t with
  | nil => exact Nat.zero_le _
  | cons x xs ih =>
    obtain ⟨before, after, rfl, hrest⟩ := h
    have hle := ih hrest
    simp only [List.map_cons, List.sum_cons, List.countP_append]
    omega

/-- A join has the characters of its parts, when the separator has none. -/
theorem countP_intercalate {p : α → Bool} {sep : List α} (hsep : sep.countP p = 0) (xs : List (List α)) :
    (sep.intercalate xs).countP p = (xs.map (List.countP p)).sum := by
  induction xs with
  | nil => rfl
  | cons x xs ih =>
    cases xs with
    | nil => simp
    | cons x' xs =>
      rw [List.intercalate_cons_cons, List.countP_append, List.countP_append, ih, hsep, Nat.add_zero]
      rfl

end Replace
