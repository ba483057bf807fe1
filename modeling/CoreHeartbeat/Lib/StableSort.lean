/-
  CoreHeartbeat.Lib.StableSort — a stable sort, and what stands among its first elements.

  Equal elements keep the order they were given in, so what is sorted is the elements with their
  positions, under an order in which no two are equal (`Before`). The sort itself is the
  library's insertion sort; `map_insertionSort` says that it is the sort of the elements with
  their positions, forgotten afterwards.

  The first `n` of a sorted list are those with fewer than `n` before them, in the order of the
  sort, and this can be said without sorting: `rank` counts. So a property of what is shown of a
  sorted list becomes a property of the list as it was given.

  Proved:
  - `before_sorted`: no two positions are equal, so the sort is strict.
  - `forall_take_iff`: what holds of the first `n`.
  - `ordered_take_iff`: a relation holds along the first `n`, and from each of them to all that
    are left out, exactly when it holds from every element with fewer than `n` before it to
    those after it.
-/

import Mathlib.Data.List.Sort
import Mathlib.Data.List.Nodup

namespace StableSort

universe u

variable {α : Type u} (le : α → α → Prop)

/-- `a` is sorted before `b`, each with its position. -/
def Before (a b : α × Nat) : Prop := le a.1 b.1 ∧ (le b.1 a.1 → a.2 < b.2)

theorem before_irrefl (a : α × Nat) : ¬ Before le a a := fun h => Nat.lt_irrefl _ (h.2 h.1)

theorem before_asymm {a b : α × Nat} (h : Before le a b) : ¬ Before le b a := fun h' =>
  Nat.lt_asymm (h.2 h'.1) (h'.2 h.1)

variable [DecidableRel le]

instance : DecidableRel (Before le) := fun a b =>
  inferInstanceAs (Decidable (le a.1 b.1 ∧ (le b.1 a.1 → a.2 < b.2)))

def NotAfter (a b : α × Nat) : Prop := le a.1 b.1 ∧ (le b.1 a.1 → a.2 ≤ b.2)

instance : DecidableRel (NotAfter le) := fun a b =>
  inferInstanceAs (Decidable (le a.1 b.1 ∧ (le b.1 a.1 → a.2 ≤ b.2)))

/-! ## Positions -/

/-- An element whose position is before all the others' is inserted as without positions. -/
theorem map_orderedInsert (a : α × Nat) {l : List (α × Nat)} (h : ∀ b ∈ l, a.2 ≤ b.2) :
    (l.orderedInsert (NotAfter le) a).map Prod.fst = (l.map Prod.fst).orderedInsert le a.1 := by
  induction l with
  | nil => rfl
  | cons b l ih =>
    rw [List.forall_mem_cons] at h
    have hsame : NotAfter le a b ↔ le a.1 b.1 := and_iff_left fun _ => h.1
    rw [List.orderedInsert_cons, List.map_cons, List.orderedInsert_cons]
    by_cases hle : le a.1 b.1
    · rw [if_pos hle, if_pos (hsame.mpr hle)]
      rfl
    · rw [if_neg hle, if_neg (hsame.not.mpr hle), List.map_cons, ih h.2]

/-- The sort is the sort of the elements with their positions. -/
theorem map_insertionSort (l : List α) (k : Nat) :
    ((l.zipIdx k).insertionSort (NotAfter le)).map Prod.fst = l.insertionSort le := by
  induction l generalizing k with
  | nil => rfl
  | cons a l ih =>
    have hlater : ∀ b ∈ (l.zipIdx (k + 1)).insertionSort (NotAfter le), (a, k).2 ≤ b.2 := by
      intro b hb
      have := List.le_snd_of_mem_zipIdx ((List.mem_insertionSort _).mp hb)
      show k ≤ b.2
      omega
    rw [List.zipIdx_cons, List.insertionSort_cons, List.insertionSort_cons, map_orderedInsert le _ hlater, ih]

section
variable {le} (htotal : ∀ a b, le a b ∨ le b a) (htrans : ∀ a b c, le a b → le b c → le a c)
include htotal htrans

/-- No two positions are equal, so the sort is strict. -/
theorem before_sorted (l : List α) : (l.zipIdx.insertionSort (NotAfter le)).Pairwise (Before le) := by
  have total : Std.Total (NotAfter le) := ⟨fun a b => by
    unfold NotAfter
    by_cases hab : le a.1 b.1 <;> by_cases hba : le b.1 a.1
    · simp only [hab, hba, true_and, forall_const]
      exact Nat.le_total _ _
    · exact Or.inl ⟨hab, fun h => absurd h hba⟩
    · exact Or.inr ⟨hba, fun h => absurd h hab⟩
    · exact absurd (htotal a.1 b.1) (by simp [hab, hba])⟩
  have trans : IsTrans (α × Nat) (NotAfter le) := ⟨fun a b c hab hbc => by
    refine ⟨htrans _ _ _ hab.1 hbc.1, fun hca => ?_⟩
    exact Nat.le_trans (hab.2 (htrans _ _ _ hbc.1 hca)) (hbc.2 (htrans _ _ _ hca hab.1))⟩
  have hsorted := List.pairwise_insertionSort (NotAfter le) l.zipIdx
  have hdistinct : ((l.zipIdx.insertionSort (NotAfter le)).map Prod.snd).Nodup := by
    refine ((List.perm_insertionSort _ _).map Prod.snd).nodup_iff.mpr ?_
    rw [List.zipIdx_map_snd]
    exact List.nodup_range'
  have hboth := hsorted.and (List.pairwise_map.mp hdistinct)
  exact hboth.imp fun h => ⟨h.1.1, fun hle => Nat.lt_of_le_of_ne (h.1.2 hle) h.2⟩

end

/-! ## The first elements -/

section
variable {lt : α × Nat → α × Nat → Prop} [DecidableRel lt] {l : List (α × Nat)}

/-- In a strictly sorted list the head is before the rest alone. -/
theorem countP_cons {a x : α × Nat} (hsorted : (a :: l).Pairwise lt) (hx : x ∈ l) :
    (a :: l).countP (fun y => lt y x) = l.countP (fun y => lt y x) + 1 := by
  rw [List.countP_cons_of_pos]
  exact decide_eq_true ((List.pairwise_cons.mp hsorted).1 x hx)

theorem countP_head {a : α × Nat} (hirrefl : ∀ a, ¬ lt a a) (hasymm : ∀ a b, lt a b → ¬ lt b a)
    (hsorted : (a :: l).Pairwise lt) : (a :: l).countP (fun y => lt y a) = 0 := by
  rw [List.countP_eq_zero]
  intro y hy
  rw [decide_eq_true_eq]
  rcases List.mem_cons.mp hy with rfl | hy
  · exact hirrefl y
  · exact hasymm _ _ ((List.pairwise_cons.mp hsorted).1 y hy)

variable (hirrefl : ∀ a, ¬ lt a a) (hasymm : ∀ a b, lt a b → ¬ lt b a)
include hirrefl hasymm

theorem forall_take_iff_of_sorted (hsorted : l.Pairwise lt) (P : α → Prop) (n : Nat) :
    (∀ x ∈ l.take n, P x.1) ↔ ∀ x ∈ l, l.countP (fun y => lt y x) < n → P x.1 := by
  induction l generalizing n with
  | nil => simp
  | cons a l ih =>
    have hhead := countP_head hirrefl hasymm hsorted
    cases n with
    | zero => simp
    | succ n =>
      rw [List.take_succ_cons, List.forall_mem_cons, List.forall_mem_cons, ih (List.pairwise_cons.mp hsorted).2, hhead]
      refine and_congr ⟨fun h _ => h, fun h => h (Nat.succ_pos n)⟩ (forall₂_congr fun x hx => ?_)
      rw [countP_cons hsorted hx, Nat.succ_lt_succ_iff]

theorem ordered_take_iff_of_sorted (hsorted : l.Pairwise lt) (R : α → α → Prop) (n : Nat) :
    ((l.take n).Pairwise (fun x y => R x.1 y.1) ∧ ∀ x ∈ l.take n, ∀ y ∈ l.drop n, R x.1 y.1) ↔
      ∀ x ∈ l, ∀ y ∈ l, lt x y → l.countP (fun z => lt z x) < n → R x.1 y.1 := by
  induction l generalizing n with
  | nil => simp
  | cons a l ih =>
    have hhead := countP_head hirrefl hasymm hsorted
    obtain ⟨hfirst, hrest⟩ := List.pairwise_cons.mp hsorted
    cases n with
    | zero => simp
    | succ n =>
      have hsplit : (∀ y ∈ l, R a.1 y.1) ↔ (∀ y ∈ l.take n, R a.1 y.1) ∧ ∀ y ∈ l.drop n, R a.1 y.1 := by
        conv_lhs => rw [← List.take_append_drop n l]
        rw [List.forall_mem_append]
      rw [List.take_succ_cons, List.drop_succ_cons, List.pairwise_cons, List.forall_mem_cons]
      constructor
      · rintro ⟨⟨hnear, hpair⟩, hfar, hcross⟩
        have hall := hsplit.mpr ⟨hnear, hfar⟩
        have htail := (ih hrest n).mp ⟨hpair, hcross⟩
        intro x hx y hy hxy hcount
        rcases List.mem_cons.mp hx with rfl | hxl
        · rcases List.mem_cons.mp hy with rfl | hyl
          · exact absurd hxy (hirrefl _)
          · exact hall y hyl
        · rw [countP_cons hsorted hxl, Nat.succ_lt_succ_iff] at hcount
          rcases List.mem_cons.mp hy with rfl | hyl
          · exact absurd hxy (hasymm _ _ (hfirst x hxl))
          · exact htail x hxl y hyl hxy hcount
      · intro h
        have hall : ∀ y ∈ l, R a.1 y.1 := fun y hy =>
          h a List.mem_cons_self y (List.mem_cons_of_mem _ hy) (hfirst y hy) (by rw [hhead]; exact Nat.succ_pos n)
        have htail := (ih hrest n).mpr fun x hx y hy hxy hcount =>
          h x (List.mem_cons_of_mem _ hx) y (List.mem_cons_of_mem _ hy) hxy
            (by rw [countP_cons hsorted hx]; exact Nat.succ_lt_succ hcount)
        obtain ⟨hnear, hfar⟩ := hsplit.mp hall
        exact ⟨⟨hnear, htail.1⟩, hfar, htail.2⟩

end

def rank (l : List α) (x : α × Nat) : Nat := l.zipIdx.countP fun y => Before le y x

section
variable {le} (htotal : ∀ a b, le a b ∨ le b a) (htrans : ∀ a b c, le a b → le b c → le a c)
include htotal htrans

theorem forall_take_iff (l : List α) (n : Nat) (P : α → Prop) :
    (∀ x ∈ (l.insertionSort le).take n, P x) ↔ ∀ x ∈ l.zipIdx, rank le l x < n → P x.1 := by
  have hperm := List.perm_insertionSort (NotAfter le) l.zipIdx
  have hsorted := forall_take_iff_of_sorted (before_irrefl le) (fun _ _ => before_asymm le)
    (before_sorted htotal htrans l) P n
  rw [← map_insertionSort le l 0, ← List.map_take, List.forall_mem_map, hsorted]
  simp only [hperm.mem_iff, hperm.countP_eq, rank]

theorem ordered_take_iff (l : List α) (n : Nat) (R : α → α → Prop) :
    (((l.insertionSort le).take n).Pairwise R ∧
        ∀ x ∈ (l.insertionSort le).take n, ∀ y ∈ (l.insertionSort le).drop n, R x y) ↔
      ∀ x ∈ l.zipIdx, ∀ y ∈ l.zipIdx, Before le x y → rank le l x < n → R x.1 y.1 := by
  have hperm := List.perm_insertionSort (NotAfter le) l.zipIdx
  have hsorted := ordered_take_iff_of_sorted (before_irrefl le) (fun _ _ => before_asymm le)
    (before_sorted htotal htrans l) R n
  rw [← map_insertionSort le l 0, ← List.map_take, ← List.map_drop, List.pairwise_map]
  simp only [List.forall_mem_map]
  rw [hsorted]
  simp only [hperm.mem_iff, hperm.countP_eq, rank]

end

end StableSort
