/-
  CoreHeartbeat.Lib.RoundRobin — lists merged in turn: the first element of each, the second of
  each that has one, and so on.

  `merge` is round after round, as many as the longest list has elements, and a round takes its
  element of every list that reaches so far, in the order of the lists. For counting, the
  elements of each list go under its number (`tagged`), and `share` is how many elements of a
  list there are in a part of the merge.

  A merge is there to be cut: by a limit, or by a budget that the elements spend at different
  rates. What is fair about it has to hold of every prefix.

  Proved:
  - `merge_perm` / `sublist_merge`: the merge has the elements of the lists, each list in its
    own order.
  - `merge_map`: mapping the elements and merging can be exchanged.
  - `prefix_rounds`, `prefix_share`: a prefix ends within one of the rounds, and has as many
    elements of a list as it has rounds, or one more, or all of them.
  - `prefix_fair`: of two lists the one with less in the prefix is one behind, or has no more.
-/

import Mathlib.Data.List.Perm.Basic
import Mathlib.Data.List.Flatten

namespace RoundRobin

universe u v

variable {α : Type u} {β : Type v}

def round (lists : List (List α)) (i : Nat) : List α := lists.filterMap (·[i]?)

def rounds (lists : List (List α)) (n : Nat) : List α := (List.range n).flatMap (round lists)

def longest (lists : List (List α)) : Nat := (lists.map List.length).foldl max 0

def merge (lists : List (List α)) : List α := rounds lists (longest lists)

theorem rounds_succ (lists : List (List α)) (n : Nat) : rounds lists (n + 1) = rounds lists n ++ round lists n := by
  simp [rounds, List.range_succ]

theorem le_foldl_max (ns : List Nat) (m : Nat) : m ≤ ns.foldl max m ∧ ∀ n ∈ ns, n ≤ ns.foldl max m := by
  induction ns generalizing m with
  | nil => exact ⟨Nat.le_refl m, nofun⟩
  | cons n ns ih =>
    obtain ⟨hm, hns⟩ := ih (max m n)
    refine ⟨Nat.le_trans (Nat.le_max_left m n) hm, fun k hk => ?_⟩
    rcases List.mem_cons.mp hk with rfl | hk
    · exact Nat.le_trans (Nat.le_max_right m k) hm
    · exact hns k hk

theorem length_le_longest {lists : List (List α)} {l : List α} (h : l ∈ lists) : l.length ≤ longest lists :=
  (le_foldl_max _ 0).2 l.length (List.mem_map_of_mem h)

/-! ## What the merge has -/

theorem take_succ_perm (lists : List (List α)) (n : Nat) :
    ((lists.map (List.take n)).flatten ++ round lists n).Perm (lists.map (List.take (n + 1))).flatten := by
  induction lists with
  | nil => exact List.Perm.refl _
  | cons l lists ih =>
    have hround : round (l :: lists) n = l[n]?.toList ++ round lists n := by
      unfold round
      cases h : l[n]? <;> simp [h]
    simp only [List.map_cons, List.flatten_cons, hround, List.take_add_one, List.append_assoc]
    refine List.Perm.append_left _ (List.Perm.trans ?_ (List.Perm.append_left _ ih))
    simp only [← List.append_assoc]
    exact List.Perm.append_right _ List.perm_append_comm

/-- After `n` rounds the first `n` of each list are out. -/
theorem rounds_perm (lists : List (List α)) (n : Nat) :
    (rounds lists n).Perm (lists.map (List.take n)).flatten := by
  induction n with
  | zero => simp [rounds]
  | succ n ih =>
    rw [rounds_succ]
    exact (ih.append_right _).trans (take_succ_perm lists n)

theorem merge_perm (lists : List (List α)) : (merge lists).Perm lists.flatten := by
  have hall : lists.map (List.take (longest lists)) = lists := by
    refine (List.map_congr_left fun l hl => ?_).trans (List.map_id lists)
    exact List.take_of_length_le (length_le_longest hl)
  have hperm := rounds_perm lists (longest lists)
  rwa [hall] at hperm

theorem take_sublist_rounds {lists : List (List α)} {l : List α} (h : l ∈ lists) (n : Nat) :
    (l.take n).Sublist (rounds lists n) := by
  induction n with
  | zero => simp [rounds]
  | succ n ih =>
    rw [rounds_succ, List.take_add_one]
    refine ih.append ?_
    cases hn : l[n]? with
    | none => exact List.nil_sublist _
    | some x => exact List.singleton_sublist.mpr (List.mem_filterMap.mpr ⟨l, h, hn⟩)

theorem sublist_merge {lists : List (List α)} {l : List α} (h : l ∈ lists) : l.Sublist (merge lists) := by
  have hsub := take_sublist_rounds h (longest lists)
  rwa [List.take_of_length_le (length_le_longest h)] at hsub

theorem merge_map (f : α → β) (lists : List (List α)) : merge (lists.map (List.map f)) = (merge lists).map f := by
  have hlongest : longest (lists.map (List.map f)) = longest lists := by
    simp [longest, Function.comp_def]
  unfold merge
  rw [hlongest]
  unfold rounds
  rw [List.map_flatMap]
  refine congrArg (List.flatMap · _) (funext fun i => ?_)
  simp [round, List.filterMap_map, List.map_filterMap]

/-! ## Shares of a prefix -/

def tagged (lists : List (List α)) : List (List (Nat × α)) := lists.zipIdx.map fun l => l.1.map fun x => (l.2, x)

theorem tagged_untag (lists : List (List α)) : (tagged lists).map (List.map Prod.snd) = lists := by
  unfold tagged
  rw [List.map_map]
  refine (List.map_congr_left fun l _ => ?_).trans (List.zipIdx_map_fst 0 lists)
  simp [Function.comp_def]

def share (i : Nat) (l : List (Nat × α)) : Nat := l.countP (·.1 = i)

theorem share_take (lists : List (List α)) (k i n : Nat) :
    share i (((lists.zipIdx k).map fun l => (l.1.map fun x => (l.2, x)).take n).flatten) =
      if i < k then 0 else min n ((lists[i - k]?).getD []).length := by
  induction lists generalizing k with
  | nil => simp [share]
  | cons l lists ih =>
    have hrest := ih (k + 1)
    unfold share at hrest ⊢
    rw [List.zipIdx_cons, List.map_cons, List.flatten_cons, List.countP_append, hrest, ← List.map_take, List.countP_map]
    rcases Nat.lt_trichotomy i k with hlt | rfl | hgt
    · have hno : (l.take n).countP ((fun x : Nat × α => decide (x.1 = i)) ∘ fun x => (k, x)) = 0 :=
        List.countP_eq_zero.mpr fun x _ => by simpa using Nat.ne_of_gt hlt
      rw [hno, if_pos (by omega), if_pos hlt]
    · have hall : (l.take n).countP ((fun x : Nat × α => decide (x.1 = i)) ∘ fun x => (i, x)) = (l.take n).length :=
        List.countP_eq_length.mpr fun x _ => by simp
      rw [hall, if_pos (Nat.lt_succ_self i), if_neg (Nat.lt_irrefl i)]
      simp
    · have hno : (l.take n).countP ((fun x : Nat × α => decide (x.1 = i)) ∘ fun x => (k, x)) = 0 :=
        List.countP_eq_zero.mpr fun x _ => by simpa using Nat.ne_of_lt hgt
      rw [hno, if_neg (by omega), if_neg (by omega), Nat.zero_add, show i - k = (i - (k + 1)) + 1 by omega,
        List.getElem?_cons_succ]

theorem share_rounds {lists : List (List α)} {i : Nat} {l : List α} (h : lists[i]? = some l) (n : Nat) :
    share i (rounds (tagged lists) n) = min n l.length := by
  have hcount := share_take lists 0 i n
  unfold share at hcount ⊢
  rw [(rounds_perm (tagged lists) n).countP_eq]
  unfold tagged
  rw [List.map_map]
  refine hcount.trans ?_
  simp [h]

/-- A prefix of the rounds ends within one of them. -/
theorem prefix_rounds {lists : List (List α)} {l : List α} {n : Nat} (h : l <+: rounds lists n) :
    ∃ m, rounds lists m <+: l ∧ l <+: rounds lists (m + 1) := by
  induction n with
  | zero =>
    have hnil : l = [] := List.prefix_nil.mp (by simpa [rounds] using h)
    exact ⟨0, by simp [rounds], by rw [hnil]; exact List.nil_prefix⟩
  | succ n ih =>
    by_cases hlen : l.length ≤ (rounds lists n).length
    · refine ih (List.prefix_of_prefix_length_le h ?_ hlen)
      rw [rounds_succ]
      exact List.prefix_append _ _
    · refine ⟨n, List.prefix_of_prefix_length_le ?_ h (Nat.le_of_not_le hlen), h⟩
      rw [rounds_succ]
      exact List.prefix_append _ _

/-- A prefix of the merge has had `m` elements of each list, or one more. -/
theorem prefix_share {lists : List (List α)} {shown : List (Nat × α)} (h : shown <+: merge (tagged lists)) :
    ∃ m, ∀ i l, lists[i]? = some l → min m l.length ≤ share i shown ∧ share i shown ≤ min (m + 1) l.length := by
  obtain ⟨m, hlo, hhi⟩ := prefix_rounds h
  refine ⟨m, fun i l hl => ?_⟩
  rw [← share_rounds hl m, ← share_rounds hl (m + 1)]
  exact ⟨hlo.sublist.countP_le, hhi.sublist.countP_le⟩

/-- Of two lists the one with less in the prefix is one behind, or has no more. -/
theorem prefix_fair {lists : List (List α)} {shown : List (Nat × α)} (h : shown <+: merge (tagged lists)) {i j : Nat}
    {l m : List α} (hi : lists[i]? = some l) (hj : lists[j]? = some m) :
    share j shown ≤ share i shown + 1 ∨ share i shown = l.length := by
  obtain ⟨k, hshare⟩ := prefix_share h
  have := hshare i l hi
  have := hshare j m hj
  omega

end RoundRobin
