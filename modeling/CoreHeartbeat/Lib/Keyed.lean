/-
  CoreHeartbeat.Lib.Keyed — a keyed upsert store as a list: one value a key, the newest last,
  and its rendering as lines that a text file holds.

  `upsert` drops what stands under the key of a value and puts the value at the end; `upserts`
  does it for a list of values. The store is abstract: a key is any function of the value.
  Beside it stands a file that is edited line by line: the lines that match a new value are
  dropped, and its own line is appended. Whether such a file stays the rendering of the store is
  a question about the match, which may hit too much or too little.

  Proved:
  - `mem_upserts_iff` / `keys_nodup`: after any values, the store has exactly the last one of
    each key.
  - `replace_perm_iff`: a file that replaces by matching its lines stays the rendering of the
    store exactly when the match hits no line of another key.
-/

import Mathlib.Data.List.Perm.Basic
import Mathlib.Data.List.Nodup
import Mathlib.Data.List.Induction

namespace Keyed

universe u v w

variable {α : Type u} {κ : Type v} {β : Type w} [DecidableEq κ] (key : α → κ)

def upsert (l : List α) (a : α) : List α := l.filter (fun b => key b ≠ key a) ++ [a]

def upserts (as : List α) : List α := as.foldl (upsert key) []

theorem upserts_snoc (as : List α) (a : α) : upserts key (as ++ [a]) = upsert key (upserts key as) a := by
  simp [upserts, List.foldl_append]

theorem mem_upsert {l : List α} {a b : α} : b ∈ upsert key l a ↔ (b ∈ l ∧ key b ≠ key a) ∨ b = a := by
  simp [upsert]

/-- The store holds the last value of each key. -/
theorem mem_upserts_iff {as : List α} {a : α} :
    a ∈ upserts key as ↔ ∃ l m, as = l ++ a :: m ∧ ∀ b ∈ m, key b ≠ key a := by
  induction as using List.reverseRecOn with
  | nil => simp [upserts]
  | append_singleton as c ih =>
    rw [upserts_snoc, mem_upsert, ih]
    constructor
    · rintro (⟨⟨l, m, rfl, hm⟩, hc⟩ | rfl)
      · refine ⟨l, m ++ [c], by simp, fun b hb => ?_⟩
        rcases List.mem_append.mp hb with hb | hb
        · exact hm b hb
        · rw [List.mem_singleton.mp hb]
          exact Ne.symm hc
      · exact ⟨as, [], rfl, by simp⟩
    · rintro ⟨l, m, hsplit, hm⟩
      rcases List.eq_nil_or_concat m with rfl | ⟨m, d, rfl⟩
      · exact Or.inr (List.append_inj_right' hsplit rfl |> List.singleton_inj.mp).symm
      · rw [List.concat_eq_append] at hsplit hm
        have hparts : as ++ [c] = (l ++ a :: m) ++ [d] := by simpa using hsplit
        obtain ⟨rfl, hcd⟩ := List.append_inj' hparts rfl
        obtain rfl := List.singleton_inj.mp hcd
        exact Or.inl ⟨⟨l, m, rfl, fun b hb => hm b (List.mem_append_left _ hb)⟩, Ne.symm (hm c (by simp))⟩

theorem keys_nodup (as : List α) : ((upserts key as).map key).Nodup := by
  induction as using List.reverseRecOn with
  | nil => simp [upserts]
  | append_singleton as c ih =>
    rw [upserts_snoc, upsert, List.map_append, List.nodup_append]
    refine ⟨ih.sublist (List.filter_sublist.map key), List.nodup_singleton _, ?_⟩
    intro k hk k' hk' heq
    obtain ⟨b, hb, rfl⟩ := List.mem_map.mp hk
    have hne := (List.mem_filter.mp hb).2
    rw [List.map_singleton, List.mem_singleton] at hk'
    rw [hk'] at heq
    simp [heq] at hne

/-- Lines that render the store, with those that match replaced by one for `a`, render the
    store after `a` exactly when the match hits no other key. -/
theorem replace_perm_iff {l : List α} {a : α} {lines : List β} {render : α → β} {hits : β → Bool}
    (hown : ∀ b ∈ l, key b = key a → hits (render b) = true) (h : lines.Perm (l.map render)) :
    (lines.filter (fun b => !hits b) ++ [render a]).Perm ((upsert key l a).map render) ↔
      ∀ b ∈ l, key b ≠ key a → hits (render b) = false := by
  have hkept : (lines.filter fun b => !hits b).Perm ((l.filter fun b => !hits (render b)).map render) := by
    have := h.filter fun b => !hits b
    rwa [List.filter_map] at this
  have hsub : (l.filter fun b => !hits (render b)) = (l.filter fun b => key b ≠ key a).filter fun b => !hits (render b) := by
    rw [List.filter_filter]
    refine List.filter_congr fun b hb => ?_
    by_cases hk : key b = key a
    · simp [hk, hown b hb hk]
    · simp [hk]
  rw [upsert, List.map_append, List.map_singleton, List.perm_append_right_iff]
  constructor
  · intro hp b hb hk
    have hlength := (hkept.symm.trans hp).length_eq
    rw [List.length_map, List.length_map] at hlength
    have hsame : (l.filter fun b => !hits (render b)) = l.filter fun b => key b ≠ key a := by
      rw [hsub] at hlength ⊢
      exact List.filter_sublist.eq_of_length hlength
    have hmem : b ∈ l.filter fun b => key b ≠ key a := List.mem_filter.mpr ⟨hb, by simpa using hk⟩
    rw [← hsame] at hmem
    simpa using (List.mem_filter.mp hmem).2
  · intro hmiss
    have hsame : (l.filter fun b => !hits (render b)) = l.filter fun b => key b ≠ key a := by
      rw [hsub, List.filter_eq_self]
      intro b hb
      obtain ⟨hb, hk⟩ := List.mem_filter.mp hb
      simp [hmiss b hb (by simpa using hk)]
    rwa [hsame] at hkept

end Keyed
