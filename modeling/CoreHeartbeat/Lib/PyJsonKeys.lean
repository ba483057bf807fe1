/-
  CoreHeartbeat.Lib.PyJsonKeys — `json.dumps` with `sort_keys`: what its text identifies.

  `Same` is equality of values up to the order of the keys of every object in them, at every
  depth; the order of a list counts. Where an object's keys are distinct, as a dict's are, that
  is the equality of dicts: `same_obj_iff` compares them key by key. `sortKeys` is the value
  whose plain writing is the writing with sorted keys, so that what is known of the writer can
  be used.

  The sort is the library's insertion sort by the text of the key, and two lists of fields with
  distinct keys sort the same exactly when they are the same pairs (`insertionSort_eq_iff`).

  Proved:
  - `dumps_sortKeys_iff`: written with sorted keys, two values are the same text exactly when
    they are the same up to the order of keys.
  - `same_arr_iff`, `same_obj_iff`: what that means of two lists and of two objects.
-/

import CoreHeartbeat.Lib.PyJson
import Mathlib.Data.List.Sort

namespace PyJson

/-- The order of fields under `sort_keys`. -/
def KeyLe {α : Type} (a b : String × α) : Prop := a.1 ≤ b.1

instance {α : Type} : DecidableRel (KeyLe (α := α)) := fun a b => inferInstanceAs (Decidable (a.1 ≤ b.1))

instance {α : Type} : Std.Total (KeyLe (α := α)) := ⟨fun a b => String.le_total a.1 b.1⟩

instance {α : Type} : IsTrans (String × α) KeyLe := ⟨fun _ _ _ => String.le_trans⟩

def sortKeys : Value → Value
  | .arr items => .arr (sortItems items)
  | .obj fields => .obj ((sortFields fields).insertionSort KeyLe)
  | .null => .null
  | .bool b => .bool b
  | .int n => .int n
  | .float t => .float t
  | .str s => .str s
where
  sortItems : List Value → List Value
    | [] => []
    | v :: vs => sortKeys v :: sortItems vs
  sortFields : List (String × Value) → List (String × Value)
    | [] => []
    | (k, v) :: fs => (k, sortKeys v) :: sortFields fs

/-- The same value, its keys in any order. -/
def Same (v w : Value) : Prop := sortKeys v = sortKeys w

theorem sortItems_eq (vs : List Value) : sortKeys.sortItems vs = vs.map sortKeys := by
  induction vs with
  | nil => rfl
  | cons v vs ih => rw [sortKeys.sortItems, ih, List.map_cons]

theorem sortFields_eq (fs : List (String × Value)) : sortKeys.sortFields fs = fs.map fun f => (f.1, sortKeys f.2) := by
  induction fs with
  | nil => rfl
  | cons f fs ih => rw [sortKeys.sortFields, ih, List.map_cons]

/-! ## What the same text says -/

theorem fieldsOk_iff {fs : List (String × Value)} : floatsOk.fieldsOk fs = true ↔ ∀ f ∈ fs, floatsOk f.2 = true := by
  induction fs with
  | nil => simp [floatsOk.fieldsOk]
  | cons f fs ih => simp only [floatsOk.fieldsOk, Bool.and_eq_true, ih, List.forall_mem_cons]

mutual

theorem floatsOk_sortKeys (v : Value) (h : floatsOk v = true) : floatsOk (sortKeys v) = true := by
  match v with
  | .null | .bool _ | .int _ | .str _ => rfl
  | .float _ => exact h
  | .arr vs => exact itemsOk_sortItems vs h
  | .obj fs =>
    have hsorted := fieldsOk_sortFields fs h
    refine fieldsOk_iff.mpr fun f hf => ?_
    exact fieldsOk_iff.mp hsorted f ((List.perm_insertionSort _ _).mem_iff.mp hf)

theorem itemsOk_sortItems (vs : List Value) (h : floatsOk.itemsOk vs = true) :
    floatsOk.itemsOk (sortKeys.sortItems vs) = true := by
  match vs with
  | [] => rfl
  | v :: vs =>
    simp only [floatsOk.itemsOk, Bool.and_eq_true] at h
    simp only [sortKeys.sortItems, floatsOk.itemsOk, floatsOk_sortKeys v h.1, itemsOk_sortItems vs h.2, Bool.and_self]

theorem fieldsOk_sortFields (fs : List (String × Value)) (h : floatsOk.fieldsOk fs = true) :
    floatsOk.fieldsOk (sortKeys.sortFields fs) = true := by
  match fs with
  | [] => rfl
  | (_, v) :: fs =>
    simp only [floatsOk.fieldsOk, Bool.and_eq_true] at h
    simp only [sortKeys.sortFields, floatsOk.fieldsOk, floatsOk_sortKeys v h.1, fieldsOk_sortFields fs h.2,
      Bool.and_self]

end

theorem dumps_sortKeys_iff (st : Style) {v w : Value} (hv : floatsOk v = true) (hw : floatsOk w = true) :
    dumps st (sortKeys v) = dumps st (sortKeys w) ↔ Same v w :=
  dumps_inj st (floatsOk_sortKeys v hv) (floatsOk_sortKeys w hw)

/-! ## What being the same says -/

theorem same_arr_iff {vs ws : List Value} : Same (.arr vs) (.arr ws) ↔ List.Forall₂ Same vs ws := by
  have hmap : Same (.arr vs) (.arr ws) ↔ vs.map sortKeys = ws.map sortKeys := by
    rw [← sortItems_eq, ← sortItems_eq]
    exact Value.arr.injEq _ _ ▸ Iff.rfl
  rw [hmap, ← List.forall₂_eq_eq_eq, List.forall₂_map_left_iff, List.forall₂_map_right_iff]
  exact Iff.rfl

theorem mem_iff_lookup {fs : List (String × Value)} (h : (fs.map (·.1)).Nodup) {k : String} {v : Value} :
    (k, v) ∈ fs ↔ fs.lookup k = some v := by
  induction fs with
  | nil => simp
  | cons f fs ih =>
    rw [List.map_cons, List.nodup_cons] at h
    rw [List.mem_cons, List.lookup_cons]
    by_cases hk : k = f.1
    · have habsent : (f.1, v) ∉ fs := fun hm => h.1 (List.mem_map_of_mem (f := (·.1)) hm)
      simp [hk, Prod.ext_iff, habsent, eq_comm]
    · have hk' : (k == f.1) = false := by simpa using hk
      simp [hk, hk', Prod.ext_iff, ih h.2]

theorem lookup_sortFields (fs : List (String × Value)) (k : String) :
    (sortKeys.sortFields fs).lookup k = (fs.lookup k).map sortKeys := by
  induction fs with
  | nil => rfl
  | cons f fs ih =>
    rw [sortKeys.sortFields, List.lookup_cons, List.lookup_cons, ih]
    split <;> rfl

theorem keys_sortFields (fs : List (String × Value)) : (sortKeys.sortFields fs).map (·.1) = fs.map (·.1) := by
  rw [sortFields_eq, List.map_map]
  rfl

/-- Fields with distinct keys sort the same exactly when they are the same pairs. -/
theorem insertionSort_eq_iff {fs gs : List (String × Value)} (hf : (fs.map (·.1)).Nodup) :
    fs.insertionSort KeyLe = gs.insertionSort KeyLe ↔ fs.Perm gs := by
  constructor
  · intro h
    have hperm := List.perm_insertionSort KeyLe fs
    rw [h] at hperm
    exact hperm.symm.trans (List.perm_insertionSort _ gs)
  · intro h
    have hsorted (l : List (String × Value)) : (l.insertionSort KeyLe).Pairwise KeyLe :=
      List.pairwise_insertionSort KeyLe l
    have hmem {l : List (String × Value)} {a : String × Value} (ha : a ∈ l.insertionSort KeyLe) : a ∈ l :=
      (List.perm_insertionSort _ l).mem_iff.mp ha
    refine List.Perm.eq_of_pairwise (fun a b ha hb hab hba => ?_) (hsorted fs) (hsorted gs)
      ((List.perm_insertionSort _ fs).trans (h.trans (List.perm_insertionSort _ gs).symm))
    have hkey : a.1 = b.1 := String.le_antisymm hab hba
    have hafs := (mem_iff_lookup hf).mp (hmem ha)
    have hbfs := (mem_iff_lookup hf).mp (h.mem_iff.mpr (hmem hb))
    rw [hkey, hbfs] at hafs
    exact Prod.ext hkey (Option.some.inj hafs).symm

/-- Two dicts are the same when each has what the other has under every key. -/
theorem same_obj_iff {fs gs : List (String × Value)} (hf : (fs.map (·.1)).Nodup) (hg : (gs.map (·.1)).Nodup) :
    Same (.obj fs) (.obj gs) ↔ ∀ k, Option.Rel Same (fs.lookup k) (gs.lookup k) := by
  have hfs : ((sortKeys.sortFields fs).map (·.1)).Nodup := by rw [keys_sortFields]; exact hf
  have hgs : ((sortKeys.sortFields gs).map (·.1)).Nodup := by rw [keys_sortFields]; exact hg
  have hsame : Same (.obj fs) (.obj gs) ↔ (sortKeys.sortFields fs).Perm (sortKeys.sortFields gs) := by
    rw [← insertionSort_eq_iff hfs]
    exact Value.obj.injEq _ _ ▸ Iff.rfl
  have hrel (a b : Option Value) : Option.Rel Same a b ↔ a.map sortKeys = b.map sortKeys := by
    cases a <;> cases b <;> simp [Same]
  rw [hsame, List.perm_ext_iff_of_nodup hfs.of_map hgs.of_map]
  simp only [Prod.forall, mem_iff_lookup hfs, mem_iff_lookup hgs, lookup_sortFields, hrel]
  constructor
  · intro h k
    exact Option.ext fun v => h k v
  · intro h k v
    rw [h k]

end PyJson
