/-
  CoreHeartbeat.Lib.Walk — the walk that a partial step takes from a state, as the list of the
  states it passes, up to one without a next.

  A step that names its successor in what it finds (the next page of a listing, the next cell of
  a chain) ends when it finds none, and need not end. `Walk` is the finite case: a list of
  states, each the next of the one before, the last without a next. It is unique where it
  exists, and what a loop over the step does is said by going along it.

  Proved:
  - `from_mem`: the rest of a walk is the walk from where it is.
  - `Walk.nodup`: a walk that ends passes no state twice, since back at one it would be longer
    than itself.
  - `Walk.follows_of_stuck`: at its end alone there is no next.
-/

import Mathlib.Data.List.Nodup

universe u

variable {σ : Type u} {next : σ → Option σ}

inductive Walk (next : σ → Option σ) : σ → List σ → Prop
  | last {x : σ} : next x = none → Walk next x [x]
  | step {x y : σ} {l : List σ} : next x = some y → Walk next y l → Walk next x (x :: l)

namespace Walk

theorem start_mem {x : σ} {l : List σ} (h : Walk next x l) : x ∈ l := by
  cases h <;> exact List.mem_cons_self

theorem unique {x : σ} {l m : List σ} (hl : Walk next x l) (hm : Walk next x m) : l = m := by
  induction hl generalizing m with
  | last hx =>
    cases hm with
    | last => rfl
    | step hy => rw [hx] at hy; cases hy
  | step hx _ ih =>
    cases hm with
    | last hy => rw [hx] at hy; cases hy
    | step hy hrest =>
      rw [hx] at hy
      obtain rfl := Option.some.inj hy
      rw [ih hrest]

/-- The rest of a walk is the walk from where it is. -/
theorem from_mem {x y : σ} {l : List σ} (h : Walk next x l) (hy : y ∈ l) : ∃ m, m <:+ l ∧ Walk next y m := by
  induction h with
  | last hx =>
    rw [List.mem_singleton.mp hy]
    exact ⟨_, List.suffix_refl _, .last hx⟩
  | step hx hrest ih =>
    rcases List.mem_cons.mp hy with rfl | hy
    · exact ⟨_, List.suffix_refl _, .step hx hrest⟩
    · obtain ⟨m, hm, hwalk⟩ := ih hy
      exact ⟨m, hm.trans (List.suffix_cons _ _), hwalk⟩

/-- Back at a state it has passed, a walk would be longer than itself. -/
theorem nodup {x : σ} {l : List σ} (h : Walk next x l) : l.Nodup := by
  induction h with
  | last hx => exact List.nodup_singleton _
  | @step x y l hx hrest ih =>
    refine List.nodup_cons.mpr ⟨fun hmem => ?_, ih⟩
    obtain ⟨m, hm, hwalk⟩ := hrest.from_mem hmem
    have hlen := hm.length_le
    rw [hwalk.unique (.step hx hrest), List.length_cons] at hlen
    omega

theorem next_mem {x y z : σ} {l : List σ} (h : Walk next x l) (hy : y ∈ l) (hz : next y = some z) : z ∈ l := by
  induction h with
  | last hx =>
    rw [List.mem_singleton.mp hy, hx] at hz
    cases hz
  | step hx hrest ih =>
    rcases List.mem_cons.mp hy with rfl | hy
    · rw [hx] at hz
      obtain rfl := Option.some.inj hz
      exact List.mem_cons_of_mem _ hrest.start_mem
    · exact List.mem_cons_of_mem _ (ih hy)

/-- A state without a next is the end: every other one of the walk has one. -/
theorem follows_of_stuck {x y z : σ} {l : List σ} (h : Walk next x l) (hy : y ∈ l) (hstuck : next y = none)
    (hz : z ∈ l) : z = y ∨ (next z).isSome = true := by
  induction h with
  | last hx => exact Or.inl ((List.mem_singleton.mp hz).trans (List.mem_singleton.mp hy).symm)
  | step hx hrest ih =>
    have hy' := (List.mem_cons.mp hy).resolve_left fun heq => by rw [heq, hx] at hstuck; cases hstuck
    rcases List.mem_cons.mp hz with rfl | hz
    · exact Or.inr (by rw [hx]; rfl)
    · exact ih hy' hz

end Walk
