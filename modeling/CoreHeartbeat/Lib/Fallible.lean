/-
  CoreHeartbeat.Lib.Fallible — computations that may raise (`Except`): what it means that one
  comes through.

  A sequence comes through when both parts do, a loop when every step does. These are the
  inversion lemmas by which a proof takes apart what a function returned without unfolding its
  binds, and the other way round they say when a function of several readings returns at all.

  - `bind_ok`: what a sequence returned, part by part.
  - `bind_returns`: a step that comes through is left to the rest.
  - `mapM_ok_iff`, `mapM_length`, `mem_mapM_iff`: what a loop returns, step by step.
  - `mapM_comesThrough`: a loop comes through when every step does.
  - `mapError_ok`: what comes through under another name for its exceptions comes through.
-/

import Mathlib.Data.List.Forall2

namespace Fallible

universe u v w

variable {ε : Type u} {α β : Type v}

theorem bind_ok {x : Except ε α} {f : α → Except ε β} {b : β} :
    (x >>= f) = .ok b ↔ ∃ a, x = .ok a ∧ f a = .ok b := by
  cases x with
  | error e => exact iff_of_false nofun fun h => by obtain ⟨_, h, _⟩ := h; cases h
  | ok a =>
    constructor
    · intro h; exact ⟨a, rfl, h⟩
    · intro ⟨a', ha, h⟩
      cases ha
      exact h

/-- A step that comes through is left to the rest. -/
theorem bind_returns {x : Except ε α} {f : α → Except ε β} {a : α} (hx : x = .ok a) (hf : ∃ b, f a = .ok b) :
    ∃ b, (x >>= f) = .ok b := by
  obtain ⟨b, hf⟩ := hf
  exact ⟨b, bind_ok.mpr ⟨a, hx, hf⟩⟩

/-- What comes through under another name for its exceptions comes through. -/
theorem mapError_ok {δ : Type w} {g : ε → δ} {x : Except ε α} {a : α} (h : x.mapError g = .ok a) : x = .ok a := by
  cases x with
  | error e => cases h
  | ok b => cases h; rfl

variable {f : α → Except ε β}

/-- What a loop returns, step by step. -/
theorem mapM_ok_iff {l : List α} {bs : List β} : l.mapM f = .ok bs ↔ List.Forall₂ (fun a b => f a = .ok b) l bs := by
  induction l generalizing bs with
  | nil =>
    rw [List.mapM_nil, List.forall₂_nil_left_iff]
    exact ⟨fun h => (Except.ok.inj h).symm, fun h => by rw [h]; rfl⟩
  | cons a l ih =>
    simp only [List.mapM_cons, bind_ok, ih, List.forall₂_cons_left_iff]
    constructor
    · intro ⟨b, hb, bs', hbs, h⟩
      exact ⟨b, bs', hb, hbs, (Except.ok.inj h).symm⟩
    · intro ⟨b, bs', hb, hbs, h⟩
      exact ⟨b, hb, bs', hbs, by rw [h]; rfl⟩

theorem mapM_length {l : List α} {bs : List β} (h : l.mapM f = .ok bs) : bs.length = l.length :=
  (mapM_ok_iff.mp h).length_eq.symm

theorem mem_mapM_iff {l : List α} {bs : List β} (h : l.mapM f = .ok bs) {b : β} :
    b ∈ bs ↔ ∃ a ∈ l, f a = .ok b := by
  have hsteps := mapM_ok_iff.mp h
  clear h
  induction hsteps with
  | nil => simp
  | cons hab _ ih =>
    simp only [List.mem_cons, ih, exists_eq_or_imp, hab, Except.ok.injEq]
    exact or_congr_left eq_comm

theorem mapM_comesThrough {l : List α} : (∃ bs, l.mapM f = .ok bs) ↔ ∀ a ∈ l, ∃ b, f a = .ok b := by
  induction l with
  | nil => exact iff_of_true ⟨[], rfl⟩ nofun
  | cons a l ih =>
    simp only [List.mapM_cons, bind_ok, List.forall_mem_cons, ← ih]
    constructor
    · intro ⟨_, b, hb, bs, hbs, _⟩
      exact ⟨⟨b, hb⟩, bs, hbs⟩
    · intro ⟨⟨b, hb⟩, bs, hbs⟩
      exact ⟨b :: bs, b, hb, bs, hbs, rfl⟩

end Fallible
