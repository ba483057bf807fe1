/-
  CoreHeartbeat.Lib.Machine — deterministic reactive components: a step function that takes a
  state and an operation to the next state and an answer.

  A run is a list of operations; its events record the state each operation met and what it
  answered. What comes from outside (failures, other parties, the clock) is part of the
  operation, so a run is determined by its list, and "for every run" is "for every list".

  A condition on runs is mostly a condition on the state before each step (`Meets`), and a
  result about runs mostly of the form: a step keeps the property if the condition holds before
  it, so a run whose steps all meet the condition keeps it. Where a step keeps the property only
  then, the run result is an equivalence.

  Rules:
  - `final_inv`: in a run whose steps all meet a condition on the state before them, what one
    step preserves holds at the end; `final_inv_of_step` is the rule without a condition.
  - `sum_trace_le`: what the steps take, against what a measure grows by.
  - `always_iff_meets`: where a step keeps a property exactly under a condition, so does a run.
  - `meets_iff_of_inv`: a condition on the steps of a run in place of another, under an
    invariant.
  - `Simulates.outs` / `Simulates.final`: a step-by-step simulation of one machine by another
    carries whole runs: the answers agree and the end states stay related.
-/

import Mathlib.Data.List.Basic
import Mathlib.Algebra.GroupWithZero.Nat

namespace Machine

universe u v w u' v' w'

variable {σ : Type u} {ι : Type v} {ο : Type w} {τ : Type u'} {κ : Type v'} {π : Type w'}

/-- One operation of a run: the state it met, what it was, what it answered. -/
structure Event (σ : Type u) (ι : Type v) (ο : Type w) where
  pre : σ
  op : ι
  out : ο

variable (step : σ → ι → σ × ο)

def final (s : σ) (ops : List ι) : σ := ops.foldl (fun s i => (step s i).1) s

def trace : σ → List ι → List (Event σ ι ο)
  | _, [] => []
  | s, i :: ops => ⟨s, i, (step s i).2⟩ :: trace (step s i).1 ops

def outs (s : σ) (ops : List ι) : List ο := (trace step s ops).map (·.out)

/-- Every step of the run meets `C` in the state before it. -/
def Meets (C : σ → ι → Prop) (s : σ) (ops : List ι) : Prop := ∀ e ∈ trace step s ops, C e.pre e.op

/-! ## Runs -/

@[simp] theorem final_nil (s : σ) : final step s [] = s := rfl

@[simp] theorem final_cons (s : σ) (i : ι) (ops : List ι) :
    final step s (i :: ops) = final step (step s i).1 ops := rfl

@[simp] theorem trace_nil (s : σ) : trace step s [] = [] := rfl

@[simp] theorem trace_cons (s : σ) (i : ι) (ops : List ι) :
    trace step s (i :: ops) = ⟨s, i, (step s i).2⟩ :: trace step (step s i).1 ops := rfl

theorem final_append (s : σ) (l m : List ι) : final step s (l ++ m) = final step (final step s l) m :=
  List.foldl_append

theorem final_snoc (s : σ) (l : List ι) (i : ι) : final step s (l ++ [i]) = (step (final step s l) i).1 := by
  rw [final_append]; rfl

theorem trace_append (s : σ) (l m : List ι) :
    trace step s (l ++ m) = trace step s l ++ trace step (final step s l) m := by
  induction l generalizing s with
  | nil => rfl
  | cons i l ih => simp only [List.cons_append, trace_cons, ih, final_cons]

@[simp] theorem outs_nil (s : σ) : outs step s [] = [] := rfl

@[simp] theorem outs_cons (s : σ) (i : ι) (ops : List ι) :
    outs step s (i :: ops) = (step s i).2 :: outs step (step s i).1 ops := rfl

theorem outs_append (s : σ) (l m : List ι) :
    outs step s (l ++ m) = outs step s l ++ outs step (final step s l) m := by
  simp only [outs, trace_append, List.map_append]

/-- An event of a run stands at a place of its operations, in the state the run has there. -/
theorem mem_trace {s : σ} {ops : List ι} {e : Event σ ι ο} :
    e ∈ trace step s ops ↔
      ∃ l m, ops = l ++ e.op :: m ∧ e.pre = final step s l ∧ e.out = (step (final step s l) e.op).2 := by
  induction ops generalizing s with
  | nil => simp
  | cons i ops ih =>
    rw [trace_cons, List.mem_cons, ih]
    constructor
    · rintro (rfl | ⟨l, m, rfl, hp, ho⟩)
      · exact ⟨[], ops, rfl, rfl, rfl⟩
      · exact ⟨i :: l, m, rfl, hp, ho⟩
    · intro h
      obtain ⟨l, m, hops, hp, ho⟩ := h
      cases l with
      | nil =>
        obtain ⟨rfl, rfl⟩ := List.cons.inj hops
        left; cases e; simp_all
      | cons j l =>
        obtain ⟨rfl, rfl⟩ := List.cons.inj hops
        exact Or.inr ⟨l, m, rfl, hp, ho⟩

theorem meets_append {C : σ → ι → Prop} {s : σ} {l m : List ι} :
    Meets step C s (l ++ m) ↔ Meets step C s l ∧ Meets step C (final step s l) m := by
  simp only [Meets, trace_append, List.mem_append, or_imp, forall_and]

theorem meets_cons {C : σ → ι → Prop} {s : σ} {i : ι} {ops : List ι} :
    Meets step C s (i :: ops) ↔ C s i ∧ Meets step C (step s i).1 ops := by
  simp only [Meets, trace_cons, List.forall_mem_cons]

/-- The condition at one place of the run. -/
theorem Meets.at {C : σ → ι → Prop} {s : σ} {l m : List ι} {i : ι} (h : Meets step C s (l ++ i :: m)) :
    C (final step s l) i :=
  ((meets_cons step).mp ((meets_append step).mp h).2).1

theorem op_mem_of_trace {s : σ} {ops : List ι} {e : Event σ ι ο} (h : e ∈ trace step s ops) : e.op ∈ ops := by
  obtain ⟨l, m, rfl, -, -⟩ := (mem_trace step).mp h
  exact List.mem_append_right _ List.mem_cons_self

theorem out_of_trace {s : σ} {ops : List ι} {e : Event σ ι ο} (h : e ∈ trace step s ops) :
    e.out = (step e.pre e.op).2 := by
  obtain ⟨l, m, -, hpre, hout⟩ := (mem_trace step).mp h
  rw [hpre, hout]

/-- A condition on the operations alone. -/
theorem meets_of_ops {C : σ → ι → Prop} {s : σ} {ops : List ι} (h : ∀ i ∈ ops, ∀ s, C s i) : Meets step C s ops :=
  fun e he => h e.op (op_mem_of_trace step he) e.pre

/-! ## Invariants -/

variable {step}
variable {I : σ → Prop} {C : σ → ι → Prop}

theorem final_inv (hstep : ∀ s i, I s → C s i → I (step s i).1) {s : σ} (h0 : I s) {ops : List ι}
    (hC : Meets step C s ops) : I (final step s ops) := by
  induction ops generalizing s with
  | nil => exact h0
  | cons i ops ih =>
    obtain ⟨hi, hrest⟩ := (meets_cons step).mp hC
    exact ih (hstep s i h0 hi) hrest

/-- The invariant rule without a condition on the steps. -/
theorem final_inv_of_step (hstep : ∀ s i, I s → I (step s i).1) {s : σ} (h0 : I s) (ops : List ι) :
    I (final step s ops) :=
  final_inv (C := fun _ _ => True) (fun s i h _ => hstep s i h) h0 fun _ _ => trivial

theorem final_of_fixed {s : σ} (h : ∀ i, (step s i).1 = s) (ops : List ι) : final step s ops = s :=
  final_inv_of_step (I := fun t => t = s) (fun t i ht => by rw [ht]; exact h i) rfl ops

/-- What the steps of a run take adds up to no more than a measure of the state grows by. -/
theorem sum_trace_le {m : σ → Nat} {f : σ → ι → Nat} (hstep : ∀ s i, C s i → m s + f s i ≤ m (step s i).1) {s : σ}
    {ops : List ι} (hC : Meets step C s ops) :
    m s + ((trace step s ops).map fun e => f e.pre e.op).sum ≤ m (final step s ops) := by
  induction ops generalizing s with
  | nil => exact Nat.le_refl _
  | cons i ops ih =>
    obtain ⟨hi, hrest⟩ := (meets_cons step).mp hC
    have hone := hstep s i hi
    have hall := ih hrest
    simp only [trace_cons, List.map_cons, List.sum_cons, final_cons]
    omega

/-- A property that a step keeps exactly under `C` holds all along a run exactly when every
    step meets `C`. -/
theorem always_iff_meets {P : σ → Prop} (hI : ∀ s i, I s → I (step s i).1)
    (hP : ∀ s i, I s → P s → (P (step s i).1 ↔ C s i)) {s : σ} (h0 : I s) (hP0 : P s) (ops : List ι) :
    (∀ l m, ops = l ++ m → P (final step s l)) ↔ Meets step C s ops := by
  induction ops generalizing s with
  | nil =>
    constructor
    · intro _ e he; cases he
    · intro _ l m h
      obtain ⟨rfl, -⟩ := List.append_eq_nil_iff.mp h.symm
      exact hP0
  | cons i ops ih =>
    rw [meets_cons]
    constructor
    · intro h
      have h1 : P (step s i).1 := h [i] ops rfl
      refine ⟨(hP s i h0 hP0).mp h1, (ih (hI s i h0) h1).mp fun l m hl => ?_⟩
      have hcons : i :: ops = (i :: l) ++ m := by rw [hl, List.cons_append]
      exact h (i :: l) m hcons
    · rintro ⟨hC, hrest⟩ l m hl
      have h1 := (hP s i h0 hP0).mpr hC
      cases l with
      | nil => exact hP0
      | cons j l =>
        obtain ⟨rfl, htail⟩ := List.cons.inj hl
        exact (ih (hI s i h0) h1).mpr hrest l m htail

/-- Two conditions that agree wherever an invariant holds, which the runs that meet one of
    them keep. -/
theorem meets_iff_of_inv {P : σ → ι → Prop} (hI : ∀ s i, I s → C s i → I (step s i).1)
    (h : ∀ s i, I s → (P s i ↔ C s i)) {s : σ} (h0 : I s) (ops : List ι) :
    Meets step P s ops ↔ Meets step C s ops := by
  induction ops generalizing s with
  | nil => exact iff_of_true (fun e he => by cases he) fun e he => by cases he
  | cons i ops ih =>
    rw [meets_cons, meets_cons, h s i h0]
    exact and_congr_right fun hC => ih (hI s i h0 hC)

/-! ## Simulation -/

/-- `step₂`, run on the images of the operations, answers the images of `step₁`'s answers
    and keeps the states related. -/
structure Simulates (step₁ : σ → ι → σ × ο) (step₂ : τ → κ → τ × π) (f : ι → κ) (g : ο → π)
    (R : σ → τ → Prop) : Prop where
  out : ∀ s t i, R s t → (step₂ t (f i)).2 = g (step₁ s i).2
  next : ∀ s t i, R s t → R (step₁ s i).1 (step₂ t (f i)).1

namespace Simulates

variable {step₁ : σ → ι → σ × ο} {step₂ : τ → κ → τ × π} {f : ι → κ} {g : ο → π} {R : σ → τ → Prop}

theorem final (h : Simulates step₁ step₂ f g R) {s : σ} {t : τ} (hR : R s t) (ops : List ι) :
    R (final step₁ s ops) (final step₂ t (ops.map f)) := by
  induction ops generalizing s t with
  | nil => exact hR
  | cons i ops ih => exact ih (h.next s t i hR)

theorem outs (h : Simulates step₁ step₂ f g R) {s : σ} {t : τ} (hR : R s t) (ops : List ι) :
    outs step₂ t (ops.map f) = (outs step₁ s ops).map g := by
  induction ops generalizing s t with
  | nil => rfl
  | cons i ops ih =>
    have hi := h.out s t i hR
    have hrest := ih (h.next s t i hR)
    simp only [Machine.outs, List.map_cons, trace_cons] at hrest ⊢
    rw [hi, hrest]

end Simulates

end Machine
