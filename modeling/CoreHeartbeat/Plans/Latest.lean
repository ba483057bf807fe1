/-
  CoreHeartbeat.Plans.Latest — does a take return the plan the user was last shown?

  The commands are those of one process on one key: saves, takes and clears, each with the fate
  of its request. A plan is shown to the user when it is saved, so a take may only return the
  plan of the command right before it (`ReturnsLatest`): nothing newer was shown, nothing was
  cleared, and nothing was released in between.

  Within one process the memory copy is exact: it is the plan of the last command when that was
  a save, and nothing otherwise (`copy_iff_last`). The row is not: a save or a clear whose
  request fails leaves an older row, and a take whose DELETE is answered prefers the row. The
  module saves into memory first, and drops the copy at every take, so the copy never outlives
  what it stands for.

  Proved:
  - `take_latest_iff`: one take returns the last plan shown just when the row it is answered
    with, if live, is the copy's.
  - `latest_iff_in_step`: takes return only the last plan shown in exactly the runs where every
    live row that a take is answered with is the plan the copy holds.
  - `superseded_plan_released`: the POST of a second proposal fails, and the "yes" releases the
    first one.
-/

import CoreHeartbeat.Plans.PendingPlans

namespace CoreHeartbeat.Plans

variable {π : Type} (ttl : Int) (empty : π → Bool)

/-- Whenever a take returns a plan, the command just before it was the save of that plan:
    no newer save, no clear and no other take stands between. -/
def ReturnsLatest (ops : List (Cmd π)) : Prop :=
  ∀ l c m, ops = l ++ c :: m →
    ∀ calls src, (Slot.step ttl empty (Machine.final (Slot.step ttl empty) Slot.init l) c).2 = .taken (some calls) src →
      ∃ e, l.getLast? = some ⟨c.proc, e, .save calls⟩

/-- A take answered with a live row finds the same plan in the memory of its process. -/
def RowInStep (s : Slot π) (c : Cmd π) : Prop :=
  c.op = .take → c.env.answered = true → ∀ row, s.row = some row → expired c.env row.expiresAt = false →
    empty row.calls = false → ∃ entry, s.mem c.proc = some entry ∧ entry.calls = row.calls

/-! ## The memory copy -/

/-- In a run of one process, its copy holds a plan exactly when the last command saved it. -/
theorem copy_iff_last {p : Proc} {ops : List (Cmd π)} (hp : ∀ c ∈ ops, c.proc = p) (calls : π) :
    (∃ entry, (Machine.final (Slot.step ttl empty) Slot.init ops).mem p = some entry ∧ entry.calls = calls) ↔
      ∃ e, ops.getLast? = some ⟨p, e, .save calls⟩ := by
  rcases List.eq_nil_or_concat ops with rfl | ⟨l, c, rfl⟩
  · simp [Slot.init]
  · obtain ⟨q, e, op⟩ := c
    have hq : q = p := hp ⟨q, e, op⟩ (by simp)
    subst hq
    rw [List.concat_eq_append, Machine.final_snoc]
    cases op with
    | save saved => simp [Slot.step, save_mem]
    | take => simp [Slot.step, take_mem]
    | clear => simp [Slot.step, clear_mem]

/-- One take returns the last plan shown just when the row it is answered with, if live, is
    the copy's. -/
theorem take_latest_iff {l : List (Cmd π)} {c : Cmd π} (hp : ∀ d ∈ l, d.proc = c.proc) :
    (∀ calls src, (Slot.step ttl empty (Machine.final (Slot.step ttl empty) Slot.init l) c).2 = .taken (some calls) src →
        ∃ e, l.getLast? = some ⟨c.proc, e, .save calls⟩) ↔
      RowInStep empty (Machine.final (Slot.step ttl empty) Slot.init l) c := by
  generalize hs : Machine.final (Slot.step ttl empty) Slot.init l = s
  have hcopy : ∀ calls, (∃ entry, s.mem c.proc = some entry ∧ entry.calls = calls) ↔
      ∃ e, l.getLast? = some ⟨c.proc, e, .save calls⟩ := fun calls => by
    rw [← hs]; exact copy_iff_last ttl empty hp calls
  obtain ⟨p, e, op⟩ := c
  cases op with
  | save saved => simp [RowInStep, Slot.step]
  | clear => simp [RowInStep, Slot.step]
  | take =>
    have hans : ∀ calls, (∃ src, (Slot.step ttl empty s ⟨p, e, .take⟩).2 = .taken (some calls) src) ↔
        (take empty e p s).1.1 = some calls := fun calls => by simp [Slot.step]
    constructor
    · intro h hop ha row hr hexp hne
      obtain ⟨src, hsrc⟩ := (hans row.calls).mpr ((take_answered empty ha p s row.calls).mpr ⟨row, hr, hexp, hne, rfl⟩)
      exact (hcopy row.calls).mpr (h row.calls src hsrc)
    · intro h calls src hsrc
      have hgot := (hans calls).mp ⟨src, hsrc⟩
      refine (hcopy calls).mp ?_
      cases ha : e.answered with
      | true =>
        obtain ⟨row, hr, hexp, hne, rfl⟩ := (take_answered empty ha p s calls).mp hgot
        exact h rfl ha row hr hexp hne
      | false =>
        obtain ⟨entry, hent, -, hc⟩ := ((take_unanswered empty ha p s).2 calls).mp hgot
        exact ⟨entry, hent, hc⟩

/-! ## Whole runs -/

/-- In a run of one process on one key, takes return only the last plan shown if and only
    if every take answered with a live row finds that row's plan in its memory as well. -/
theorem latest_iff_in_step (p : Proc) (ops : List (Cmd π)) (hp : ∀ c ∈ ops, c.proc = p) :
    ReturnsLatest ttl empty ops ↔ Machine.Meets (Slot.step ttl empty) (RowInStep empty) Slot.init ops := by
  have hsplit : ∀ l c m, ops = l ++ c :: m → ∀ d ∈ l, d.proc = c.proc := fun l c m h d hd => by
    rw [hp d (by rw [h]; exact List.mem_append_left _ hd), hp c (by rw [h]; simp)]
  constructor
  · intro h e he
    obtain ⟨l, m, hops, hpre, -⟩ := (Machine.mem_trace _).mp he
    rw [hpre]
    exact (take_latest_iff ttl empty (hsplit l e.op m hops)).mp (h l e.op m hops)
  · intro h l c m hops
    refine (take_latest_iff ttl empty (hsplit l c m hops)).mpr ?_
    let s := Machine.final (Slot.step ttl empty) Slot.init l
    exact h ⟨s, c, (Slot.step ttl empty s c).2⟩ ((Machine.mem_trace _).mpr ⟨l, m, hops, rfl, rfl⟩)

def supersededRun : List (Cmd (List String)) :=
  [⟨0, ⟨true, .ok, 0, 0⟩, .save ["first"]⟩, ⟨0, ⟨true, .failed, 1, 1⟩, .save ["second"]⟩, ⟨0, ⟨true, .ok, 2, 2⟩, .take⟩]

theorem latest_iff_in_step_superseded :
    ReturnsLatest 1800 List.isEmpty supersededRun ↔
      Machine.Meets (Slot.step 1800 List.isEmpty) (RowInStep List.isEmpty) Slot.init supersededRun :=
  latest_iff_in_step 1800 List.isEmpty 0 supersededRun (by decide)

/-- A second proposal whose POST fails is kept in memory only; the take that follows is
    answered with the first proposal's row. -/
theorem superseded_plan_released : ¬ ReturnsLatest 1800 List.isEmpty supersededRun := by
  intro h
  obtain ⟨e, he⟩ := h [⟨0, ⟨true, .ok, 0, 0⟩, .save ["first"]⟩, ⟨0, ⟨true, .failed, 1, 1⟩, .save ["second"]⟩]
    ⟨0, ⟨true, .ok, 2, 2⟩, .take⟩ [] rfl ["first"] .db (by decide)
  simp at he

end CoreHeartbeat.Plans
