/-
  CoreHeartbeat.Plans.SingleUse — is a proposed plan released at most once?

  The commands of any number of gateway processes on one key are numbered, and a plan carries
  the number of the save it was handed to (`Ledger`), so that two saves of equal plans stay
  apart. The ledger runs the module's own `save`, `take` and `clear` on the numbered plans;
  forgetting the numbers gives the module's run and answers (`ledger_answers`).

  A take that gets no answer falls back to its process's memory. That is where a plan can be
  released a second time: the DELETE was not applied and left the row behind, or the table has
  already handed the plan to another process while the saver kept its copy. The docstring of
  `take` says single-use: a second "yes" cannot replay the same writes.

  The invariant knows of every released plan that no place still has it: the row is gone or is
  another plan's, and the copies that are left are of other saves or of plans the table handed
  out (`inv_release`).

  Proved:
  - `single_use`: a run in which no take falls back onto such a copy releases every saved plan
    at most once, over every mix of processes and failures.
  - `single_use_table_down`: the table is down throughout, and the plan is released once.
  - `single_use_fails`: the first take's DELETE never reaches the server, so the copy is
    released and the row stays; the second take's DELETE returns it.
-/

import CoreHeartbeat.Plans.PendingPlans
import Mathlib.Data.List.Nodup

namespace CoreHeartbeat.Plans

variable {π : Type} (ttl : Int) (empty : π → Bool)

/-! ## Numbered plans -/

def Op.number (n : Nat) : Op π → Op (Nat × π)
  | .save calls => .save (n, calls)
  | .take => .take
  | .clear => .clear

def Cmd.number (n : Nat) (c : Cmd π) : Cmd (Nat × π) := ⟨c.proc, c.env, c.op.number n⟩

def Answer.plan : Answer π → Option π
  | .taken calls _ => calls
  | _ => none

def Answer.rowPlan : Answer π → Option π
  | .taken calls .db => calls
  | _ => none

structure Ledger (π : Type) where
  slot : Slot (Nat × π)
  /-- The number of the next command. -/
  next : Nat
  /-- Every plan a take returned, in order. -/
  released : List (Nat × π)
  /-- The saves whose plan the table has handed out. -/
  fromTable : List Nat

def Ledger.init : Ledger π := ⟨Slot.init, 0, [], []⟩

def Ledger.step (L : Ledger π) (c : Cmd π) : Ledger π × Answer (Nat × π) :=
  let r := L.slot.step ttl (empty ∘ Prod.snd) (c.number L.next)
  ({ slot := r.1
     next := L.next + 1
     released := L.released ++ r.2.plan.toList
     fromTable := L.fromTable ++ (r.2.rowPlan.map Prod.fst).toList }, r.2)

/-- The saves whose plans a run's takes returned. -/
def releases (ops : List (Cmd π)) : List Nat :=
  (Machine.final (Ledger.step ttl empty) Ledger.init ops).released.map Prod.fst

/-! ## Forgetting the numbers gives the module's run -/

def Entry.forget (e : Entry (Nat × π)) : Entry π := ⟨e.calls.2, e.expiresAt⟩

def Slot.forget (s : Slot (Nat × π)) : Slot π := ⟨s.row.map Entry.forget, fun p => (s.mem p).map Entry.forget⟩

def Answer.forget : Answer (Nat × π) → Answer π
  | .saved b => .saved b
  | .taken calls src => .taken (calls.map Prod.snd) src
  | .cleared => .cleared

theorem forget_update (f : Proc → Option (Entry (Nat × π))) (p : Proc) (e : Option (Entry (Nat × π))) :
    (fun q => (Function.update f p e q).map Entry.forget) =
      Function.update (fun q => (f q).map Entry.forget) p (e.map Entry.forget) := by
  funext q
  by_cases h : q = p
  · subst h; simp
  · simp [h]

theorem forget_save (e : Env) (p : Proc) (n : Nat) (calls : π) (s : Slot (Nat × π)) :
    (save ttl e p (n, calls) s).2.forget = (save ttl e p calls s.forget).2 ∧
      (save ttl e p (n, calls) s).1 = (save ttl e p calls s.forget).1 := by
  unfold save memSave
  cases e.configured <;> cases e.reply <;> simp [Slot.forget, forget_update, Entry.forget]

theorem forget_clear (e : Env) (p : Proc) (s : Slot (Nat × π)) : (clear e p s).forget = clear e p s.forget := by
  unfold clear memClear
  cases e.configured <;> cases e.reply <;> simp [Slot.forget, forget_update]

theorem forget_takeMemory (e : Env) (p : Proc) (s : Slot (Nat × π)) :
    (takeMemory e p s).2.forget = (takeMemory e p s.forget).2 ∧
      (takeMemory e p s.forget).1 = ((takeMemory e p s).1.1.map Prod.snd, (takeMemory e p s).1.2) := by
  refine ⟨by simp [takeMemory, memTake, memClear, Slot.forget, forget_update], ?_⟩
  simp only [takeMemory, memTake, Slot.forget]
  cases s.mem p with
  | none => rfl
  | some entry =>
    by_cases ht : e.mono < entry.expiresAt <;> simp [Entry.forget, ht]

theorem forget_take (e : Env) (p : Proc) (s : Slot (Nat × π)) :
    (take (empty ∘ Prod.snd) e p s).2.forget = (take empty e p s.forget).2 ∧
      (take empty e p s.forget).1 = ((take (empty ∘ Prod.snd) e p s).1.1.map Prod.snd,
        (take (empty ∘ Prod.snd) e p s).1.2) := by
  unfold take
  cases hc : e.configured with
  | false => exact forget_takeMemory e p s
  | true =>
    cases e.reply with
    | failed => exact forget_takeMemory e p s
    | lost => exact forget_takeMemory e p { s with row := none }
    | ok =>
      refine ⟨by simp [memClear, Slot.forget, forget_update], ?_⟩
      simp only [Slot.forget]
      cases s.row with
      | none => rfl
      | some row =>
        cases he : expired e row.expiresAt <;> cases hm : empty row.calls.2 <;> simp [Entry.forget, he, hm]

/-- The ledger is the module's own run on numbered plans. -/
theorem ledger_faithful : Machine.Simulates (Ledger.step ttl empty) (Slot.step ttl empty) id Answer.forget
    (fun L s => L.slot.forget = s) where
  out := by
    rintro L _ ⟨p, e, op⟩ rfl
    cases op with
    | save calls =>
      simp [Ledger.step, Slot.step, Cmd.number, Op.number, Answer.forget, forget_save ttl e p L.next calls L.slot]
    | take => simp [Ledger.step, Slot.step, Cmd.number, Op.number, Answer.forget, (forget_take empty e p L.slot).2]
    | clear => rfl
  next := by
    rintro L _ ⟨p, e, op⟩ rfl
    cases op with
    | save calls => exact (forget_save ttl e p L.next calls L.slot).1
    | take => exact (forget_take empty e p L.slot).1
    | clear => exact forget_clear e p L.slot

/-- A run of the ledger answers what the module answers, with a number on each plan. -/
theorem ledger_answers (ops : List (Cmd π)) :
    Machine.outs (Slot.step ttl empty) Slot.init ops =
        (Machine.outs (Ledger.step ttl empty) Ledger.init ops).map Answer.forget ∧
      (Machine.final (Ledger.step ttl empty) Ledger.init ops).slot.forget =
        Machine.final (Slot.step ttl empty) Slot.init ops := by
  have hinit : (Ledger.init : Ledger π).slot.forget = Slot.init := rfl
  have houts := (ledger_faithful ttl empty).outs hinit ops
  have hfinal := (ledger_faithful ttl empty).final hinit ops
  rw [List.map_id] at houts hfinal
  exact ⟨houts, hfinal⟩

/-- The ledger's releases are the plans its takes answered with. -/
theorem released_answers (ops : List (Cmd π)) (L : Ledger π) :
    (Machine.final (Ledger.step ttl empty) L ops).released =
      L.released ++ (Machine.outs (Ledger.step ttl empty) L ops).filterMap Answer.plan := by
  induction ops generalizing L with
  | nil => simp [Machine.outs]
  | cons c ops ih =>
    have hstep : (Ledger.step ttl empty L c).1.released =
        L.released ++ (Ledger.step ttl empty L c).2.plan.toList := rfl
    have houts : Machine.outs (Ledger.step ttl empty) L (c :: ops) =
        (Ledger.step ttl empty L c).2 :: Machine.outs (Ledger.step ttl empty) (Ledger.step ttl empty L c).1 ops := rfl
    rw [Machine.final_cons, ih, hstep, houts, List.append_assoc]
    cases hplan : (Ledger.step ttl empty L c).2.plan with
    | none => rw [List.filterMap_cons_none hplan]; rfl
    | some x => rw [List.filterMap_cons_some hplan]; rfl

/-! ## The invariant -/

/-- A take that falls back to memory finds there no plan that the table has handed out,
    nor one that the table still holds because the DELETE was not applied. -/
def FallsBackSafely (L : Ledger π) (c : Cmd π) : Prop :=
  c.op = .take → c.env.answered = false → ∀ entry, L.slot.mem c.proc = some entry → c.env.mono < entry.expiresAt →
    entry.calls.1 ∉ L.fromTable ∧
      (c.env.applied = false → ∀ row, L.slot.row = some row → row.calls.1 ≠ entry.calls.1)

structure Ledger.Inv (L : Ledger π) : Prop where
  rowLt : ∀ row, L.slot.row = some row → row.calls.1 < L.next
  memLt : ∀ p entry, L.slot.mem p = some entry → entry.calls.1 < L.next
  releasedLt : ∀ n ∈ L.released.map Prod.fst, n < L.next
  /-- A save leaves a copy in its own process only. -/
  memInj : ∀ p q a b, L.slot.mem p = some a → L.slot.mem q = some b → a.calls.1 = b.calls.1 → p = q
  nodup : (L.released.map Prod.fst).Nodup
  rowFresh : ∀ row, L.slot.row = some row → row.calls.1 ∉ L.released.map Prod.fst
  /-- A copy of a released plan outlives the release only when the table released it. -/
  memSpent : ∀ p entry, L.slot.mem p = some entry → entry.calls.1 ∈ L.released.map Prod.fst →
    entry.calls.1 ∈ L.fromTable

theorem inv_init : Ledger.Inv (Ledger.init : Ledger π) := by
  constructor <;> simp [Ledger.init, Slot.init]

/-- Dropping copies and the row keeps the invariant. -/
theorem inv_drop {L L' : Ledger π} (h : L.Inv) (hn : L.next ≤ L'.next)
    (hmem : ∀ p entry, L'.slot.mem p = some entry → L.slot.mem p = some entry)
    (hrow : ∀ row, L'.slot.row = some row → L.slot.row = some row)
    (hrel : L'.released = L.released) (htab : L'.fromTable = L.fromTable) : L'.Inv where
  rowLt row hr := by have := h.rowLt row (hrow row hr); omega
  memLt p entry hp := by have := h.memLt p entry (hmem p entry hp); omega
  releasedLt n hm := by rw [hrel] at hm; have := h.releasedLt n hm; omega
  memInj p q a b ha hb := h.memInj p q a b (hmem p a ha) (hmem q b hb)
  nodup := by rw [hrel]; exact h.nodup
  rowFresh row hr := by rw [hrel]; exact h.rowFresh row (hrow row hr)
  memSpent p entry hp hm := by rw [hrel] at hm; rw [htab]; exact h.memSpent p entry (hmem p entry hp) hm

theorem update_none_mem {f : Proc → Option (Entry (Nat × π))} {p q : Proc} {entry : Entry (Nat × π)}
    (h : Function.update f p none q = some entry) : q ≠ p ∧ f q = some entry := by
  by_cases e : q = p
  · subst e; simp at h
  · exact ⟨e, by simpa [e] using h⟩

theorem inv_save {L : Ledger π} (h : L.Inv) (p : Proc) (e : Env) (calls : π) :
    (Ledger.step ttl empty L ⟨p, e, .save calls⟩).1.Inv := by
  have hmem : ∀ q entry, (save ttl e p (L.next, calls) L.slot).2.mem q = some entry →
      (q = p ∧ entry.calls.1 = L.next) ∨ (q ≠ p ∧ L.slot.mem q = some entry) := by
    intro q entry hq
    rw [save_mem] at hq
    by_cases c : q = p
    · subst c; simp at hq; exact Or.inl ⟨rfl, by rw [← hq]⟩
    · exact Or.inr ⟨c, by simpa [c] using hq⟩
  have hrow : ∀ row, (save ttl e p (L.next, calls) L.slot).2.row = some row →
      row.calls.1 = L.next ∨ L.slot.row = some row := by
    intro row hr
    rw [save_row] at hr
    split at hr
    · left; cases hr; rfl
    · exact Or.inr hr
  have hfresh : L.next ∉ L.released.map Prod.fst := fun hm => by have := h.releasedLt _ hm; omega
  simp only [Ledger.step, Slot.step, Cmd.number, Op.number, Answer.plan, Answer.rowPlan, Option.toList_none,
    Option.map_none, List.append_nil]
  refine ⟨?_, ?_, ?_, ?_, h.nodup, ?_, ?_⟩
  · intro row hr
    rcases hrow row hr with c | c
    · simp only [c]; omega
    · have := h.rowLt row c; simp only; omega
  · intro q entry hq
    rcases hmem q entry hq with ⟨-, c⟩ | ⟨-, c⟩
    · simp only [c]; omega
    · have := h.memLt q entry c; simp only; omega
  · intro n hn; have := h.releasedLt n hn; simp only; omega
  · intro q r a b ha hb hab
    rcases hmem q a ha with ⟨rfl, ca⟩ | ⟨-, ca⟩ <;> rcases hmem r b hb with ⟨rfl, cb⟩ | ⟨-, cb⟩
    · rfl
    · have := h.memLt r b cb; omega
    · have := h.memLt q a ca; omega
    · exact h.memInj q r a b ca cb hab
  · intro row hr
    rcases hrow row hr with c | c
    · rw [c]; exact hfresh
    · exact h.rowFresh row c
  · intro q entry hq hm
    rcases hmem q entry hq with ⟨-, c⟩ | ⟨-, c⟩
    · rw [c] at hm; exact absurd hm hfresh
    · exact h.memSpent q entry c hm

theorem inv_clear {L : Ledger π} (h : L.Inv) (p : Proc) (e : Env) :
    (Ledger.step ttl empty L ⟨p, e, .clear⟩).1.Inv := by
  refine inv_drop h (Nat.le_succ _) ?_ ?_ (List.append_nil _) (List.append_nil _)
  · intro q entry hq
    exact (update_none_mem (by simpa [Ledger.step, Slot.step, Cmd.number, Op.number, clear_mem] using hq)).2
  · intro row hr
    simp only [Ledger.step, Slot.step, Cmd.number, Op.number, clear_row] at hr
    split at hr
    · cases hr
    · exact hr

/-- A take that releases plan `n`: the row is gone or another plan's, the copies left are
    other saves' or of a plan the table handed out. -/
theorem inv_release {L L' : Ledger π} (h : L.Inv) {x : Nat × π} (hx : x.1 < L.next)
    (hnew : x.1 ∉ L.released.map Prod.fst) (hnext : L'.next = L.next + 1)
    (hrel : L'.released = L.released ++ [x])
    (hrow : ∀ row, L'.slot.row = some row → L.slot.row = some row ∧ row.calls.1 ≠ x.1)
    (hmem : ∀ p entry, L'.slot.mem p = some entry → L.slot.mem p = some entry)
    (htab : ∀ n ∈ L.fromTable, n ∈ L'.fromTable)
    (hspent : ∀ p entry, L'.slot.mem p = some entry → entry.calls.1 = x.1 → x.1 ∈ L'.fromTable) : L'.Inv := by
  have hmap : L'.released.map Prod.fst = L.released.map Prod.fst ++ [x.1] := by simp [hrel]
  refine ⟨?_, ?_, ?_, ?_, ?_, ?_, ?_⟩
  · intro row hr; have := h.rowLt row (hrow row hr).1; omega
  · intro p entry hp; have := h.memLt p entry (hmem p entry hp); omega
  · intro n hn
    rw [hmap] at hn
    rcases List.mem_append.mp hn with hn | hn
    · have := h.releasedLt n hn; omega
    · rw [List.mem_singleton.mp hn]; omega
  · exact fun p q a b ha hb => h.memInj p q a b (hmem p a ha) (hmem q b hb)
  · rw [hmap, List.nodup_append]
    refine ⟨h.nodup, List.nodup_singleton _, fun a ha b hb => ?_⟩
    rw [List.mem_singleton.mp hb]
    exact fun hab => hnew (hab ▸ ha)
  · intro row hr hm
    obtain ⟨hold, hne⟩ := hrow row hr
    rw [hmap] at hm
    rcases List.mem_append.mp hm with hm | hm
    · exact h.rowFresh row hold hm
    · exact hne (List.mem_singleton.mp hm)
  · intro p entry hp hm
    rw [hmap] at hm
    rcases List.mem_append.mp hm with hm | hm
    · exact htab _ (h.memSpent p entry (hmem p entry hp) hm)
    · rw [List.mem_singleton.mp hm]; exact hspent p entry hp (List.mem_singleton.mp hm)

/-- A take that the table answers with a plan. -/
theorem inv_take_row {L : Ledger π} (h : L.Inv) (p : Proc) {e : Env} (ha : e.answered = true) {x : Nat × π}
    (hp : (take (empty ∘ Prod.snd) e p L.slot).1.1 = some x)
    (hrel : (Ledger.step ttl empty L ⟨p, e, .take⟩).1.released = L.released ++ [x]) :
    (Ledger.step ttl empty L ⟨p, e, .take⟩).1.Inv := by
  obtain ⟨hmem, hrow⟩ := take_leaves (e := e) (p := p) (s := L.slot) (empty ∘ Prod.snd)
  obtain ⟨row, hr, -, -, hx⟩ := (take_answered (empty ∘ Prod.snd) ha p L.slot x).mp hp
  have hsrc := take_answered_source (empty ∘ Prod.snd) ha hp
  have htab : (Ledger.step ttl empty L ⟨p, e, .take⟩).1.fromTable = L.fromTable ++ [x.1] := by
    simp [Ledger.step, Slot.step, Cmd.number, Op.number, hp, hsrc, Answer.rowPlan]
  refine inv_release h (x := x) (hx ▸ h.rowLt row hr) (hx ▸ h.rowFresh row hr) rfl hrel ?_
    (fun q entry hq => (hmem q entry hq).2) (fun n hn => by rw [htab]; exact List.mem_append_left _ hn)
    (fun _ _ _ _ => by rw [htab]; exact List.mem_append_right _ (List.mem_singleton.mpr rfl))
  -- an answered DELETE leaves no row
  intro row' hr'
  have happ := (hrow row' hr').1
  rw [Env.applied_of_answered ha] at happ; cases happ

/-- A take that falls back onto its process's copy. -/
theorem inv_take_copy {L : Ledger π} (h : L.Inv) (p : Proc) {e : Env} (ha : e.answered = false)
    (hs : FallsBackSafely L ⟨p, e, .take⟩) {x : Nat × π} (hp : (take (empty ∘ Prod.snd) e p L.slot).1.1 = some x)
    (hrel : (Ledger.step ttl empty L ⟨p, e, .take⟩).1.released = L.released ++ [x]) :
    (Ledger.step ttl empty L ⟨p, e, .take⟩).1.Inv := by
  obtain ⟨hmem, hrow⟩ := take_leaves (e := e) (p := p) (s := L.slot) (empty ∘ Prod.snd)
  obtain ⟨hsrc, hplan⟩ := take_unanswered (empty ∘ Prod.snd) ha p L.slot
  obtain ⟨entry, hent, hlive, rfl⟩ := (hplan x).mp hp
  obtain ⟨hnt, hrowne⟩ := hs rfl ha entry hent hlive
  have htab : (Ledger.step ttl empty L ⟨p, e, .take⟩).1.fromTable = L.fromTable := by
    simp [Ledger.step, Slot.step, Cmd.number, Op.number, hsrc, Answer.rowPlan]
  refine inv_release h (h.memLt p entry hent) (fun hm => hnt (h.memSpent p entry hent hm)) rfl hrel ?_
    (fun q entry hq => (hmem q entry hq).2) (fun n hn => by rw [htab]; exact hn) ?_
  · intro row hr
    obtain ⟨happ, hold⟩ := hrow row hr
    exact ⟨hold, hrowne happ row hold⟩
  · intro q f hq hf
    obtain ⟨hne, hold⟩ := hmem q f hq
    exact absurd (h.memInj q p f entry hold hent hf) hne

theorem inv_take {L : Ledger π} (h : L.Inv) (p : Proc) (e : Env) (hs : FallsBackSafely L ⟨p, e, .take⟩) :
    (Ledger.step ttl empty L ⟨p, e, .take⟩).1.Inv := by
  obtain ⟨hmem, hrow⟩ := take_leaves (e := e) (p := p) (s := L.slot) (empty ∘ Prod.snd)
  -- the plan handed out decides whether anything is released
  cases hp : (take (empty ∘ Prod.snd) e p L.slot).1.1 with
  | none =>
    have hrp : Answer.rowPlan (.taken (none : Option (Nat × π)) (take (empty ∘ Prod.snd) e p L.slot).1.2) = none := by
      cases (take (empty ∘ Prod.snd) e p L.slot).1.2 <;> rfl
    refine inv_drop h (Nat.le_succ _) (fun q entry hq => (hmem q entry hq).2) (fun row hr => (hrow row hr).2) ?_ ?_
    · simp [Ledger.step, Slot.step, Cmd.number, Op.number, Answer.plan, hp]
    · simp [Ledger.step, Slot.step, Cmd.number, Op.number, hp, hrp]
  | some x =>
    have hrel : (Ledger.step ttl empty L ⟨p, e, .take⟩).1.released = L.released ++ [x] := by
      simp [Ledger.step, Slot.step, Cmd.number, Op.number, Answer.plan, hp]
    cases ha : e.answered with
    | true => exact inv_take_row ttl empty h p ha hp hrel
    | false => exact inv_take_copy ttl empty h p ha hs hp hrel

theorem inv_step (L : Ledger π) (c : Cmd π) (h : L.Inv) (hs : FallsBackSafely L c) :
    (Ledger.step ttl empty L c).1.Inv := by
  obtain ⟨p, e, op⟩ := c
  cases op with
  | save calls => exact inv_save ttl empty h p e calls
  | take => exact inv_take ttl empty h p e hs
  | clear => exact inv_clear ttl empty h p e

/-! ## Single use -/

/-- Over every sequence of commands of any processes, whatever becomes of each request: if
    no take falls back onto a copy whose plan the table has handed out or still holds, no
    save's plan is returned by two takes. -/
theorem single_use (ops : List (Cmd π))
    (hs : Machine.Meets (Ledger.step ttl empty) FallsBackSafely Ledger.init ops) :
    (releases ttl empty ops).Nodup :=
  (Machine.final_inv (inv_step ttl empty) inv_init hs).nodup

/-- The table is down throughout: the plan is saved in memory, released from there once,
    and a second take finds nothing. -/
theorem single_use_table_down :
    (releases 1800 List.isEmpty
      [⟨0, ⟨true, .failed, 0, 0⟩, .save ["delete_calendar_event"]⟩, ⟨0, ⟨true, .failed, 1, 1⟩, .take⟩,
       ⟨0, ⟨true, .failed, 2, 2⟩, .take⟩]).Nodup := by
  refine single_use 1800 List.isEmpty _ ?_
  simp [Machine.Meets, FallsBackSafely, Ledger.step, Ledger.init, Slot.init, Slot.step, Cmd.number, Op.number, save,
    memSave, take, takeMemory, memTake, memClear, Answer.plan, Answer.rowPlan]

/-- One process saves a plan; the first take's DELETE never reaches the server, so the copy
    is released and the row stays; the second take's DELETE returns the row. -/
theorem single_use_fails :
    ¬ (releases 1800 List.isEmpty
      [⟨0, ⟨true, .ok, 0, 0⟩, .save ["delete_calendar_event"]⟩, ⟨0, ⟨true, .failed, 1, 1⟩, .take⟩,
       ⟨0, ⟨true, .ok, 2, 2⟩, .take⟩]).Nodup := by
  decide

end CoreHeartbeat.Plans
