/-
  CoreHeartbeat.Plans.PendingPlans — `services/pending_plans.py`: where a plan of writes waits
  for the user's "yes".

  A plan of one `(user_id, chat_id)` key lives in two places: a row of the Supabase table,
  shared by every gateway process, and a copy in the memory of each process that saved one.
  `save`, `take` and `clear` touch both. A Supabase request is answered, fails before the server
  applies it, or is applied with its answer lost; anything but an answer sends `take` to the
  memory of its own process.

  The server is PostgREST as the module uses it: the POST (`merge-duplicates`) keeps one row per
  key, the DELETE (`return=representation`) removes and returns it. Every operation reads and
  writes one key only, so the model is the slot of one key; the store is a slot per key. The
  module never looks inside a plan except to ask whether it is empty, so plans are of any type
  with that test (`empty`).

  Proved, as the specification of the operations for `SingleUse`, `Latest`, `Fallback` and the
  conversations of the graph:
  - `take_leaves`: no copy in its own process, the row when the request was not applied.
  - `take_answered`, `take_answered_source`: a take whose request is answered hands out the row,
    if it is live and not empty, and says that it came from the table.
  - `take_unanswered`: any other take hands out the copy of its own process, if it is live.
-/

import CoreHeartbeat.Lib.Machine
import Mathlib.Logic.Function.Basic

namespace CoreHeartbeat.Plans

abbrev Key := String × String

/-- `_key`: no chat id is a key of its own, never a real chat's. -/
def key (userId : String) (chatId : Option String) : Key :=
  (userId, match chatId with
    | some c => if c = "" then "_nochat" else c
    | none => "_nochat")

abbrev Proc := Nat

inductive Reply where
  | ok
  /-- It fails before the server applies it. -/
  | failed
  /-- The server applies it and the response is lost (or cannot be read). -/
  | lost
  deriving DecidableEq, Repr

/-- What one operation finds around it: the configuration, its request's fate, and the
    two clocks (`time.monotonic` for the memory copy, UTC for the row). -/
structure Env where
  configured : Bool
  reply : Reply
  mono : Int
  wall : Int
  deriving DecidableEq, Repr

def Env.answered (e : Env) : Bool := e.configured && e.reply == .ok

/-- The request, if one is sent, takes effect on the table. -/
def Env.applied (e : Env) : Bool := e.configured && e.reply != .failed

structure Entry (π : Type) where
  calls : π
  expiresAt : Int
  deriving DecidableEq, Repr

/-- One key's row and its copy in each process. -/
structure Slot (π : Type) where
  row : Option (Entry π)
  mem : Proc → Option (Entry π)

variable {π : Type}

def Slot.init : Slot π := ⟨none, fun _ => none⟩

/-! ## In-memory fallback -/

variable (ttl : Int) (empty : π → Bool)

def memSave (e : Env) (p : Proc) (calls : π) (s : Slot π) : Slot π :=
  { s with mem := Function.update s.mem p (some ⟨calls, e.mono + ttl⟩) }

def memClear (p : Proc) (s : Slot π) : Slot π := { s with mem := Function.update s.mem p none }

def memTake (e : Env) (p : Proc) (s : Slot π) : Option π × Slot π :=
  (match s.mem p with
    | none => none
    | some entry => if e.mono < entry.expiresAt then some entry.calls else none,
   memClear p s)

/-! ## Public API -/

/-- Which backend took or gave a plan. -/
inductive Source where
  | db
  | dbExpired
  | dbMiss
  | memory
  deriving DecidableEq, Repr

/-- `_expired` of the row's timestamp. -/
def expired (e : Env) (expiresAt : Int) : Bool := decide (expiresAt ≤ e.wall)

def save (e : Env) (p : Proc) (calls : π) (s : Slot π) : Source × Slot π :=
  let s := memSave ttl e p calls s
  if !e.configured then (.memory, s)
  else match e.reply with
    | .ok => (.db, { s with row := some ⟨calls, e.wall + ttl⟩ })
    | .failed => (.memory, s)
    | .lost => (.memory, { s with row := some ⟨calls, e.wall + ttl⟩ })

/-- The end of `take`: the memory of the calling process. -/
def takeMemory (e : Env) (p : Proc) (s : Slot π) : (Option π × Source) × Slot π :=
  (((memTake e p s).1, .memory), (memTake e p s).2)

def take (e : Env) (p : Proc) (s : Slot π) : (Option π × Source) × Slot π :=
  if !e.configured then takeMemory e p s
  else match e.reply with
    | .failed => takeMemory e p s
    | .lost => takeMemory e p { s with row := none }
    | .ok =>
      (match s.row with
        | none => (none, .dbMiss)
        | some row =>
          if expired e row.expiresAt then (none, .dbExpired)
          else (if empty row.calls then none else some row.calls, .db),
       memClear p { s with row := none })

def clear (e : Env) (p : Proc) (s : Slot π) : Slot π :=
  let s := memClear p s
  if !e.configured then s
  else match e.reply with
    | .failed => s
    | .ok | .lost => { s with row := none }

/-! ## Commands on one key -/

inductive Op (π : Type) where
  | save (calls : π)
  | take
  | clear
  deriving DecidableEq, Repr

structure Cmd (π : Type) where
  proc : Proc
  env : Env
  op : Op π
  deriving DecidableEq, Repr

inductive Answer (π : Type) where
  | saved (backend : Source)
  | taken (calls : Option π) (source : Source)
  | cleared
  deriving DecidableEq, Repr

def Slot.step (s : Slot π) (c : Cmd π) : Slot π × Answer π :=
  match c.op with
  | .save calls => let r := save ttl c.env c.proc calls s; (r.2, .saved r.1)
  | .take => let r := take empty c.env c.proc s; (r.2, .taken r.1.1 r.1.2)
  | .clear => (clear c.env c.proc s, .cleared)

/-! ## What each operation does to the row and to the copies -/

theorem save_mem (e : Env) (p : Proc) (calls : π) (s : Slot π) :
    (save ttl e p calls s).2.mem = Function.update s.mem p (some ⟨calls, e.mono + ttl⟩) := by
  unfold save memSave
  cases e.configured <;> cases e.reply <;> rfl

theorem save_row (e : Env) (p : Proc) (calls : π) (s : Slot π) :
    (save ttl e p calls s).2.row = if e.applied then some ⟨calls, e.wall + ttl⟩ else s.row := by
  unfold save memSave Env.applied
  cases e.configured <;> cases e.reply <;> rfl

theorem clear_mem (e : Env) (p : Proc) (s : Slot π) : (clear e p s).mem = Function.update s.mem p none := by
  unfold clear
  cases e.configured <;> cases e.reply <;> rfl

theorem clear_row (e : Env) (p : Proc) (s : Slot π) : (clear e p s).row = if e.applied then none else s.row := by
  unfold clear Env.applied
  cases e.configured <;> cases e.reply <;> rfl

theorem take_mem (e : Env) (p : Proc) (s : Slot π) : (take empty e p s).2.mem = Function.update s.mem p none := by
  unfold take takeMemory memTake
  cases e.configured <;> cases e.reply <;> rfl

theorem take_row (e : Env) (p : Proc) (s : Slot π) :
    (take empty e p s).2.row = if e.applied then none else s.row := by
  unfold take takeMemory memTake Env.applied
  cases e.configured <;> cases e.reply <;> rfl

theorem Env.answered_iff {e : Env} : e.answered = true ↔ e.configured = true ∧ e.reply = .ok := by
  simp [Env.answered]

/-- An answered request was applied. -/
theorem Env.applied_of_answered {e : Env} (h : e.answered = true) : e.applied = true := by
  obtain ⟨hc, hr⟩ := Env.answered_iff.mp h
  simp [Env.applied, hc, hr]

/-- What a take leaves: no copy in its own process, the row when the request was not applied. -/
theorem take_leaves {e : Env} {p : Proc} {s : Slot π} :
    (∀ q entry, (take empty e p s).2.mem q = some entry → q ≠ p ∧ s.mem q = some entry) ∧
    (∀ row, (take empty e p s).2.row = some row → e.applied = false ∧ s.row = some row) := by
  refine ⟨?_, ?_⟩
  · intro q entry hq
    rw [take_mem] at hq
    by_cases hqp : q = p
    · rw [hqp, Function.update_self] at hq; cases hq
    · rw [Function.update_of_ne hqp] at hq
      exact ⟨hqp, hq⟩
  · intro row hr
    rw [take_row] at hr
    split at hr
    · cases hr
    · rename_i ha
      exact ⟨by simpa using ha, hr⟩

/-- A take whose request is answered hands out the row, if it is live and not empty. -/
theorem take_answered {e : Env} (h : e.answered = true) (p : Proc) (s : Slot π) (calls : π) :
    (take empty e p s).1.1 = some calls ↔
      ∃ row, s.row = some row ∧ expired e row.expiresAt = false ∧ empty row.calls = false ∧ row.calls = calls := by
  obtain ⟨hc, hr⟩ := Env.answered_iff.mp h
  simp only [take, hc, hr, Bool.not_true, Bool.false_eq_true, if_false]
  cases s.row with
  | none => simp
  | some row => cases he : expired e row.expiresAt <;> cases hm : empty row.calls <;> simp [he, hm]

/-- What an answered take hands out, it reports as the table's. -/
theorem take_answered_source {e : Env} (h : e.answered = true) {p : Proc} {s : Slot π} {calls : π}
    (ht : (take empty e p s).1.1 = some calls) : (take empty e p s).1.2 = .db := by
  obtain ⟨hc, hr⟩ := Env.answered_iff.mp h
  obtain ⟨row, hrow, hexp, -, -⟩ := (take_answered empty h p s calls).mp ht
  simp [take, hc, hr, hrow, hexp]

/-- Any other take hands out the copy of its own process, if it is live. -/
theorem take_unanswered {e : Env} (h : e.answered = false) (p : Proc) (s : Slot π) :
    (take empty e p s).1.2 = .memory ∧ ∀ calls, (take empty e p s).1.1 = some calls ↔
      ∃ entry, s.mem p = some entry ∧ e.mono < entry.expiresAt ∧ entry.calls = calls := by
  have hm : (take empty e p s).1 = ((memTake e p s).1, .memory) := by
    unfold take takeMemory memTake
    simp only [Env.answered] at h
    cases hc : e.configured <;> cases hr : e.reply <;> simp_all
  rw [hm]
  refine ⟨rfl, fun calls => ?_⟩
  simp only [memTake]
  cases s.mem p with
  | none => simp
  | some entry => by_cases ht : e.mono < entry.expiresAt <;> simp [ht]

end CoreHeartbeat.Plans
