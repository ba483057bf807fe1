/-
  CoreHeartbeat.Ledger.Attempt — the with-block around one provider request (`Attempt.ok`,
  `Attempt.__exit__`, `_classify`, `_spool_line` of `services/llm_ledger.py`).

  The block runs the model call and hands its usage to `ok`; leaving it completes the row and
  offers it to the spool. A spool that fails is swallowed, once with a warning; a usage that its
  normalizer cannot convert is not, and leaves the block in place of the answer. The docstring
  of the module says that recording must never break the call it records.

  The model call returns or raises anything, also an interrupt that is no `Exception`; the usage
  is any value of Python (`Ledger.Usage`); the spool may fail at each line, and the warning may
  fail too, once standard error is gone. The flag that a warning was given is the process's and
  is carried along.

  Proved:
  - `ok_returns_iff`: `ok` raises just when a usage does not convert.
  - `record_offers`: whatever happens, one row is offered, with a status and a service.
  - `never_breaks_iff`: the block ends as the model call did if and only if everything read from
    the usage converts and a failing spool can still be warned of.
  - `a_word_for_a_count_breaks_the_call`: the answer is lost to the caller, and the row says
    that the call succeeded.
-/

import CoreHeartbeat.Ledger.Usage
import Mathlib.Data.List.Infix

namespace CoreHeartbeat.Ledger

open CoreHeartbeat.Graph (Json)

/-! ## The row -/

inductive Status where
  | ok | refused | error | timeout | aborted
  deriving DecidableEq, Repr

inductive UsageSource where
  | missing | provider
  deriving DecidableEq, Repr

structure Row where
  service : String
  provider : Provider
  modelServed : Option String := none
  providerRequestId : Option String := none
  serviceTier : String := "standard"
  inferenceGeo : String := "global"
  speed : String := "standard"
  status : Option Status := none
  httpStatus : Option Int := none
  errorType : Option String := none
  usageSource : UsageSource := .missing
  groundedPrompts : Int := 0
  rawUsage : Json := .null
  tokens : Tokens := ⟨none, none, none, none, none, none, none, none, some 0, none, none, none⟩

/-- An exception: its type's name, whether it is an interrupt (`KeyboardInterrupt`,
    `GeneratorExit`), and the `status_code` of it and of its response. -/
structure Exc where
  typeName : String
  interrupt : Bool := false
  statusCode : Value := .null
  responseStatusCode : Value := .null

structure OkArgs where
  modelServed : Option String := none
  requestId : Option String := none
  groundedPrompts : Int := 0
  status : Status := .ok
  shape : Option Spelling := none

variable (py : Python)

/-- `self.row.update(tokens)`, and what goes with it. -/
def Row.withTokens (row : Row) (usage : Value) (t : Tokens) : Row :=
  { row with
    tokens := t
    serviceTier := t.serviceTier.getD row.serviceTier
    inferenceGeo := t.inferenceGeo.getD row.inferenceGeo
    speed := t.speed.getD row.speed
    usageSource := .provider
    rawUsage := asPlain usage }

/-- `Attempt.ok`: the row, and what it raises. -/
def Row.ok (row : Row) (usage : Value) (args : OkArgs) : Row × Option Exc :=
  let row := { row with
    status := some args.status
    modelServed := args.modelServed
    providerRequestId := args.requestId
    groundedPrompts := args.groundedPrompts }
  match normalize py row.provider usage args.shape with
  | .error fault => (row, some { typeName := fault })
  | .ok none => (row, none)
  | .ok (some t) => (row.withTokens usage t, none)

def classify (exc : Exc) : Status :=
  let name := (py.lower exc.typeName).toList
  if "timeout".toList <:+: name ∨ "timedout".toList <:+: name then .timeout
  else if exc.interrupt = true ∨ "cancel".toList <:+: name ∨ "abort".toList <:+: name then .aborted
  else .error

/-- The `status_code` of an exception or of its response, if it is an integer. -/
def httpStatusOf (exc : Exc) : Option Int :=
  match (if exc.statusCode.truthy then exc.statusCode else exc.responseStatusCode) with
  | .int n => some n
  | .bool b => some (if b then 1 else 0)
  | _ => none

/-- `__exit__` up to the spool. -/
def Row.complete (row : Row) (exc : Option Exc) : Row :=
  let row :=
    if row.status.isSome then row
    else
      match exc with
      | none => { row with status := some .error }
      | some exc =>
        { row with
          status := some (classify py exc)
          errorType := some exc.typeName
          httpStatus := httpStatusOf exc }
  if row.service = "" then { row with service := "unknown" } else row

/-! ## The spool -/

/-- How the writing of a line fares, and the warning about it. -/
structure Spool where
  /-- What the write raises. -/
  fault : Option Exc
  /-- What printing to the standard error raises. -/
  stderr : Option Exc

/-- `_spool_line` after so many calls have warned or not: the new `_warned`, and what it
    raises. -/
def spoolLine (spool : Spool) (warned : Bool) : Bool × Option Exc :=
  match spool.fault with
  | none => (warned, none)
  | some _ =>
    if warned then (warned, none)
    else
      match spool.stderr with
      | none => (true, none)
      | some exc => (warned, some exc)

/-! ## The with-block -/

/-- What the block comes to: what it raises, the rows it offers, `_warned` after it. -/
structure Recorded where
  raised : Option Exc
  offered : List Row
  warned : Bool

/-- A with-block around a model call that raises, or returns and hands its usage to `ok`. -/
def record (spool : Spool) (warned : Bool) (row : Row) (call : Except Exc (Value × OkArgs)) : Recorded :=
  let (row, exc) :=
    match call with
    | .error exc => (row, some exc)
    | .ok (usage, args) => row.ok py usage args
  let row := row.complete py exc
  let (warned, broken) := spoolLine spool warned
  ⟨broken.or exc, [row], warned⟩

variable {py}

/-- A spool that fails leaves the block alone, unless its only warning cannot be printed. -/
def Spool.Quiet (spool : Spool) (warned : Bool) : Prop :=
  spool.fault = none ∨ warned = true ∨ spool.stderr = none

theorem spoolLine_quiet_iff (spool : Spool) (warned : Bool) :
    (spoolLine spool warned).2 = none ↔ spool.Quiet warned := by
  unfold spoolLine Spool.Quiet
  cases spool.fault with
  | none => simp
  | some exc =>
    cases warned with
    | true => simp
    | false => cases spool.stderr <;> simp

/-- `ok` raises just when a usage does not convert. -/
theorem ok_returns_iff (row : Row) (usage : Value) (args : OkArgs) :
    (row.ok py usage args).2 = none ↔
      usage = .null ∨ Readable py (clientShape (spellingOf row.provider args.shape) usage) usage := by
  unfold Row.ok normalize
  rw [← normalizer_returns_iff]
  cases hnull : usage.isNull with
  | true =>
    refine iff_of_true rfl (Or.inl ?_)
    cases usage with
    | null => rfl
    | _ => cases hnull
  | false =>
    have hne : usage ≠ .null := fun h => by rw [h] at hnull; cases hnull
    cases hresult : normalizer py (spellingOf row.provider args.shape) usage with
    | error fault => exact iff_of_false (by simp [hresult, Except.map]) (by simp [hne])
    | ok t => exact iff_of_true (by simp [hresult, Except.map]) (Or.inr ⟨t, rfl⟩)

theorem complete_done (row : Row) (exc : Option Exc) :
    (row.complete py exc).status.isSome = true ∧ (row.complete py exc).service ≠ "" := by
  have hservice : ∀ row : Row, (if row.service = "" then { row with service := "unknown" } else row).service ≠ "" ∧
      (if row.service = "" then { row with service := "unknown" } else row).status = row.status := by
    intro row
    by_cases hempty : row.service = ""
    · rw [if_pos hempty]
      exact ⟨(by decide : "unknown" ≠ ""), rfl⟩
    · rw [if_neg hempty]
      exact ⟨hempty, rfl⟩
  unfold Row.complete
  refine ⟨?_, (hservice _).1⟩
  rw [(hservice _).2]
  split
  · assumption
  · cases exc <;> rfl

/-- Whatever happens in the block, one row is offered, with a status and a service. -/
theorem record_offers (spool : Spool) (warned : Bool) (row : Row) (call : Except Exc (Value × OkArgs)) :
    ∃ offered, (record py spool warned row call).offered = [offered] ∧ offered.status.isSome = true ∧
      offered.service ≠ "" :=
  ⟨_, rfl, complete_done _ _⟩

/-- The block around a successful call ends without an exception, the exception of a failed
    one leaves it unchanged, and each offers one row. -/
def NeverBreaks (py : Python) (spool : Spool) (warned : Bool) (row : Row) (usage : Value) (args : OkArgs) : Prop :=
  ((record py spool warned row (.ok (usage, args))).raised = none ∧
      (record py spool warned row (.ok (usage, args))).offered.length = 1) ∧
    ∀ exc, (record py spool warned row (.error exc)).raised = some exc ∧
      (record py spool warned row (.error exc)).offered.length = 1

/-- **For every provider, shape, usage and failure of the spool: recording breaks neither a
    call that returned nor the exception of one that did not, if and only if everything read
    from the usage converts and the warning about the spool, if there is to be one, can be
    printed.** -/
theorem never_breaks_iff (spool : Spool) (warned : Bool) (row : Row) (usage : Value) (args : OkArgs) :
    NeverBreaks py spool warned row usage args ↔
      (usage = .null ∨ Readable py (clientShape (spellingOf row.provider args.shape) usage) usage) ∧
        spool.Quiet warned := by
  rw [← ok_returns_iff row usage args, ← spoolLine_quiet_iff]
  unfold NeverBreaks record
  simp only [List.length_singleton, and_true, Option.or_eq_none_iff]
  constructor
  · intro h
    exact ⟨h.1.2, h.1.1⟩
  · intro h
    refine ⟨⟨h.2, h.1⟩, fun exc => ?_⟩
    rw [h.2]
    rfl

def wordyUsage : Value := .map [("prompt_tokens", .str "many"), ("completion_tokens", .int 10)]

def wordyCall : Recorded :=
  record plainPython ⟨none, none⟩ false { service := "heartbeat", provider := .openai } (.ok (wordyUsage, {}))

/-- Its conversion raises in the caller's block: the answer is lost to the caller, and the row
    says that the call succeeded with no usage. -/
theorem a_word_for_a_count_breaks_the_call :
    wordyCall.raised.map (·.typeName) = some "ValueError" ∧
      wordyCall.offered.map (fun row => (row.status, row.usageSource)) = [(some .ok, .missing)] ∧
      ¬ NeverBreaks plainPython ⟨none, none⟩ false { service := "heartbeat", provider := .openai } wordyUsage {} := by
  have hraised : wordyCall.raised.map (·.typeName) = some "ValueError" := by decide +kernel
  refine ⟨hraised, by decide +kernel, fun h => ?_⟩
  rw [show wordyCall.raised = none from h.1.1] at hraised
  cases hraised

end CoreHeartbeat.Ledger
