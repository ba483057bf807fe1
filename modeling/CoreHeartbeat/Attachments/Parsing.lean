/-
  CoreHeartbeat.Attachments.Parsing — uploaded documents turned into text, many calls at once
  (`services/document_parser.py`).

  A call for a file that is not text already takes a semaphore of one, hands docling to a thread
  of the executor and waits for it 180 seconds. When the time is over the call lets go of the
  semaphore, and a thread that has begun runs on: `asyncio.wait_for` cancels the future, which a
  running thread does not notice. A thread that the executor has not taken yet is cancelled with
  its call.

  The state has every call with its stage and its thread, and who holds the semaphore. One event
  is a call made, a semaphore taken, a thread begun, a thread at its end, or a timeout; a step
  is `none` where the event cannot happen, and the calls that wait take the semaphore in any
  order. `Sound` is what holds of one call with its thread, and the invariant of a run adds who
  holds the semaphore.

  Proved:
  - `docling_in_turn`: however calls and threads interleave, of the threads at work at most one
    belongs to a call that has not timed out, and a call returns the text of its own file.
  - `docling_in_turn_overlap`: after a timeout two threads are at work, against the comment of
    the module, which promises one at a time.
-/

import CoreHeartbeat.Attachments.Storage
import Mathlib.Data.List.DropRight
import Mathlib.Logic.Function.Basic

namespace CoreHeartbeat.Attachments

open CoreHeartbeat.Gateway (Bytes)

def fastExt : List String := [".txt", ".md", ".markdown", ".csv", ".tsv", ".log", ".json"]

def ext (py : Python) (filename : String) : String :=
  if '.' ∈ filename.toList then String.ofList ('.' :: py.lower (filename.toList.rtakeWhile (· ≠ '.'))) else ""

structure Upload where
  data : Bytes
  filename : String

def Upload.isFast (py : Python) (upload : Upload) : Prop := ext py upload.filename ∈ fastExt

instance (py : Python) (upload : Upload) : Decidable (upload.isFast py) := inferInstanceAs (Decidable (_ ∈ fastExt))

/-! ## Calls and threads -/

inductive Stage where
  | fresh
  | waiting
  | parsing
  | returned (text : String)
  | raised (text : String)
  deriving DecidableEq

/-- How far the thread of a call is; `queued` until the executor takes it. -/
inductive Thread where
  | idle
  | queued
  | running
  | ended
  deriving DecidableEq

/-- All calls of `parse_document`, and who has `_parse_sem`. -/
structure Parses (ι : Type) where
  holder : Option ι
  stage : ι → Stage
  thread : ι → Thread

inductive Event (ι : Type) where
  | called (i : ι)
  | acquired (i : ι)
  | started (i : ι)
  /-- docling returned or raised. -/
  | ended (i : ι) (result : Except String String)
  /-- `wait_for` gave up. -/
  | timedOut (i : ι)

def Parses.start {ι : Type} : Parses ι := ⟨none, fun _ => .fresh, fun _ => .idle⟩

def settled : Except String String → Stage
  | .ok text => .returned text
  | .error text => .raised text

variable {ι : Type} [DecidableEq ι]

def Parses.set (s : Parses ι) (holder : Option ι) (i : ι) (stage : Stage) (thread : Thread) : Parses ι :=
  ⟨holder, Function.update s.stage i stage, Function.update s.thread i thread⟩

variable (py : Python) (uploads : ι → Upload)

/-- One event; `none` where it cannot happen. The calls that wait take the semaphore in any order. -/
def step (s : Parses ι) : Event ι → Option (Parses ι)
  | .called i =>
    if s.stage i ≠ .fresh then none
    else if (uploads i).isFast py then some (s.set s.holder i (.returned (py.decode (uploads i).data)) (s.thread i))
    else some (s.set s.holder i .waiting (s.thread i))
  | .acquired i =>
    if s.stage i = .waiting ∧ s.holder = none then some (s.set (some i) i .parsing .queued) else none
  | .started i => if s.thread i = .queued then some (s.set s.holder i (s.stage i) .running) else none
  | .ended i result =>
    if s.thread i ≠ .running then none
    else if s.holder = some i then some (s.set none i (settled result) .ended)
    -- the result of a thread that was given up goes nowhere
    else some (s.set s.holder i (s.stage i) .ended)
  | .timedOut i =>
    if s.holder ≠ some i then none
    -- a thread that has not begun is cancelled, one that has runs on
    else if s.thread i = .queued then some (s.set none i (.raised "TimeoutError: ") .ended)
    else some (s.set none i (.raised "TimeoutError: ") (s.thread i))

inductive Run : List (Event ι) → Parses ι → Prop
  | start : Run [] .start
  | step {past : List (Event ι)} {s s' : Parses ι} (e : Event ι) :
      Run past s → step py uploads s e = some s' → Run (past ++ [e]) s'

/-! ## The invariant -/

structure Sound (past : List (Event ι)) (i : ι) (holds : Prop) (stage : Stage) (thread : Thread) : Prop where
  parsing : holds → stage = .parsing
  slow : stage = .waiting ∨ stage = .parsing → ¬ (uploads i).isFast py
  untouched : stage = .fresh ∨ stage = .waiting → thread = .idle
  queued : thread = .queued → holds
  running : thread = .running → holds ∨ .timedOut i ∈ past
  began : thread ≠ .idle → ¬ (uploads i).isFast py
  returned : ∀ text, stage = .returned text →
    (uploads i).isFast py ∧ text = py.decode (uploads i).data ∨ ¬ (uploads i).isFast py ∧ .ended i (.ok text) ∈ past

def Inv (past : List (Event ι)) (s : Parses ι) : Prop :=
  ∀ i, Sound py uploads past i (s.holder = some i) (s.stage i) (s.thread i)

variable {py uploads} {past : List (Event ι)} {s s' : Parses ι} {i : ι} {holds : Prop} {stage : Stage} {thread : Thread}

omit [DecidableEq ι] in
theorem Sound.later (h : Sound py uploads past i holds stage thread) (e : Event ι) :
    Sound py uploads (past ++ [e]) i holds stage thread where
  parsing := h.parsing
  slow := h.slow
  untouched := h.untouched
  queued := h.queued
  running ht := (h.running ht).imp_right fun hmem => List.mem_append_left _ hmem
  began := h.began
  returned text ht := (h.returned text ht).imp_right fun hended => ⟨hended.1, List.mem_append_left _ hended.2⟩

omit [DecidableEq ι] in
theorem inv_start : Inv py uploads [] Parses.start := by
  intro i
  refine ⟨nofun, ?_, fun _ => rfl, nofun, nofun, fun h => absurd rfl h, nofun⟩
  rintro (h | h) <;> cases h

/-- A step is about one call; of the others at most who holds the semaphore is new. -/
theorem Inv.set (h : Inv py uploads past s) {holder : Option ι} {e : Event ι}
    (hothers : ∀ j, j ≠ i → (s.holder = some j ↔ holder = some j))
    (hcall : Sound py uploads (past ++ [e]) i (holder = some i) stage thread) :
    Inv py uploads (past ++ [e]) (s.set holder i stage thread) := by
  intro j
  by_cases hj : j = i
  · subst hj
    simpa only [Parses.set, Function.update_self] using hcall
  · have hlater := (h j).later e
    rw [hothers j hj] at hlater
    simpa only [Parses.set, Function.update_of_ne hj] using hlater

omit [DecidableEq ι] in
/-- The semaphore is let go. -/
theorem released (hholder : s.holder = some i) (j : ι) (hj : j ≠ i) : s.holder = some j ↔ (none : Option ι) = some j := by
  rw [hholder]
  exact iff_of_false (fun h => hj (Option.some.inj h).symm) nofun

theorem inv_called (h : Inv py uploads past s) (hstep : step py uploads s (.called i) = some s') :
    Inv py uploads (past ++ [.called i]) s' := by
  rw [step] at hstep
  split at hstep
  · cases hstep
  · rename_i hfresh
    have hstage : s.stage i = .fresh := not_not.mp hfresh
    have hidle : s.thread i = .idle := (h i).untouched (Or.inl hstage)
    have hfree : s.holder ≠ some i := by
      intro hholds
      have hparsing := (h i).parsing hholds
      rw [hstage] at hparsing
      cases hparsing
    split at hstep
    · rename_i hfast
      cases hstep
      refine h.set (fun _ _ => Iff.rfl) ⟨fun hholds => absurd hholds hfree, nofun, nofun, ?_, ?_, ?_, ?_⟩
      · rw [hidle]; nofun
      · rw [hidle]; nofun
      · exact fun hbegan => absurd hidle hbegan
      · rintro text ⟨rfl⟩
        exact Or.inl ⟨hfast, rfl⟩
    · rename_i hslow
      cases hstep
      refine h.set (fun _ _ => Iff.rfl) ⟨fun hholds => absurd hholds hfree, fun _ => hslow, fun _ => hidle, ?_, ?_, ?_, nofun⟩
      · rw [hidle]; nofun
      · rw [hidle]; nofun
      · exact fun _ => hslow

theorem inv_acquired (h : Inv py uploads past s) (hstep : step py uploads s (.acquired i) = some s') :
    Inv py uploads (past ++ [.acquired i]) s' := by
  rw [step] at hstep
  split at hstep
  · rename_i hready
    cases hstep
    have hslow := (h i).slow (Or.inl hready.1)
    refine h.set (fun j hj => ?_) ⟨fun _ => rfl, fun _ => hslow, ?_, fun _ => rfl, nofun, fun _ => hslow, nofun⟩
    · rw [hready.2]
      exact iff_of_false nofun fun he => hj (Option.some.inj he).symm
    · rintro (he | he) <;> cases he
  · cases hstep

theorem inv_started (h : Inv py uploads past s) (hstep : step py uploads s (.started i) = some s') :
    Inv py uploads (past ++ [.started i]) s' := by
  rw [step] at hstep
  split at hstep
  · rename_i hqueued
    cases hstep
    have hcall := (h i).later (.started i)
    have hholds := hcall.queued hqueued
    have hparsing := hcall.parsing hholds
    refine h.set (fun _ _ => Iff.rfl) ⟨hcall.parsing, hcall.slow, ?_, fun _ => hholds, fun _ => Or.inl hholds, ?_, hcall.returned⟩
    · rw [hparsing]
      rintro (he | he) <;> cases he
    · exact fun _ => hcall.slow (Or.inr hparsing)
  · cases hstep

theorem inv_ended {result : Except String String} (h : Inv py uploads past s)
    (hstep : step py uploads s (.ended i result) = some s') : Inv py uploads (past ++ [.ended i result]) s' := by
  rw [step] at hstep
  split at hstep
  · cases hstep
  · rename_i hrunning
    have hthread : s.thread i = .running := not_not.mp hrunning
    have hslow : ¬ (uploads i).isFast py := (h i).began (by rw [hthread]; nofun)
    split at hstep
    · rename_i hholds
      cases hstep
      refine h.set (released hholds) ⟨nofun, fun _ => hslow, ?_, nofun, nofun, fun _ => hslow, ?_⟩
      · cases result <;> rintro (he | he) <;> cases he
      · intro text htext
        cases result with
        | error e => cases htext
        | ok text' =>
          cases htext
          exact Or.inr ⟨hslow, List.mem_append_right _ (List.mem_singleton.mpr rfl)⟩
    · cases hstep
      have hcall := (h i).later (.ended i result)
      refine h.set (fun _ _ => Iff.rfl) ⟨hcall.parsing, hcall.slow, ?_, nofun, nofun, fun _ => hslow, hcall.returned⟩
      intro hbefore
      have hidle := hcall.untouched hbefore
      rw [hthread] at hidle
      cases hidle

theorem inv_timedOut (h : Inv py uploads past s) (hstep : step py uploads s (.timedOut i) = some s') :
    Inv py uploads (past ++ [.timedOut i]) s' := by
  rw [step] at hstep
  split at hstep
  · cases hstep
  · rename_i hnot
    have hholds : s.holder = some i := not_not.mp hnot
    have hslow := (h i).slow (Or.inr ((h i).parsing hholds))
    split at hstep
    · cases hstep
      refine h.set (released hholds) ⟨nofun, nofun, nofun, nofun, nofun, fun _ => hslow, nofun⟩
    · rename_i hbegun
      cases hstep
      refine h.set (released hholds) ⟨nofun, nofun, nofun, fun hqueued => absurd hqueued hbegun, ?_, fun _ => hslow, nofun⟩
      exact fun _ => Or.inr (List.mem_append_right _ (List.mem_singleton.mpr rfl))

theorem run_inv (h : Run py uploads past s) : Inv py uploads past s := by
  induction h with
  | start => exact inv_start
  | step e _ hstep ih =>
    cases e with
    | called i => exact inv_called ih hstep
    | acquired i => exact inv_acquired ih hstep
    | started i => exact inv_started ih hstep
    | ended i result => exact inv_ended ih hstep
    | timedOut i => exact inv_timedOut ih hstep

/-- Threads that are at work at one time are of calls of which all but one have timed out, and
    what a call returns is the text of its own file. -/
theorem docling_in_turn (h : Run py uploads past s) :
    (∀ i j, s.thread i = .running → s.thread j = .running → i = j ∨ .timedOut i ∈ past ∨ .timedOut j ∈ past) ∧
      ∀ i text, s.stage i = .returned text →
        (uploads i).isFast py ∧ text = py.decode (uploads i).data ∨ ¬ (uploads i).isFast py ∧ .ended i (.ok text) ∈ past := by
  have hinv := run_inv h
  refine ⟨fun i j hi hj => ?_, fun i => (hinv i).returned⟩
  rcases (hinv i).running hi with hholds | hgiven
  · rcases (hinv j).running hj with hholds' | hgiven
    · rw [hholds] at hholds'
      exact Or.inl (Option.some.inj hholds')
    · exact Or.inr (Or.inr hgiven)
  · exact Or.inr (Or.inl hgiven)

/-- After a timeout two threads are at work. -/
theorem docling_in_turn_overlap :
    ∃ past s, Run asciiPython (fun _ : Bool => ⟨[], "scan.pdf"⟩) past s ∧ s.thread true = .running ∧
      s.thread false = .running ∧ (.timedOut true ∈ past ∨ .timedOut false ∈ past) := by
  have h : Run asciiPython (fun _ : Bool => ⟨[], "scan.pdf"⟩) [] Parses.start := .start
  have h := h.step (.called true) rfl
  have h := h.step (.acquired true) rfl
  have h := h.step (.started true) rfl
  have h := h.step (.timedOut true) rfl
  have h := h.step (.called false) rfl
  have h := h.step (.acquired false) rfl
  have h := h.step (.started false) rfl
  exact ⟨_, _, h, rfl, rfl, ((docling_in_turn h).1 true false rfl rfl).resolve_left nofun⟩

end CoreHeartbeat.Attachments
