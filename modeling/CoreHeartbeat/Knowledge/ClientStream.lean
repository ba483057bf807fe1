/-
  CoreHeartbeat.Knowledge.ClientStream — the body of POST /kb/chat/stream: the events of a
  Knowledge-chat turn as `sse` frames them, and what a client has of them at any point.

  The stream goes to the client as that of an intent does (`Graph.ClientStream`): chunks cut
  anywhere, a connection that breaks off anywhere, a reader that sees complete frames only. The
  events are the dicts that `run` yields: tokens, announced tool calls, the sources, the status.
  Unlike a turn of the graph, a turn here may raise; what is raised leaves the generator, and
  the body ends where it is.

  A turn that raises ends its stream without a status, wherever it got to, so that for a client
  it looks like a connection that broke off.

  Proved, over every turn:
  - `run_ends`: a turn ends with its one status, or it raised and yielded none.
  - `chat_stream_received`: wherever the stream was cut, the client has received exactly the
    events whose frames are complete; it has received a status exactly when nothing is missing
    and the turn did not raise (`chat_stream_received_raised`).
-/

import CoreHeartbeat.Knowledge.Protocol
import CoreHeartbeat.Graph.Signatures
import CoreHeartbeat.Lib.EventStream

namespace CoreHeartbeat.Knowledge

open CoreHeartbeat.Graph (Json Args)
open PyJson (Value floatsOk)
open EventStream (jsonFrame received Delivered)

/-! ## The body -/

def Status.str : Status → String
  | .completed => "completed"
  | .error => "error"

def SourceEntry.dict (e : SourceEntry) : Value :=
  .obj [("n", .int e.n), ("document_id", e.documentId.toValue), ("title", .str e.title),
    ("chunk_index", e.chunkIndex.toValue), ("excerpt", .str e.excerpt)]

def Event.dict : Event → Value
  | .token text => .obj [("token", .str text)]
  | .toolCall name args =>
    .obj [("tool_call", .obj [("name", (name.map Value.str).getD .null), ("args", (Json.obj args).toValue)])]
  | .sources entries => .obj [("sources", .arr (entries.map SourceEntry.dict))]
  | .status s => .obj [("status", .str s.str)]

/-- What `event_stream` of `kb_chat_stream` yields frames of. -/
def yielded (st : Settings) (req : KnowledgeChatRequest) (env : TurnEnv) : List Value :=
  (run st req env).events.map Event.dict

def eventStream (st : Settings) (req : KnowledgeChatRequest) (env : TurnEnv) : List Char :=
  (yielded st req env).flatMap jsonFrame

def HasStatus (v : Value) : Prop := ∃ fields, v = .obj fields ∧ (fields.lookup "status").isSome

/-! ## How a turn ends -/

theorem hasStatus_iff {event : Event} : HasStatus event.dict ↔ event.statusOf.isSome := by
  constructor
  · rintro ⟨fields, hdict, hstatus⟩
    cases event with
    | status s => rfl
    | token text => cases hdict; exact absurd hstatus Bool.false_ne_true
    | toolCall name args => cases hdict; exact absurd hstatus Bool.false_ne_true
    | sources entries => cases hdict; exact absurd hstatus Bool.false_ne_true
  · intro h
    cases event with
    | status s => exact ⟨_, rfl, rfl⟩
    | token text => cases h
    | toolCall name args => cases h
    | sources entries => cases h

theorem no_status_of_statuses {events : List Event} (h : statuses events = []) :
    ∀ v ∈ events.map Event.dict, ¬ HasStatus v := by
  intro v hv hstatus
  obtain ⟨event, hevent, rfl⟩ := List.mem_map.mp hv
  have hnone := List.filterMap_eq_nil_iff.mp h event hevent
  rw [hasStatus_iff, hnone] at hstatus
  cases hstatus

/-- A turn ends with its one status, or it raised and yielded none. -/
theorem run_ends (st : Settings) (req : KnowledgeChatRequest) (env : TurnEnv) :
    ((run st req env).raised = none ∧ ∃ before s, (run st req env).events = before ++ [.status s] ∧ statuses before = []) ∨
      ((run st req env).raised ≠ none ∧ statuses (run st req env).events = []) := by
  rcases run_cases st req env with ⟨-, hrun⟩ | ⟨-, fault, -, hrun⟩ | ⟨system, ctx, -, hrun⟩
  · rw [hrun]
    exact Or.inl ⟨rfl, [.token notConfigured], .error, rfl, rfl⟩
  · rw [hrun]
    exact Or.inr ⟨Option.some_ne_none fault, rfl⟩
  · rw [hrun]
    have hstep := inStep_run st req system ctx (roundsOf st env)
    simp only [runRounds]
    rw [← lastState] at hstep
    generalize lastState st req env system ctx = s at hstep ⊢
    generalize (Machine.outs (round st req system) (start st req ctx) (roundsOf st env)).flatMap (·.events) = events
      at hstep ⊢
    rcases hstep with ⟨hphase, hplain, -⟩ | ⟨hfailed, before, hevents, hplain⟩
    · rw [if_neg hphase]
      rcases finish_cases st s with ⟨-, hfinish⟩ | ⟨-, entries, -, hfinish⟩ | ⟨-, fault, -, hfinish⟩
      · rw [hfinish]
        refine Or.inl ⟨rfl, events ++ [.token noAnswer, .sources []], .completed, by simp, ?_⟩
        rw [statuses_append, hplain.1]
        rfl
      · rw [hfinish]
        refine Or.inl ⟨rfl, events ++ [.sources entries], .completed, by simp, ?_⟩
        rw [statuses_append, hplain.1]
        rfl
      · rw [hfinish, List.append_nil]
        exact Or.inr ⟨Option.some_ne_none fault, hplain.1⟩
    · rw [if_pos hfailed, List.append_nil, hevents]
      exact Or.inl ⟨rfl, before, .error, rfl, hplain.1⟩

/-- Over every turn, wherever its stream is cut: the client has received exactly the events whose
    frames are complete, and a status only with all of them and of a turn that did not raise. -/
theorem chat_stream_received (st : Settings) (req : KnowledgeChatRequest) (env : TurnEnv)
    (hfloats : ∀ v ∈ yielded st req env, floatsOk v = true) {q : List Char} (hq : q <+: eventStream st req env) :
    Delivered (yielded st req env) q ∧
      ((∃ v, some v ∈ received q ∧ HasStatus v) ↔ q = eventStream st req env ∧ (run st req env).raised = none) := by
  have hdelivered := EventStream.received_prefix hfloats hq
  refine ⟨hdelivered, ?_⟩
  rcases run_ends st req env with ⟨hraised, before, s, hevents, hbefore⟩ | ⟨hraised, hnone⟩
  · rw [and_iff_left hraised]
    unfold eventStream yielded at hq ⊢
    unfold yielded at hfloats
    rw [hevents, List.map_append, List.map_singleton] at hfloats hq ⊢
    exact EventStream.received_last_iff hfloats ⟨_, rfl, rfl⟩ (no_status_of_statuses hbefore) hq
  · refine iff_of_false ?_ fun h => hraised h.2
    rintro ⟨v, hv, hstatus⟩
    obtain ⟨n, hreceived, -, -⟩ := hdelivered
    rw [hreceived] at hv
    obtain ⟨w, hw, hwv⟩ := List.mem_map.mp hv
    obtain rfl := Option.some.inj hwv
    exact no_status_of_statuses hnone w (List.mem_of_mem_take hw) hstatus

/-- The whole stream of a turn that raises, and no status in it. -/
theorem chat_stream_received_raised :
    Delivered (yielded (plainSettings 4) question (streaming [[listCall], [.fromText "Spreads widened [1,\x1c2]."]]))
        (eventStream (plainSettings 4) question (streaming [[listCall], [.fromText "Spreads widened [1,\x1c2]."]])) ∧
      ((∃ v, some v ∈ received
          (eventStream (plainSettings 4) question (streaming [[listCall], [.fromText "Spreads widened [1,\x1c2]."]])) ∧
            HasStatus v) ↔
        eventStream (plainSettings 4) question (streaming [[listCall], [.fromText "Spreads widened [1,\x1c2]."]]) =
            eventStream (plainSettings 4) question (streaming [[listCall], [.fromText "Spreads widened [1,\x1c2]."]]) ∧
          (run (plainSettings 4) question (streaming [[listCall], [.fromText "Spreads widened [1,\x1c2]."]])).raised =
            none) :=
  chat_stream_received _ _ _ (by decide +kernel) List.prefix_rfl

end CoreHeartbeat.Knowledge
