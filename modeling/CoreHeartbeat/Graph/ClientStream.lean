/-
  CoreHeartbeat.Graph.ClientStream — the body of POST /intent/stream: each event of a run as
  JSON in a frame of server-sent events, and what a client has of it at any point.

  `eventStream` is what the endpoint writes. Between it and the client stand proxies that cut it
  into chunks anywhere, and connections that break off anywhere, inside a frame or inside a
  character's escape. A client reads what has arrived as the standard says (`EventStream.read`)
  and decodes the data of each event as JSON; what is left half-read it does not see.

  The events are those that `astream_run` yields (`Streaming`), as the dicts that the source
  builds of them. JSON is written in ASCII and without line breaks, so that a frame is one
  `data:` line whatever its texts contain; that the decoding gives the value back is
  `PyJson.loads_dumps`.

  Proved, over every run:
  - `astreamRun_ends`: a run yields one status, at its end.
  - `intent_stream_received`: wherever the stream was cut, the client has received exactly the
    events whose frames are complete, as the run yielded them; and it has received a status
    exactly when nothing is missing. So a client that has no status knows that it lacks
    something, and one that has it lacks nothing.
  - `intent_stream_received_cut`: a connection that breaks off in the second token of an answer.
-/

import CoreHeartbeat.Graph.Signatures
import CoreHeartbeat.Graph.NeverBlank
import CoreHeartbeat.Lib.EventStream

namespace CoreHeartbeat.Graph

open PyJson (Value floatsOk)
open EventStream (jsonFrame received Delivered)

variable {σ : Type}

/-! ## The body -/

def Status.str : Status → String
  | .completed => "completed"
  | .haltedStepBound => "halted_step_bound"
  | .degraded => "degraded"
  | .error => "error"

/-- The dict `astream_run` yields. -/
def ClientEvent.dict : ClientEvent → Value
  | .token text => .obj [("token", .str text)]
  | .toolCall call result =>
    .obj [("tool_call", .obj [("name", .str call.name), ("args", call.value), ("result", .str result)])]
  | .status s => .obj [("status", .str s.str)]
  | .failed detail => .obj [("status", .str "error"), ("detail", .str detail)]

/-- What `event_stream` of `submit_intent_stream` yields frames of. -/
def yielded (st : Settings) (c : Conf σ) (envs : List (ModelEnv σ)) : List Value :=
  (astreamRun st c envs).map ClientEvent.dict

def eventStream (st : Settings) (c : Conf σ) (envs : List (ModelEnv σ)) : List Char :=
  (yielded st c envs).flatMap jsonFrame

def HasStatus (v : Value) : Prop := ∃ fields, v = .obj fields ∧ (fields.lookup "status").isSome

/-! ## The events of a run -/

/-- What is yielded for an event of the graph has no status. -/
theorem watch_no_status (w : Watch) (event : StreamEvent) : ∀ sent ∈ (watch w event).2, ¬ HasStatus sent.dict := by
  have htoken (text : String) : ¬ HasStatus (ClientEvent.token text).dict := by
    rintro ⟨fields, hdict, hstatus⟩
    cases hdict
    exact absurd hstatus Bool.false_ne_true
  have hcall (call : Call) (result : String) : ¬ HasStatus (ClientEvent.toolCall call result).dict := by
    rintro ⟨fields, hdict, hstatus⟩
    cases hdict
    exact absurd hstatus Bool.false_ne_true
  intro sent hsent
  cases event with
  | chainStart n => cases hsent
  | token text =>
    rw [List.mem_singleton.mp hsent]
    exact htoken text
  | toolCall call result =>
    rw [List.mem_singleton.mp hsent]
    exact hcall call result
  | chainEnd n output =>
    simp only [watch] at hsent
    split at hsent
    · cases hsent
    · obtain ⟨m, -, rfl⟩ := List.mem_map.mp hsent
      exact htoken m.content

theorem outs_watch_no_status (w : Watch) (events : List StreamEvent) :
    ∀ sent ∈ (Machine.outs watch w events).flatten, ¬ HasStatus sent.dict := by
  intro sent hsent
  obtain ⟨yielded, hyielded, hsent⟩ := List.mem_flatten.mp hsent
  obtain ⟨ev, hev, rfl⟩ := List.mem_map.mp hyielded
  obtain ⟨before, after, -, -, hout⟩ := (Machine.mem_trace _).mp hev
  rw [hout] at hsent
  exact watch_no_status _ _ sent hsent

/-- A run yields one status, at its end. -/
theorem astreamRun_ends (st : Settings) (c : Conf σ) (envs : List (ModelEnv σ)) :
    ∃ events last, astreamRun st c envs = events ++ [last] ∧ (∀ event ∈ events, ¬ HasStatus event.dict) ∧
      HasStatus last.dict := by
  refine ⟨_, _, rfl, outs_watch_no_status _ _, ?_⟩
  split
  · exact ⟨_, rfl, rfl⟩
  · exact ⟨_, rfl, rfl⟩

theorem floatsOk_dict {event : ClientEvent} (h : ∀ call result, event = .toolCall call result → floatsOk call.value = true) :
    floatsOk event.dict = true := by
  cases event with
  | token text => rfl
  | toolCall call result =>
    simp [ClientEvent.dict, floatsOk, floatsOk.fieldsOk, h call result rfl]
  | status s => rfl
  | failed detail => rfl

/-- Over every run, wherever its stream is cut: the client has received exactly the events whose
    frames are complete, and a status only with all of them. -/
theorem intent_stream_received (st : Settings) (c : Conf σ) (envs : List (ModelEnv σ))
    (hargs : ∀ call result, .toolCall call result ∈ astreamRun st c envs → floatsOk call.value = true) {q : List Char}
    (hq : q <+: eventStream st c envs) :
    Delivered (yielded st c envs) q ∧
      ((∃ v, some v ∈ received q ∧ HasStatus v) ↔ q = eventStream st c envs) := by
  have hfloats : ∀ v ∈ yielded st c envs, floatsOk v = true := by
    intro v hv
    obtain ⟨event, hevent, rfl⟩ := List.mem_map.mp hv
    exact floatsOk_dict fun call result he => hargs call result (he ▸ hevent)
  refine ⟨EventStream.received_prefix hfloats hq, ?_⟩
  obtain ⟨events, last, hevents, hbefore, hstatus⟩ := astreamRun_ends st c envs
  unfold eventStream yielded at hq ⊢
  unfold yielded at hfloats
  rw [hevents, List.map_append, List.map_singleton] at hfloats hq ⊢
  refine EventStream.received_last_iff hfloats hstatus (fun v hv => ?_) hq
  obtain ⟨event, hevent, rfl⟩ := List.mem_map.mp hv
  exact hbefore event hevent

/-- The connection breaks off in the second token of an answer. -/
theorem intent_stream_received_cut :
    Delivered (yielded { pyd := strict } (start calendarQuestion emptyDb) (List.replicate 3 brokenAnswer))
        ((eventStream { pyd := strict } (start calendarQuestion emptyDb) (List.replicate 3 brokenAnswer)).take 40) ∧
      ((∃ v, some v ∈ received
          ((eventStream { pyd := strict } (start calendarQuestion emptyDb) (List.replicate 3 brokenAnswer)).take 40) ∧
            HasStatus v) ↔
        (eventStream { pyd := strict } (start calendarQuestion emptyDb) (List.replicate 3 brokenAnswer)).take 40 =
          eventStream { pyd := strict } (start calendarQuestion emptyDb) (List.replicate 3 brokenAnswer)) := by
  have hnone : (astreamRun { pyd := strict } (start calendarQuestion emptyDb) (List.replicate 3 brokenAnswer)).all
      (fun | .toolCall _ _ => false | _ => true) = true := by decide +kernel
  refine intent_stream_received _ _ _ (fun call result h => ?_) (List.take_prefix _ _)
  exact absurd (List.all_eq_true.mp hnone _ h) Bool.false_ne_true

end CoreHeartbeat.Graph
