/-
  CoreHeartbeat.Graph.Streaming — the streamed turn (`astream_run`): the events of the graph's
  run, and what is yielded to the client for them.

  Tokens leave `local_llm` through custom events while its message is built apart from them;
  when a run of it sent none, the message itself is yielded at its end. The events a node
  dispatches are delivered in order between its start and its end. `Watch` has the local
  variables of the loop over the events: the final state as far as it was seen, whether a token
  was sent since the last start, and what was yielded.

  A turn composes at most once, so what is true of its tokens is decided in one step: `Judges`
  relates a run to the step that composes, and `Told` says how far the two, tokens and recorded
  reply, have come. `NeverBlank` uses the same rule for another relation.

  Proved:
  - `watch_tokens`, `streamStep_tokens`: what the client is sent for an event and a superstep.
  - `streamRun_final`: the events only watch the run; the streamed turn ends in the state of the
    turn that does not stream.
  - `streamed_reply_iff`: over every run that reaches END the tokens spell the recorded reply in
    exactly the runs whose local model does not break off in the middle of an answer. The cloud
    model's partial answer is kept.
  - `a_broken_stream_records_another_reply`: the client has read the answer so far, and the turn
    records a failure in its place.
-/

import CoreHeartbeat.Graph.Compose

namespace CoreHeartbeat.Graph

variable {σ : Type}

/-! ## The events of a run -/

inductive StreamEvent where
  | chainStart (n : GraphNode)
  /-- `LOCAL_TOKEN_EVENT`. -/
  | token (text : String)
  /-- `TOOL_CALL_EVENT`. -/
  | toolCall (call : Call) (result : String)
  | chainEnd (n : GraphNode) (output : Update)

/-- What `local_llm` hands to `_emit`. -/
def emitted (st : Settings) (e : ModelEnv σ) (s : GraphState) : List String :=
  match s.cannedReply.filter (· ≠ "") with
  | some canned => [canned]
  | none =>
    if st.localCompose then (generateLocal s e.ollama).1
    else
      match e.client with
      | .error _ => []
      | .ok client =>
        match generateCloud e.modelPref client e.cloud with
        | (said, .ok _, _) => said
        | (said, .error _, _) => said ++ (generateLocal s e.ollama).1

def customEvents (st : Settings) (e : ModelEnv σ) (s : GraphState) : GraphNode → List StreamEvent
  | .supervisor => []
  | .localLlm => (emitted st e s).map .token
  | .toolExecution =>
    match (requestedToolCalls s).mapM fun c => e.dispatchTool c s.userId with
    | .error _ => []
    | .ok results => (requestedToolCalls s).zipWith .toolCall results

def streamStep (st : Settings) (c : Conf σ) (e : ModelEnv σ) : Conf σ × List StreamEvent :=
  let (after, u) := modelStep st c e
  (after,
    match c.place, u with
    | .at n, some u => .chainStart n :: (customEvents st e c.st n ++ [.chainEnd n u])
    | .at n, none => .chainStart n :: customEvents st e c.st n
    | _, _ => [])

/-! ## What the client is sent -/

inductive ClientEvent where
  | token (text : String)
  | toolCall (call : Call) (result : String)
  | status (s : Status)
  /-- Status `error`, with the exception. -/
  | failed (detail : String)

structure Watch where
  streamedLocalTokens : Bool := false
  lastLocalReply : String := ""
  finalStatus : Status := .completed

def watch (w : Watch) : StreamEvent → Watch × List ClientEvent
  | .chainStart n => (if n = .localLlm then { w with streamedLocalTokens := false } else w, [])
  | .token text => ({ w with streamedLocalTokens := true }, [.token text])
  | .toolCall call result => (w, [.toolCall call result])
  | .chainEnd n output =>
    let said := if n = .localLlm then output.messages.filter (·.content ≠ "") else []
    let replies := said.filter fun m => !"local inference failure:".toList.isPrefixOf m.content.toList
    ({ w with
        lastLocalReply := ((replies.getLast?).map (·.content)).getD w.lastLocalReply
        finalStatus := output.status.getD w.finalStatus },
      if w.streamedLocalTokens then [] else said.map fun m => .token m.content)

/-- `astream_run`, from the graph's start on. -/
def astreamRun (st : Settings) (c : Conf σ) (envs : List (ModelEnv σ)) : List ClientEvent :=
  let events := (Machine.outs (streamStep st) c envs).flatten
  (Machine.outs watch {} events).flatten ++
    [match (Machine.final (streamStep st) c envs).place with
      | .raised fault => .failed fault
      | _ => .status (Machine.final watch {} events).finalStatus]

def tokens (events : List ClientEvent) : List String :=
  events.filterMap fun
    | .token text => some text
    | _ => none

def GraphState.replies (s : GraphState) : List Message := s.messages.filter (·.source = .localLlm)

/-- The tokens spell every reply that `local_llm` recorded. -/
def StreamedAsRecorded (c : Conf σ) (sent : List ClientEvent) : Prop :=
  ∀ m ∈ c.st.replies, String.join (tokens sent) = m.content

/-- Where `local_llm` composes with the local model (by configuration, or after the cloud
    model failed), its answer does not break off after a text that is not the failure
    notice itself. -/
def KeepsTheReply (st : Settings) (c : Conf σ) (e : ModelEnv σ) : Prop :=
  c.place = .at .localLlm → c.st.cannedReply.filter (· ≠ "") = none →
    (st.localCompose = true ∨ ∃ client, e.client = .ok client ∧ cloudFails client e.cloud = true) →
    c.st.documentImages = [] → ∀ failure, e.ollama.BreaksMidAnswer failure →
      String.join e.ollama.heard = "local inference failure: " ++ failure.category.str

/-! ## One node's events -/

theorem tokens_append (l m : List ClientEvent) : tokens (l ++ m) = tokens l ++ tokens m := List.filterMap_append

/-- Custom tokens are passed on as they come. -/
theorem watch_tokens (w : Watch) (texts : List String) :
    tokens (Machine.outs watch w (texts.map .token)).flatten = texts ∧
      (Machine.final watch w (texts.map .token)).streamedLocalTokens = (w.streamedLocalTokens || !texts.isEmpty) := by
  induction texts generalizing w with
  | nil => simp [tokens]
  | cons text texts ih =>
    obtain ⟨htokens, hflag⟩ := ih { w with streamedLocalTokens := true }
    refine ⟨?_, ?_⟩
    · simp only [List.map_cons, Machine.outs_cons, List.flatten_cons, tokens_append]
      rw [show (watch w (.token text)).1 = { w with streamedLocalTokens := true } from rfl, htokens]
      rfl
    · simp only [List.map_cons, Machine.final_cons]
      rw [show (watch w (.token text)).1 = { w with streamedLocalTokens := true } from rfl, hflag]
      simp

/-- What the local model adds to the reply that `local_llm` makes of it. -/
def spoken : Except WorkerFailure String → String
  | .ok text => text
  | .error failure => "local inference failure: " ++ failure.category.str

/-- The local model's tokens are the reply made of them, or there are none; but where it
    breaks off in the middle of an answer the reply is the notice. -/
theorem generateLocal_spoken (s : GraphState) (stream : OllamaStream) {parts : List String}
    {result : Except WorkerFailure String} {usage : TokenUsage} (h : generateLocal s stream = (parts, result, usage)) :
    (parts = [] ∨ String.join parts = spoken result) ↔
      (s.documentImages = [] → ∀ failure, stream.BreaksMidAnswer failure →
        String.join stream.heard = "local inference failure: " ++ failure.category.str) := by
  rcases generateLocal_heard s stream with
    ⟨himages, failure, usage', hbreak, hgen⟩ | ⟨hintact, ⟨parts', usage', hgen⟩ | ⟨result', usage', hgen⟩⟩
  · rw [hgen] at h
    cases h
    constructor
    · intro hor _ failure' hbreak'
      have hsame : failure' = failure := Option.some.inj (hbreak'.2.1.symm.trans hbreak.2.1)
      rcases hor with hnil | hjoin
      · exact absurd hnil hbreak.2.2
      · rw [hsame]; exact hjoin
    · intro hall
      exact Or.inr (hall himages failure hbreak)
  · rw [hgen] at h
    cases h
    exact iff_of_true (Or.inr rfl) fun himages failure hbreak => absurd ⟨failure, himages, hbreak⟩ hintact
  · rw [hgen] at h
    cases h
    exact iff_of_true (Or.inl rfl) fun himages failure hbreak => absurd ⟨failure, himages, hbreak⟩ hintact

section
variable {st : Settings} {e : StepEnv σ} {s : GraphState}

theorem localLlm_canned {canned : String} (h : s.cannedReply.filter (· ≠ "") = some canned) :
    localLlm st e s = .ok (replied s canned {}) := by
  rw [localLlm, h]

theorem localLlm_fault {fault : Fault} (h : s.cannedReply.filter (· ≠ "") = none)
    (hcompose : compose st e.worker = .error fault) : localLlm st e s = .error fault := by
  rw [localLlm, h, hcompose]
  rfl

theorem localLlm_composed {result : Except WorkerFailure String} {usage : TokenUsage}
    (h : s.cannedReply.filter (· ≠ "") = none) (hcompose : compose st e.worker = .ok (result, usage)) :
    ∃ usage', localLlm st e s = .ok (replied s (spoken result) usage') := by
  rw [localLlm, h, hcompose]
  cases result with
  | ok text => exact ⟨usage, rfl⟩
  | error failure => exact ⟨{}, rfl⟩

end

/-- What `local_llm` does and hands to `_emit`: with a canned reply; with a client that cannot
    be made; with the cloud model's answer; and with the local model's. -/
theorem localLlm_cases (st : Settings) (e : ModelEnv σ) (s : GraphState) :
    (∃ canned, s.cannedReply.filter (· ≠ "") = some canned ∧ emitted st e s = [canned] ∧
      localLlm st (e.seen s) s = .ok (replied s canned {})) ∨
    (s.cannedReply.filter (· ≠ "") = none ∧
      ((st.localCompose = false ∧ ∃ fault, e.client = .error fault ∧ emitted st e s = [] ∧
          localLlm st (e.seen s) s = .error fault) ∨
        (st.localCompose = false ∧ ∃ client usage, e.client = .ok client ∧ cloudFails client e.cloud = false ∧
          emitted st e s = e.cloud.pieces ∧
          localLlm st (e.seen s) s = .ok (replied s (String.join e.cloud.pieces) usage)) ∨
        ((st.localCompose = true ∨ ∃ client, e.client = .ok client ∧ cloudFails client e.cloud = true) ∧
          ∃ parts result reported usage, generateLocal s e.ollama = (parts, result, reported) ∧ emitted st e s = parts ∧
            localLlm st (e.seen s) s = .ok (replied s (spoken result) usage)))) := by
  unfold emitted
  cases hcanned : s.cannedReply.filter (· ≠ "") with
  | some canned => exact Or.inl ⟨canned, rfl, rfl, localLlm_canned hcanned⟩
  | none =>
    refine Or.inr ⟨rfl, ?_⟩
    obtain ⟨parts, result, reported, hgen⟩ :
        ∃ parts result reported, generateLocal s e.ollama = (parts, result, reported) := ⟨_, _, _, rfl⟩
    rcases compose_cases st e s with ⟨hlc, hcompose⟩ | ⟨hlc, fault, hclient, hcompose⟩ |
      ⟨hlc, client, hclient, hworks, hcloud, hcompose⟩ | ⟨hlc, client, failure, usage, hclient, hfails, hcloud, hcompose⟩
    · rw [hgen] at hcompose
      obtain ⟨usage, hnode⟩ := localLlm_composed hcanned hcompose
      exact Or.inr (Or.inr ⟨Or.inl hlc, parts, result, reported, usage, hgen, by simp [hlc, hgen], hnode⟩)
    · exact Or.inl ⟨hlc, fault, hclient, by simp [hlc, hclient], localLlm_fault hcanned hcompose⟩
    · obtain ⟨usage, hnode⟩ := localLlm_composed hcanned hcompose
      exact Or.inr (Or.inl ⟨hlc, client, usage, hclient, hworks, by simp [hlc, hclient, hcloud], hnode⟩)
    · rw [hgen] at hcompose
      obtain ⟨usage', hnode⟩ := localLlm_composed hcanned hcompose
      exact Or.inr (Or.inr ⟨Or.inr ⟨client, hclient, hfails⟩, parts, result, reported, usage', hgen,
        by simp [hlc, hclient, hcloud, hgen], hnode⟩)

/-- Where the cloud model's answer is kept, the local model is not asked. -/
theorem not_asked_of_works {st : Settings} {e : ModelEnv σ} {client : CloudClient} (hlc : st.localCompose = false)
    (hclient : e.client = .ok client) (hworks : cloudFails client e.cloud = false) :
    ¬ (st.localCompose = true ∨ ∃ client, e.client = .ok client ∧ cloudFails client e.cloud = true) := by
  intro h
  simp [hlc, hclient, hworks] at h

/-- What `local_llm` hands to `_emit` is the reply it records, or nothing, exactly where it
    keeps the reply. -/
theorem localLlm_spoken (st : Settings) (c : Conf σ) (e : ModelEnv σ) (hp : c.place = .at .localLlm) :
    (∃ fault, localLlm st (e.seen c.st) c.st = .error fault ∧ emitted st e c.st = [] ∧ KeepsTheReply st c e) ∨
      ∃ text usage, localLlm st (e.seen c.st) c.st = .ok (replied c.st text usage) ∧
        ((emitted st e c.st = [] ∨ String.join (emitted st e c.st) = text) ↔ KeepsTheReply st c e) := by
  unfold KeepsTheReply
  rcases localLlm_cases st e c.st with ⟨canned, hcanned, hemitted, hnode⟩ |
    ⟨hcanned, ⟨hlc, fault, hclient, hemitted, hnode⟩ | ⟨hlc, client, usage, hclient, hworks, hemitted, hnode⟩ |
      ⟨hasked, parts, result, reported, usage, hgen, hemitted, hnode⟩⟩
  · refine Or.inr ⟨canned, {}, hnode, iff_of_true (Or.inr (by simp [hemitted])) fun _ hnone => ?_⟩
    rw [hcanned] at hnone
    cases hnone
  · refine Or.inl ⟨fault, hnode, hemitted, fun _ _ hasked => ?_⟩
    simp [hlc, hclient] at hasked
  · exact Or.inr ⟨_, usage, hnode, iff_of_true (Or.inr (by rw [hemitted])) fun _ _ hasked =>
      absurd hasked (not_asked_of_works hlc hclient hworks)⟩
  · refine Or.inr ⟨_, usage, hnode, ?_⟩
    simp only [hp, hcanned, hasked, forall_const]
    rw [hemitted]
    exact generateLocal_spoken c.st e.ollama hgen

/-- Events without a token of their own send none, and leave the flag. -/
theorem watch_toolCalls (w : Watch) (events : List StreamEvent)
    (h : ∀ ev ∈ events, ∃ call result, ev = .toolCall call result) :
    tokens (Machine.outs watch w events).flatten = [] := by
  induction events generalizing w with
  | nil => rfl
  | cons ev events ih =>
    obtain ⟨call, result, rfl⟩ := h ev List.mem_cons_self
    simp only [Machine.outs_cons, List.flatten_cons, tokens_append]
    exact ih w fun ev hev => h ev (List.mem_cons_of_mem _ hev)

theorem customEvents_toolExecution (st : Settings) (e : ModelEnv σ) (s : GraphState) :
    ∀ ev ∈ customEvents st e s .toolExecution, ∃ call result, ev = .toolCall call result := by
  intro ev hev
  simp only [customEvents] at hev
  split at hev
  · cases hev
  · rw [← List.map_uncurry_zip_eq_zipWith] at hev
    obtain ⟨⟨call, result⟩, -, rfl⟩ := List.mem_map.mp hev
    exact ⟨call, result, rfl⟩

/-- A node's start sends nothing; the tokens after it are those of the custom events and of
    its end. -/
theorem tokens_chainStart (w : Watch) (n : GraphNode) (events : List StreamEvent) :
    tokens (Machine.outs watch w (.chainStart n :: events)).flatten =
      tokens (Machine.outs watch (watch w (.chainStart n)).1 events).flatten := rfl

theorem tokens_chainEnd (w : Watch) (n : GraphNode) (u : Update) (h : n ≠ .localLlm) :
    tokens (watch w (.chainEnd n u)).2 = [] := by
  simp only [watch, if_neg h]
  split <;> rfl

theorem tokens_reply (w : Watch) (u : Update) :
    tokens (watch w (.chainEnd .localLlm u)).2 =
      if w.streamedLocalTokens then [] else (u.messages.filter (·.content ≠ "")).map (·.content) := by
  simp only [watch, if_true]
  split
  · rfl
  · simp [tokens, List.filterMap_map]

/-- The tokens the client is sent for one superstep. -/
theorem streamStep_tokens (st : Settings) (c : Conf σ) (e : ModelEnv σ) (w : Watch) :
    tokens (Machine.outs watch w (streamStep st c e).2).flatten =
      match c.place, (modelStep st c e).2 with
      | .at .localLlm, none => emitted st e c.st
      | .at .localLlm, some u =>
        if emitted st e c.st = [] then (u.messages.filter (·.content ≠ "")).map (·.content) else emitted st e c.st
      | _, _ => [] := by
  cases hp : c.place with
  | finished => simp [streamStep, hp, tokens]
  | raised fault => simp [streamStep, hp, tokens]
  | «at» n =>
    cases hu : (modelStep st c e).2 with
    | none =>
      have hevents : (streamStep st c e).2 = .chainStart n :: customEvents st e c.st n := by simp [streamStep, hp, hu]
      rw [hevents, tokens_chainStart]
      cases n with
      | supervisor => rfl
      | toolExecution => exact watch_toolCalls _ _ (customEvents_toolExecution st e c.st)
      | localLlm => exact (watch_tokens _ _).1
    | some u =>
      have hevents : (streamStep st c e).2 = .chainStart n :: (customEvents st e c.st n ++ [.chainEnd n u]) := by
        simp [streamStep, hp, hu]
      rw [hevents, tokens_chainStart]
      simp only [Machine.outs_append, List.flatten_append, tokens_append, Machine.outs_cons, Machine.outs_nil,
        List.flatten_cons, List.flatten_nil, List.append_nil]
      cases n with
      | supervisor => rw [tokens_chainEnd _ _ u (by decide)]; rfl
      | toolExecution =>
        rw [watch_toolCalls _ _ (customEvents_toolExecution st e c.st), tokens_chainEnd _ _ u (by decide)]
        rfl
      | localLlm =>
        obtain ⟨htokens, hflag⟩ := watch_tokens (watch w (.chainStart .localLlm)).1 (emitted st e c.st)
        rw [show customEvents st e c.st .localLlm = (emitted st e c.st).map .token from rfl, htokens, tokens_reply,
          hflag]
        cases emitted st e c.st with
        | nil => rfl
        | cons text texts => simp

/-! ## Whole runs -/

/-- The events only watch the run. -/
theorem streamRun_final (st : Settings) (c : Conf σ) (envs : List (ModelEnv σ)) :
    Machine.final (streamStep st) c envs = Machine.final (modelStep st) c envs := by
  induction envs generalizing c with
  | nil => rfl
  | cons e envs ih => exact ih (modelStep st c e).1

theorem toolExecution_messages {e : StepEnv σ} {s : GraphState} {u : Update} (h : toolExecution e s = .ok u) :
    ∀ m ∈ u.messages, m.source = .toolExecution := by
  unfold toolExecution at h
  split at h
  · obtain rfl := Except.ok.inj h
    simp
  · cases hr : (requestedToolCalls s).mapM fun c => e.dispatchTool c s.userId with
    | error e => simp [hr, bind, Except.bind] at h
    | ok results =>
      simp only [hr, bind, Except.bind, pure, Except.pure] at h
      obtain rfl := Except.ok.inj h
      intro m hm
      rw [← List.map_uncurry_zip_eq_zipWith] at hm
      obtain ⟨_, -, rfl⟩ := List.mem_map.mp hm
      rfl

theorem supervisor_messages {st : Settings} {e : StepEnv σ} {s : GraphState} {db db' : σ} {u : Update}
    (h : supervisor st e s db = .ok (u, db')) : ∀ m ∈ u.messages, m.source = .supervisor := by
  rcases supervisor_cases h with ⟨-, rfl, -⟩ | ⟨-, -, rfl, -⟩ | ⟨-, -, -, failure, usage, -, rfl⟩ |
    ⟨-, -, decision, usage, calls, canned, d, -, -, rfl⟩
  · unfold stepBound
    split <;> simp
  · simp [fastPath]
  · simp [degraded]
  · simp [draftUpdate]

/-- Only `local_llm` records a reply. -/
theorem runNode_replies {st : Settings} {e : StepEnv σ} {n : GraphNode} {s : GraphState} {db db' : σ} {u : Update}
    (h : runNode st e n s db = .ok (u, db')) (hn : n ≠ .localLlm) :
    .localLlm ∉ u.visited ∧ u.messages.filter (·.source = .localLlm) = [] := by
  cases n with
  | localLlm => exact absurd rfl hn
  | supervisor =>
    refine ⟨by rw [(supervisor_counts h).2]; simp, ?_⟩
    simp only [List.filter_eq_nil_iff, decide_eq_true_eq]
    intro m hm
    rw [supervisor_messages h m hm]
    decide
  | toolExecution =>
    have hnode := (runNode_worker h).1
    refine ⟨?_, ?_⟩
    · obtain ⟨messages, executedCalls, rfl⟩ := toolExecution_update hnode
      simp
    · simp only [List.filter_eq_nil_iff, decide_eq_true_eq]
      intro m hm
      rw [toolExecution_messages hnode m hm]
      decide

def sentTokens (st : Settings) (c : Conf σ) (envs : List (ModelEnv σ)) : List String :=
  tokens (Machine.outs watch {} (Machine.outs (streamStep st) c envs).flatten).flatten

theorem tokens_astreamRun (st : Settings) (c : Conf σ) (envs : List (ModelEnv σ)) :
    tokens (astreamRun st c envs) = sentTokens st c envs := by
  unfold astreamRun
  simp only [tokens_append]
  rw [show sentTokens st c envs = tokens (Machine.outs watch {} (Machine.outs (streamStep st) c envs).flatten).flatten
    from rfl]
  split <;> simp [tokens]

theorem sentTokens_snoc (st : Settings) (c : Conf σ) (envs : List (ModelEnv σ)) (e : ModelEnv σ) :
    ∃ w, sentTokens st c (envs ++ [e]) = sentTokens st c envs ++
      tokens (Machine.outs watch w (streamStep st (Machine.final (modelStep st) c envs) e).2).flatten := by
  refine ⟨Machine.final watch {} (Machine.outs (streamStep st) c envs).flatten, ?_⟩
  simp only [sentTokens, Machine.outs_append, List.flatten_append, Machine.outs_cons, Machine.outs_nil,
    List.flatten_cons, List.flatten_nil, List.append_nil, tokens_append, streamRun_final]

/-- How far the tokens of a run and its recorded reply have come: where there is one, the two
    stand in the relation `R` exactly when `kept` holds. -/
def Told (R : List String → String → Prop) (c : Conf σ) (sent : List String) (kept : Prop) : Prop :=
  (.localLlm ∉ c.st.visited ∧ c.st.replies = [] ∧ sent = [] ∧ kept) ∨
    (.localLlm ∈ c.st.visited ∧ ∃ m, c.st.replies = [m] ∧ (R sent m.content ↔ kept))

/-- What the client is sent for a composition: the tokens handed to `_emit`, or the reply. -/
def sentFor (st : Settings) (c : Conf σ) (e : ModelEnv σ) (text : String) : List String :=
  if emitted st e c.st = [] then [text].filter (· ≠ "") else emitted st e c.st

/-- What a run's tokens are to its reply, by the step that composes: a condition on steps
    that says nothing of any other. -/
structure Judges (st : Settings) (R : List String → String → Prop) (C : Conf σ → ModelEnv σ → Prop) : Prop where
  elsewhere : ∀ c e, c.place ≠ .at .localLlm → C c e
  fault : ∀ c e fault, c.place = .at .localLlm → localLlm st (e.seen c.st) c.st = .error fault → C c e
  reply : ∀ c e text usage, c.place = .at .localLlm → localLlm st (e.seen c.st) c.st = .ok (replied c.st text usage) →
    (R (sentFor st c e text) text ↔ C c e)

section
variable {st : Settings} {R : List String → String → Prop} {C : Conf σ → ModelEnv σ → Prop}

/-- The one composition of the run. -/
theorem told_localLlm (hC : Judges st R C) {c : Conf σ} (e : ModelEnv σ) (w : Watch) {sent : List String} {kept : Prop}
    (hinv : Inv c) (hp : c.place = .at .localLlm) (h : Told R c sent kept) :
    Told R (modelStep st c e).1 (sent ++ tokens (Machine.outs watch w (streamStep st c e).2).flatten) (kept ∧ C c e) := by
  have hphase := hinv.phase
  simp only [Phase, hp] at hphase
  obtain ⟨-, hreplies, rfl, hkept⟩ : .localLlm ∉ c.st.visited ∧ c.st.replies = [] ∧ sent = [] ∧ kept :=
    h.resolve_right fun hv => hphase.2.1 hv.1
  rw [streamStep_tokens]
  simp only [hp, List.nil_append]
  rcases localLlm_spoken st c e hp with ⟨fault, hnode, hsent, -⟩ | ⟨text, usage, hnode, -⟩
  · have hstep : modelStep st c e = ({ c with place := .raised fault }, none) := by
      simp [modelStep, superstep, hp, runNode, hnode, Except.map]
    rw [hstep]
    exact Or.inl ⟨hphase.2.1, hreplies, hsent, hkept, hC.fault c e fault hp hnode⟩
  · have hstep : modelStep st c e =
        (c.after .localLlm (replied c.st text usage) c.db, some (replied c.st text usage)) := by
      simp [modelStep, superstep, hp, runNode, hnode, Except.map]
    rw [hstep]
    refine Or.inr ⟨List.mem_append_right _ (List.mem_singleton_self _), ⟨.localLlm, text, c.st.step⟩, ?_, ?_⟩
    · show (c.st.messages ++ [(⟨.localLlm, text, c.st.step⟩ : Message)]).filter (·.source = .localLlm) = _
      rw [List.filter_append, show c.st.messages.filter (·.source = .localLlm) = [] from hreplies]
      rfl
    · have hsent : (if emitted st e c.st = [] then
          ((replied c.st text usage).messages.filter (·.content ≠ "")).map (·.content) else emitted st e c.st) =
          sentFor st c e text := by
        unfold sentFor
        by_cases htext : text = "" <;> simp [replied, htext]
      show R (if emitted st e c.st = [] then
        ((replied c.st text usage).messages.filter (·.content ≠ "")).map (·.content) else emitted st e c.st) text ↔ _
      rw [and_iff_right hkept, hsent, hC.reply c e text usage hp hnode]

/-- Every other step: no token is sent and no reply recorded. -/
theorem told_elsewhere (hC : Judges st R C) {c : Conf σ} (e : ModelEnv σ) (w : Watch) {sent : List String}
    {kept : Prop} (hp : c.place ≠ .at .localLlm) (h : Told R c sent kept) :
    Told R (modelStep st c e).1 (sent ++ tokens (Machine.outs watch w (streamStep st c e).2).flatten) (kept ∧ C c e) := by
  have hsilent : tokens (Machine.outs watch w (streamStep st c e).2).flatten = [] := by
    rw [streamStep_tokens]
    split <;> first | rfl | exact absurd ‹_› hp
  rw [hsilent, List.append_nil, and_iff_left (hC.elsewhere c e hp)]
  rcases superstep_cases st c (e.seen c.st) with ⟨-, hs⟩ | ⟨n, fault, -, -, hs⟩ | ⟨n, u, db, hn, hrun, hs⟩
  · rw [show modelStep st c e = _ from hs]; exact h
  · rw [show modelStep st c e = _ from hs]; exact h
  · rw [show modelStep st c e = _ from hs]
    obtain ⟨hvisited, hnone⟩ := runNode_replies hrun fun hlocal => hp (hlocal ▸ hn)
    have hreplies : (c.after n u db).st.replies = c.st.replies := by
      show (c.st.messages ++ u.messages).filter (·.source = .localLlm) = c.st.messages.filter (·.source = .localLlm)
      rw [List.filter_append, hnone, List.append_nil]
    have hv : .localLlm ∈ (c.after n u db).st.visited ↔ .localLlm ∈ c.st.visited := by
      show .localLlm ∈ c.st.visited ++ u.visited ↔ _
      simp [hvisited]
    unfold Told
    rw [hreplies, hv]
    exact h

theorem told_superstep (hC : Judges st R C) {c : Conf σ} (e : ModelEnv σ) (w : Watch) {sent : List String}
    {kept : Prop} (hinv : Inv c) (h : Told R c sent kept) :
    Told R (modelStep st c e).1 (sent ++ tokens (Machine.outs watch w (streamStep st c e).2).flatten) (kept ∧ C c e) := by
  by_cases hp : c.place = .at .localLlm
  · exact told_localLlm hC e w hinv hp h
  · exact told_elsewhere hC e w hp h

theorem told_run (hC : Judges st R C) (t : Turn) (db : σ) (envs : List (ModelEnv σ)) :
    Told R (Machine.final (modelStep st) (start t db) envs) (sentTokens st (start t db) envs)
      (Machine.Meets (modelStep st) C (start t db) envs) := by
  induction envs using List.reverseRecOn with
  | nil => exact Or.inl ⟨by simp [start, initialState], rfl, rfl, fun ev hev => by cases hev⟩
  | append_singleton envs e ih =>
    obtain ⟨w, hsent⟩ := sentTokens_snoc st (start t db) envs e
    have hmeets : Machine.Meets (modelStep st) C (start t db) (envs ++ [e]) ↔
        Machine.Meets (modelStep st) C (start t db) envs ∧ C (Machine.final (modelStep st) (start t db) envs) e := by
      rw [Machine.meets_append, Machine.meets_cons]
      exact and_congr_right' (and_iff_left fun ev hev => by cases hev)
    rw [Machine.final_snoc, hsent, hmeets]
    exact told_superstep hC e w (inv_modelRun st t db envs) ih

end

theorem replied_text {s : GraphState} {text text' : String} {usage usage' : TokenUsage}
    (h : replied s text usage = replied s text' usage') : text = text' := by
  have hmessages := congrArg (fun u : Update => u.messages.map (·.content)) h
  simpa [replied] using hmessages

/-- A condition is judged by what the one composition comes to. -/
theorem judges_of_reply {st : Settings} {R : List String → String → Prop} {C : Conf σ → ModelEnv σ → Prop}
    (helsewhere : ∀ c e, c.place ≠ .at .localLlm → C c e)
    (hreply : ∀ c e, c.place = .at .localLlm →
      (∃ fault, localLlm st (e.seen c.st) c.st = .error fault ∧ C c e) ∨
        ∃ text usage, localLlm st (e.seen c.st) c.st = .ok (replied c.st text usage) ∧
          (R (sentFor st c e text) text ↔ C c e)) : Judges st R C where
  elsewhere := helsewhere
  fault c e fault hp hnode := by
    rcases hreply c e hp with ⟨_, -, hC⟩ | ⟨text, usage, hok, -⟩
    · exact hC
    · rw [hnode] at hok
      cases hok
  reply c e text usage hp hnode := by
    rcases hreply c e hp with ⟨fault, hfault, -⟩ | ⟨text', usage', hok, hC⟩
    · rw [hnode] at hfault
      cases hfault
    · rw [hnode] at hok
      rw [replied_text (Except.ok.inj hok)]
      exact hC

/-- The tokens spell the reply of the composition that keeps it. -/
theorem judges_spelling (st : Settings) :
    Judges st (fun sent text => String.join sent = text) (KeepsTheReply st : Conf σ → ModelEnv σ → Prop) := by
  refine judges_of_reply (fun _ _ hp h => absurd h hp) fun c e hp => ?_
  rcases localLlm_spoken st c e hp with ⟨fault, hnode, -, hkeeps⟩ | ⟨text, usage, hnode, hkeeps⟩
  · exact Or.inl ⟨fault, hnode, hkeeps⟩
  · refine Or.inr ⟨text, usage, hnode, ?_⟩
    rw [← hkeeps]
    unfold sentFor
    cases emitted st e c.st with
    | nil => by_cases htext : text = "" <;> simp [htext]
    | cons piece pieces => simp

/-- How far the tokens of a run and its recorded reply have come. -/
def Said (c : Conf σ) (sent : List String) (kept : Prop) : Prop :=
  (.localLlm ∉ c.st.visited ∧ c.st.replies = [] ∧ sent = [] ∧ kept) ∨
    (.localLlm ∈ c.st.visited ∧ ∃ m, c.st.replies = [m] ∧ (String.join sent = m.content ↔ kept))

theorem said_run (st : Settings) (t : Turn) (db : σ) (envs : List (ModelEnv σ)) :
    Said (Machine.final (modelStep st) (start t db) envs) (sentTokens st (start t db) envs)
      (Machine.Meets (modelStep st) (KeepsTheReply st) (start t db) envs) :=
  told_run (judges_spelling st) t db envs

/-- Over every run: the streamed turn ends in the state of the turn that does not stream, and
    its tokens spell the recorded reply if and only if the local model, where it composes,
    does not break off in the middle of its answer. -/
theorem streamed_reply_iff (st : Settings) (t : Turn) (db : σ) (envs : List (ModelEnv σ)) :
    Machine.final (streamStep st) (start t db) envs = Machine.final (modelStep st) (start t db) envs ∧
      (StreamedAsRecorded (Machine.final (modelStep st) (start t db) envs) (astreamRun st (start t db) envs) ↔
        Machine.Meets (modelStep st) (KeepsTheReply st) (start t db) envs) := by
  refine ⟨streamRun_final st _ envs, ?_⟩
  unfold StreamedAsRecorded
  rw [tokens_astreamRun]
  rcases said_run st t db envs with ⟨-, hnone, -, hkept⟩ | ⟨-, m, hone, hkept⟩
  · rw [hnone]
    exact iff_of_true (fun m hm => by cases hm) hkept
  · rw [hone, ← hkept]
    exact List.forall_mem_singleton

def brokenAnswer : ModelEnv (Plans.Key → Plans.Slot (List Call)) :=
  { answering "" with
    ollama := ⟨.ok 200, [.body { response := some (some "The game ") }, .body { response := some (some "is at") }],
      some ⟨.timeout, "ReadTimeout"⟩⟩ }

/-- The client reads the answer so far, and the turn records a failure in its place. -/
theorem a_broken_stream_records_another_reply :
    (Machine.final (modelStep { pyd := strict }) (start calendarQuestion emptyDb) (List.replicate 3 brokenAnswer)).place =
        .finished ∧
      (Machine.final (modelStep { pyd := strict }) (start calendarQuestion emptyDb)
        (List.replicate 3 brokenAnswer)).st.replies.map (·.content) = ["local inference failure: timeout"] ∧
      tokens (astreamRun { pyd := strict } (start calendarQuestion emptyDb) (List.replicate 3 brokenAnswer)) =
        ["The game ", "is at"] ∧
      ¬ StreamedAsRecorded
        (Machine.final (modelStep { pyd := strict }) (start calendarQuestion emptyDb) (List.replicate 3 brokenAnswer))
        (astreamRun { pyd := strict } (start calendarQuestion emptyDb) (List.replicate 3 brokenAnswer)) := by
  have hsent : tokens (astreamRun { pyd := strict } (start calendarQuestion emptyDb) (List.replicate 3 brokenAnswer)) =
      ["The game ", "is at"] := by decide +kernel
  refine ⟨by decide +kernel, by decide +kernel, hsent, fun h => ?_⟩
  have hreply := h ⟨.localLlm, "local inference failure: timeout", 1⟩ (by decide +kernel)
  rw [hsent] at hreply
  exact absurd hreply (by decide)

end CoreHeartbeat.Graph
