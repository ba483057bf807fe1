/-
  CoreHeartbeat.Graph.Nodes — the three nodes of the graph (`supervisor`, `local_llm`,
  `tool_execution` in `orchestrator.py`).

  What the models, the tools and the plan store do in one node execution is given from outside
  (`StepEnv`): any reply, any failure, any exception that the node does not catch. `supervisor`
  is split where the source consults the router: before that stand the step bound and the fast
  path (`answeredBefore`), after it the guards of `finishRouting`.

  The supervisor tries the native router first where it is switched on and the model can call
  tools; a native failure falls through to the structured path, which is retried a bounded
  number of times and then degrades to a fixed answer. `local_llm` composes with the cloud model
  where one is configured and falls back to the local one; `tool_execution` runs the batch it is
  handed, or the single request, in order, and records what it ran.

  A node returns an update or lets an exception out. The lemmas here are the specification of
  the nodes for what follows, so that no later proof unfolds one:
  - `supervisor_cases`: everything the supervisor returns, with the guard of each way.
  - `localLlm_update`, `toolExecution_update`: each counts one step, is the only node it visits,
    and decides nothing.
  - `writeGate_finish`: the guards never turn a run to `finish` on their own.
-/

import CoreHeartbeat.Graph.FinishRouting

namespace CoreHeartbeat.Graph

def maxSteps : Nat := 8

def recursionLimit : Nat := 25

def maxRoutingRetries : Nat := 2

def retryableRoutingCategories : List FailureCategory := [.timeout, .network, .invalidOutput]

def toolUsage : TokenUsage := ⟨5, 0, 5⟩

abbrev Routed (α : Type) := Except RoutingFailure α × TokenUsage

structure Router where
  /-- `get_client`: `some detail` when there is no client for the model preference. -/
  noClient : Except Fault (Option String)
  /-- The tool calls of the native response. -/
  native : Except Fault (Routed (List Call))
  /-- `request_routing_decision`, by attempt. -/
  request : Nat → Except Fault (Routed RoutingDecision)

structure Worker where
  generateLocal : Except Fault (Except WorkerFailure String × TokenUsage)
  generateCloud : Except Fault (Except WorkerFailure String × TokenUsage)

/-- What one node execution finds outside the graph. -/
structure StepEnv (σ : Type) where
  router : Router
  savedRef : String → String → Except Fault (Option String)
  store : PlanStore σ
  worker : Worker
  dispatchTool : Call → String → Except Fault String

structure Settings where
  cfg : Config := {}
  pyd : Pydantic
  localCompose : Bool := true

/-! ## The supervisor -/

def degraded (step : Nat) (failure : RoutingFailure) (usage : TokenUsage) : Update where
  next := some .finish
  status := some .degraded
  step := 1
  usage := usage
  messages := [⟨.supervisor, "routing failure: " ++ failure.category.str, step⟩]

/-- The step bound: compose what there is, once, then finish. -/
def stepBound (s : GraphState) : Update :=
  if .localLlm ∉ s.visited then
    { next := some .localLlm
      status := some .haltedStepBound
      step := 1
      truncated := some true
      toolRequest := some none
      toolCalls := some none
      pendingPlan := some none
      planNote := some none
      messages := [⟨.supervisor, "route -> local_llm (step bound: compose what we have)", s.step⟩] }
  else
    { next := some .finish
      status := some .haltedStepBound
      step := 1
      messages := [⟨.supervisor, "route -> finish (step bound)", s.step⟩] }

/-- The fast path: `local_llm` has replied. -/
def fastPath (s : GraphState) : Update where
  next := some .finish
  status := some .completed
  step := 1
  toolRequest := some none
  toolCalls := some none
  pendingPlan := some none
  planNote := some none
  messages := [⟨.supervisor, "route -> finish (fast-path: answered)", s.step⟩]

def answeredBefore (s : GraphState) : Option Update :=
  if maxSteps ≤ s.step then some (stepBound s)
  else if .localLlm ∈ s.visited then some (fastPath s)
  else none

inductive Consulted where
  | degraded (failure : RoutingFailure) (usage : TokenUsage)
  | decided (decision : RoutingDecision) (usage : TokenUsage) (nativeCalls : List Call)

/-- The bounded retry, from attempt `attempt` on with `left` attempts after it. -/
def retry (request : Nat → Except Fault (Routed RoutingDecision)) (left attempt : Nat) (usage : TokenUsage) :
    Except Fault (Routed RoutingDecision) :=
  match request attempt with
  | .error e => .error e
  | .ok (.ok decision, callUsage) => .ok (.ok decision, addUsage usage callUsage)
  | .ok (.error failure, callUsage) =>
    match left with
    | 0 => .ok (.error failure, addUsage usage callUsage)
    | left + 1 =>
      if failure.category ∈ retryableRoutingCategories then retry request left (attempt + 1) (addUsage usage callUsage)
      else .ok (.error failure, addUsage usage callUsage)

def structuredRouting (r : Router) : Except Fault Consulted := do
  match ← retry r.request maxRoutingRetries 1 {} with
  | (.ok decision, usage) => return .decided decision usage []
  | (.error failure, usage) => return .degraded failure usage

/-- `_decide_native` from the response on: names that no tool has are dropped. -/
def nativeCalls (response : List Call) : List Call := response.filter fun c => dispatchableTools.contains c.name

def consult (st : Settings) (r : Router) : Except Fault Consulted := do
  match ← r.noClient with
  | some detail => return .degraded ⟨.missingCredential, detail⟩ {}
  | none =>
    if st.cfg.nativeToolCalling then
      match ← r.native with
      | (.ok response, usage) =>
        let calls := nativeCalls response
        match nativeDecision st.pyd (if calls.isEmpty then .localLlm else .toolExecution) calls with
        | some decision => return .decided decision usage calls
        | none => throw "validation error for ToolArgs"
      | (.error _, _) => structuredRouting r
    else structuredRouting r

variable {σ : Type}

def supervisor (st : Settings) (e : StepEnv σ) (s : GraphState) (db : σ) : Except Fault (Update × σ) :=
  match answeredBefore s with
  | some u => .ok (u, db)
  | none =>
    match consult st e.router with
    | .error fault => .error fault
    | .ok (.degraded failure usage) => .ok (degraded s.step failure usage, db)
    | .ok (.decided decision usage calls) => finishRouting st.cfg e.savedRef e.store s s.step decision usage calls db

/-! ## The workers -/

/-- The cloud model, when configured, with the local one as fallback. -/
def compose (st : Settings) (w : Worker) : Except Fault (Except WorkerFailure String × TokenUsage) :=
  if st.localCompose then w.generateLocal
  else do
    match ← w.generateCloud with
    | (.ok text, usage) => return (.ok text, usage)
    | (.error _, _) => w.generateLocal

def replied (s : GraphState) (text : String) (usage : TokenUsage) : Update where
  messages := [⟨.localLlm, text, s.step⟩]
  usage := usage
  visited := [.localLlm]
  step := 1

def localLlm (st : Settings) (e : StepEnv σ) (s : GraphState) : Except Fault Update :=
  match s.cannedReply.filter (· ≠ "") with
  | some canned => .ok (replied s canned {})
  | none => do
    match ← compose st e.worker with
    | (.ok text, usage) => return replied s text usage
    | (.error failure, _) => return replied s ("local inference failure: " ++ failure.category.str) {}

def toolExecution (e : StepEnv σ) (s : GraphState) : Except Fault Update := do
  match requestedToolCalls s with
  | [] =>
    return { messages := [⟨.toolExecution, "[stub] tool executed", s.step⟩], usage := toolUsage,
             visited := [.toolExecution], step := 1 }
  | calls =>
    let results ← calls.mapM fun c => e.dispatchTool c s.userId
    return { messages := calls.zipWith (fun c result => ⟨.toolExecution, "[tool:" ++ c.name ++ "] " ++ result, s.step⟩)
               results,
             usage := toolUsage, visited := [.toolExecution], step := 1,
             executedCalls := calls.map callSignature }

/-! ## What each node can do -/

theorem answeredBefore_eq_none_iff {s : GraphState} :
    answeredBefore s = none ↔ s.step < maxSteps ∧ .localLlm ∉ s.visited := by
  unfold answeredBefore
  by_cases hb : maxSteps ≤ s.step
  · simp only [hb, if_true, reduceCtorEq, false_iff, not_and]
    omega
  · by_cases hv : Node.localLlm ∈ s.visited
    · simp [hb, hv]
    · simp only [hb, hv, if_false, not_false_eq_true, and_true, true_iff]
      omega

/-- Everything the supervisor returns, with the guard of each way. -/
theorem supervisor_cases {st : Settings} {e : StepEnv σ} {s : GraphState} {db db' : σ} {u : Update}
    (h : supervisor st e s db = .ok (u, db')) :
    (maxSteps ≤ s.step ∧ u = stepBound s ∧ db' = db) ∨
    (s.step < maxSteps ∧ .localLlm ∈ s.visited ∧ u = fastPath s ∧ db' = db) ∨
    (s.step < maxSteps ∧ .localLlm ∉ s.visited ∧ db' = db ∧
      ∃ failure usage, consult st e.router = .ok (.degraded failure usage) ∧ u = degraded s.step failure usage) ∨
    (s.step < maxSteps ∧ .localLlm ∉ s.visited ∧
      ∃ decision usage calls canned d, consult st e.router = .ok (.decided decision usage calls) ∧
        writeGate st.cfg e.store s (repeatGuard st.cfg s (draft decision calls)) db = (d, db') ∧
        u = draftUpdate s.step usage canned d) := by
  unfold supervisor answeredBefore at h
  by_cases hb : maxSteps ≤ s.step
  · simp only [hb, if_true] at h
    obtain ⟨rfl, rfl⟩ := Prod.mk.inj (Except.ok.inj h)
    exact Or.inl ⟨hb, rfl, rfl⟩
  have hlt : s.step < maxSteps := by omega
  by_cases hv : Node.localLlm ∈ s.visited
  · simp only [hb, hv, if_true, if_false] at h
    obtain ⟨rfl, rfl⟩ := Prod.mk.inj (Except.ok.inj h)
    exact Or.inr (Or.inl ⟨hlt, hv, rfl, rfl⟩)
  simp only [hb, hv, if_false] at h
  cases hc : consult st e.router with
  | error fault => rw [hc] at h; cases h
  | ok r =>
    rw [hc] at h
    cases r with
    | degraded failure usage =>
      obtain ⟨rfl, rfl⟩ := Prod.mk.inj (Except.ok.inj h)
      exact Or.inr (Or.inr (Or.inl ⟨hlt, hv, rfl, failure, usage, rfl, rfl⟩))
    | decided decision usage calls =>
      obtain ⟨canned, -, ⟨hv', -, -⟩ | ⟨d, hd, hu⟩⟩ := finishRouting_cases h
      · exact absurd hv' hv
      · exact Or.inr (Or.inr (Or.inr ⟨hlt, hv, decision, usage, calls, canned, d, rfl, hd, hu⟩))

/-- A consulted router that decides is refused nothing but a failing document lookup. -/
theorem supervisor_ok {st : Settings} {e : StepEnv σ} {s : GraphState} (db : σ) {decision : RoutingDecision}
    {usage : TokenUsage} {calls : List Call} {canned : Option String} (h : answeredBefore s = none)
    (hc : consult st e.router = .ok (.decided decision usage calls))
    (hcanned : cannedFor e.savedRef s decision calls = .ok canned) : ∃ r, supervisor st e s db = .ok r := by
  simp only [supervisor, h, hc, finishRouting, hcanned, bind, Except.bind, pure, Except.pure]
  split <;> exact ⟨_, rfl⟩

/-- The guards never turn a run to `finish` on their own. -/
theorem writeGate_finish {cfg : Config} {store : PlanStore σ} {s : GraphState} {decision : RoutingDecision}
    {calls : List Call} {db db' : σ} {d : Draft}
    (h : writeGate cfg store s (repeatGuard cfg s (draft decision calls)) db = (d, db')) (hf : d.nxt = .finish) :
    decision.nextNode = .finish := by
  have hrep : ∀ d₀, (repeatGuard cfg s d₀).nxt = .finish → d₀.nxt = .finish := by
    intro d₀ h₀
    unfold repeatGuard at h₀
    split at h₀
    · exact h₀
    · exact h₀
    · split at h₀ <;> [cases h₀; exact h₀]
  have hgate : d.nxt = .finish → (repeatGuard cfg s (draft decision calls)).nxt = .finish := by
    intro hd
    unfold writeGate at h
    simp only at h
    split at h
    · split at h
      · cases h; cases hd
      · split at h <;> cases h <;> [cases hd; exact hd]
    · split at h <;> cases h <;> [cases hd; exact hd]
  exact hrep _ (hgate hf)

/-- `local_llm` counts one step, is the only node it visits, and decides nothing. -/
theorem localLlm_update {st : Settings} {e : StepEnv σ} {s : GraphState} {u : Update} (h : localLlm st e s = .ok u) :
    ∃ text usage, u = replied s text usage := by
  unfold localLlm at h
  split at h
  · exact ⟨_, _, (Except.ok.inj h).symm⟩
  · cases hc : compose st e.worker with
    | error e => simp [hc, bind, Except.bind] at h
    | ok r =>
      obtain ⟨r, usage⟩ := r
      cases r <;> simp only [hc, bind, Except.bind, pure, Except.pure] at h <;>
        exact ⟨_, _, (Except.ok.inj h).symm⟩

/-- `tool_execution` counts one step, is the only node it visits, and decides nothing. -/
theorem toolExecution_update {e : StepEnv σ} {s : GraphState} {u : Update} (h : toolExecution e s = .ok u) :
    ∃ messages executedCalls,
      u = { messages, usage := toolUsage, visited := [.toolExecution], step := 1, executedCalls } := by
  unfold toolExecution at h
  split at h
  · exact ⟨_, _, (Except.ok.inj h).symm⟩
  · cases hr : (requestedToolCalls s).mapM fun c => e.dispatchTool c s.userId with
    | error e => simp [hr, bind, Except.bind] at h
    | ok results =>
      simp only [hr, bind, Except.bind, pure, Except.pure] at h
      exact ⟨_, _, (Except.ok.inj h).symm⟩

end CoreHeartbeat.Graph
