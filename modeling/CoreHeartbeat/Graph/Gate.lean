/-
  CoreHeartbeat.Graph.Gate — what the guards of `_finish_routing` promise about a routing
  decision that names a tool.

  Two paths lead to `_finish_routing`. The native path hands over a batch of calls; the
  structured path hands over a decision for one tool and no batch. The comment over the guards
  says that both paths share them, so that they exist once; but the repeat-call guard and the
  write gate look at `calls` alone. The plan store and the lookup of saved documents are
  arbitrary, and so is the state that the decision is made in.

  The outcome of a decision is what the rest of the turn can see of it (`SameOutcome`): the next
  node, the plan that is pending, the store, and what `tool_execution` is handed.

  Proved:
  - `write_gate_safe_iff`: a native batch that needs confirmation is dispatched only as the
    stored plan an approval releases, except in one case: the user approves, no plan is stored,
    and what the repeat-call guard keeps of the batch that the model emitted afresh runs
    unconfirmed (`a_fresh_delete_runs_on_yes`).
  - `paths_agree_iff`: the two paths treat the same single call alike just when neither guard
    that only looks at native batches would act on it: the call is kept by the repeat-call guard
    (not already run, and its tool below its cap) and needs no confirmation
    (`a_structured_delete_runs_unconfirmed`).
-/

import CoreHeartbeat.Graph.FinishRouting

namespace CoreHeartbeat.Graph

open Plans (key)

variable {σ : Type} (cfg : Config) (savedRef : String → String → Except Fault (Option String)) (store : PlanStore σ)

/-! ## The write gate on the native path -/

/-- If the update dispatches a batch that needs confirmation, that batch is the stored plan
    which this call took, under an approval with no tool run before it. -/
def WriteGateSafe (s : GraphState) (db : σ) (u : Update) : Prop :=
  u.next = some .toolExecution → ∀ batch, u.toolCalls = some (some batch) → needsConfirmation cfg batch = true →
    (takePendingPlan store (key s.userId s.intent.chatId) db).1 = some batch ∧ confirmationGiven s = true ∧
      toolsRan s = false

theorem confirming_iff {s : GraphState} : confirming s = true ↔ confirmationGiven s = true ∧ toolsRan s = false := by
  simp [confirming]

/-- For every state, store and non-empty native batch: the write gate is safe unless the
    user approves with no plan stored and what is left of the model's own batch needs
    confirmation. -/
theorem write_gate_safe_iff (pyd : Pydantic) (s : GraphState) (step : Nat) (usage : TokenUsage) (db : σ)
    (calls : List Call) (decision : RoutingDecision) (hne : calls ≠ [])
    (hd : nativeDecision pyd .toolExecution calls = some decision) :
    ∃ u db', finishRouting cfg savedRef store s step decision usage calls db = .ok (u, db') ∧
      (WriteGateSafe cfg store s db u ↔
        ¬ (confirming s = true ∧ (takePendingPlan store (key s.userId s.intent.chatId) db).1 = none ∧
          freshCalls cfg s.executedCalls calls ≠ [] ∧
          needsConfirmation cfg (freshCalls cfg s.executedCalls calls) = true)) := by
  have hnode := nativeDecision_node hd
  obtain ⟨hcalls, hplan, hnxt⟩ := draft_native hnode hne
  refine ⟨_, _, finishRouting_tool cfg savedRef store s step usage calls db hnode, ?_⟩
  rw [repeatGuard_batch cfg s calls hcalls hne]
  set fresh := freshCalls cfg s.executedCalls calls with hfresh
  cases hc : confirming s with
  | true =>
    have hgiven := confirming_iff.mp hc
    rcases ht : takePendingPlan store (key s.userId s.intent.chatId) db with ⟨_ | plan, db'⟩
    · rw [writeGate_no_plan cfg store _ hc ht]
      by_cases hf : fresh = []
      · simp [hf, WriteGateSafe, draftUpdate]
      · simp [hf, WriteGateSafe, draftUpdate, hnxt, ht]
    · rw [writeGate_release cfg store _ hc ht]
      simp [WriteGateSafe, draftUpdate, ht, hgiven]
  | false =>
    by_cases hf : fresh = []
    · rw [writeGate_pass cfg store db hc (by simp [hf])]
      simp [hf, WriteGateSafe, draftUpdate]
    · cases hn : needsConfirmation cfg fresh with
      | true =>
        rw [writeGate_propose cfg store db fresh hc (by simp [hf]) hf hn]
        simp [WriteGateSafe, draftUpdate]
      | false =>
        rw [writeGate_pass cfg store db hc (by simp [hf, hn])]
        simp [hf, WriteGateSafe, draftUpdate, hn]

def replyState (rawInput : String) : GraphState :=
  initialState { rawInput, history := [⟨.assistant, "Shall I delete it?"⟩], chatId := some "chat" } "u1" "" []

def deleteCall : Call := ⟨"delete_calendar_event", [("event_id", .str "e1")]⟩

def deleteDecision : RoutingDecision :=
  { nextNode := .toolExecution, toolName := some .deleteCalendarEvent, toolArgs := { eventId := some "e1" } }

theorem write_gate_safe_iff_yes :
    ∃ u db', finishRouting {} (fun _ _ => .ok none) (pendingPlans 1800 reliableEnv 0) (replyState "yes") 0
        deleteDecision {} [deleteCall] emptyDb = .ok (u, db') ∧
      (WriteGateSafe {} (pendingPlans 1800 reliableEnv 0) (replyState "yes") emptyDb u ↔
        ¬ (confirming (replyState "yes") = true ∧
          (takePendingPlan (pendingPlans 1800 reliableEnv 0) (key "u1" (some "chat")) emptyDb).1 = none ∧
          freshCalls {} [] [deleteCall] ≠ [] ∧ needsConfirmation {} (freshCalls {} [] [deleteCall]) = true)) :=
  write_gate_safe_iff {} (fun _ _ => .ok none) (pendingPlans 1800 reliableEnv 0) strict (replyState "yes") 0 {}
    emptyDb [deleteCall] _ (by simp) rfl

/-- "Yes" with nothing stored, and a router that emits a delete of its own: it runs. -/
theorem a_fresh_delete_runs_on_yes :
    ∃ u db', finishRouting {} (fun _ _ => .ok none) (pendingPlans 1800 reliableEnv 0) (replyState "yes") 0
        deleteDecision {} [deleteCall] emptyDb = .ok (u, db') ∧
      ¬ WriteGateSafe {} (pendingPlans 1800 reliableEnv 0) (replyState "yes") emptyDb u := by
  refine ⟨_, _, rfl, fun h => ?_⟩
  have hplan : (none : Option (List Call)) = some [deleteCall] := (h rfl [deleteCall] rfl rfl).1
  cases hplan

/-! ## The two routing paths -/

/-- The call a structured decision for the tool `t` carries in `tool_request`. -/
def singleCall (t : ToolName) (decision : RoutingDecision) : Call := ⟨t.str, decision.toolArgs.modelDump⟩

/-- What `tool_execution` will run after the update: nothing when the run goes elsewhere. -/
def handed (s : GraphState) (u : Update) : List Call :=
  if u.next = some .toolExecution then requestedToolCalls (s.apply u) else []

/-- Two updates with the stores they leave are one outcome for the rest of the turn. -/
structure SameOutcome (s : GraphState) (a b : Update × σ) : Prop where
  next : a.1.next = b.1.next
  pendingPlan : a.1.pendingPlan = b.1.pendingPlan
  stored : a.2 = b.2
  handed : handed s a.1 = handed s b.1

/-- The draft of a structured decision for a tool: the guards that look at `calls` see none. -/
theorem draft_structured {decision : RoutingDecision} {t : ToolName} (h : decision.nextNode = .toolExecution)
    (ht : decision.toolName = some t) :
    draft decision [] = { nxt := .toolExecution, toolRequest := some (singleCall t decision), calls := none } := by
  simp [draft, h, ht, singleCall]

theorem draft_single {decision : RoutingDecision} {t : ToolName} (h : decision.nextNode = .toolExecution)
    (ht : decision.toolName = some t) :
    draft decision [singleCall t decision] =
      { nxt := .toolExecution, toolRequest := some (singleCall t decision),
        calls := some [singleCall t decision] } := by
  simp [draft, h, ht, singleCall]

theorem freshCalls_single (already : List String) (c : Call) :
    freshCalls cfg already [c] = [] ∨ freshCalls cfg already [c] = [c] := by
  simp only [freshCalls, List.filter_cons, List.filter_nil]
  split <;> simp

theorem handed_elsewhere (s : GraphState) (step : Nat) (usage : TokenUsage) (canned : Option String) {d : Draft}
    (h : d.nxt ≠ .toolExecution) : handed s (draftUpdate step usage canned d) = [] := by
  simp [handed, draftUpdate, h]

/-- A request that travels in `tool_request` alone and one that travels in `tool_calls` as
    well are handed over alike. -/
theorem handed_single (s : GraphState) (step : Nat) (usage : TokenUsage) (canned : Option String) {d : Draft} (c : Call)
    (hreq : d.toolRequest = some c) (hcalls : d.calls = none ∨ d.calls = some [c]) (hn : d.nxt = .toolExecution) :
    handed s (draftUpdate step usage canned d) = [c].filter fun c => dispatchableTools.contains c.name := by
  rcases hcalls with h | h <;> simp [handed, draftUpdate, requestedToolCalls, GraphState.apply, hreq, h, hn]

/-- For every state, store and decision for a tool: the structured path and the native path
    with the same single call have the same outcome exactly when no guard would act on the
    call. With an approval that is honoured now, that is a plan to release or a call that the
    repeat-call guard drops (one already run, or of a tool at its cap); without one, a call
    that the guard keeps and that needs no confirmation. -/
theorem paths_agree_iff (s : GraphState) (step : Nat) (usage : TokenUsage) (db : σ) (decision : RoutingDecision)
    (t : ToolName) (hnode : decision.nextNode = .toolExecution) (ht : decision.toolName = some t) :
    ∃ a b, finishRouting cfg savedRef store s step decision usage [] db = .ok a ∧
      finishRouting cfg savedRef store s step decision usage [singleCall t decision] db = .ok b ∧
      (SameOutcome s a b ↔
        if confirming s = true then
          (takePendingPlan store (key s.userId s.intent.chatId) db).1 ≠ none ∨
            freshCalls cfg s.executedCalls [singleCall t decision] = []
        else
          freshCalls cfg s.executedCalls [singleCall t decision] ≠ [] ∧
            needsConfirmation cfg [singleCall t decision] = false) := by
  refine ⟨_, _, finishRouting_tool cfg savedRef store s step usage [] db hnode,
    finishRouting_tool cfg savedRef store s step usage [singleCall t decision] db hnode, ?_⟩
  set c := singleCall t decision
  rw [draft_structured hnode ht, draft_single hnode ht, repeatGuard_none cfg s rfl,
    repeatGuard_batch cfg s [c] rfl (by simp)]
  cases hc : confirming s with
  | true =>
    rcases hplan : takePendingPlan store (key s.userId s.intent.chatId) db with ⟨_ | plan, db'⟩
    · -- no plan: the structured path admits it, the native path lets a fresh call through
      rw [writeGate_no_plan cfg store _ hc hplan, writeGate_no_plan cfg store _ hc hplan]
      rcases freshCalls_single cfg s.executedCalls c with hf | hf
      · simp only [hf, if_true, or_true, iff_true]
        exact ⟨rfl, rfl, rfl, by rw [handed_elsewhere, handed_elsewhere] <;> simp⟩
      · simp only [hf, ne_eq, not_true_eq_false, List.cons_ne_self, or_self, iff_false, if_true]
        intro h
        simpa [draftUpdate] using h.next
    · rw [writeGate_release cfg store _ hc hplan, writeGate_release cfg store _ hc hplan]
      simp only [if_true, ne_eq, reduceCtorEq, not_false_eq_true, true_or, iff_true]
      split <;> exact ⟨rfl, rfl, rfl, rfl⟩
  | false =>
    rw [writeGate_pass cfg store db hc (Or.inl rfl)]
    rcases freshCalls_single cfg s.executedCalls c with hf | hf
    · rw [writeGate_pass cfg store db hc (by simp [hf])]
      simp only [hf, if_true, ne_eq, not_true_eq_false, false_and, Bool.false_eq_true, if_false, iff_false]
      intro h
      simpa [draftUpdate] using h.next
    · cases hn : needsConfirmation cfg [c] with
      | true =>
        rw [writeGate_propose cfg store db [c] hc (by simp [hf]) (by simp) hn]
        simp only [Bool.false_eq_true, if_false, reduceCtorEq, and_false, iff_false]
        intro h
        simpa [draftUpdate] using h.next
      | false =>
        rw [writeGate_pass cfg store db hc (by simp [hf, hn])]
        simp only [hf, Bool.false_eq_true, if_false, ne_eq, List.cons_ne_self, not_false_eq_true, and_self, iff_true]
        refine ⟨rfl, rfl, rfl, ?_⟩
        rw [handed_single s step usage none c rfl (Or.inl rfl) rfl,
          handed_single s step usage none c rfl (Or.inr rfl) rfl]

theorem paths_agree_iff_delete :
    ∃ a b, finishRouting {} (fun _ _ => .ok none) (pendingPlans 1800 reliableEnv 0) (replyState "cancel my dentist") 0
        deleteDecision {} [] emptyDb = .ok a ∧
      finishRouting {} (fun _ _ => .ok none) (pendingPlans 1800 reliableEnv 0) (replyState "cancel my dentist") 0
        deleteDecision {} [singleCall .deleteCalendarEvent deleteDecision] emptyDb = .ok b ∧
      (SameOutcome (replyState "cancel my dentist") a b ↔
        if confirming (replyState "cancel my dentist") = true then
          (takePendingPlan (pendingPlans 1800 reliableEnv 0) (key "u1" (some "chat")) emptyDb).1 ≠ none ∨
            freshCalls {} [] [singleCall .deleteCalendarEvent deleteDecision] = []
        else
          freshCalls {} [] [singleCall .deleteCalendarEvent deleteDecision] ≠ [] ∧
            needsConfirmation {} [singleCall .deleteCalendarEvent deleteDecision] = false) :=
  paths_agree_iff {} (fun _ _ => .ok none) (pendingPlans 1800 reliableEnv 0) (replyState "cancel my dentist") 0 {}
    emptyDb deleteDecision .deleteCalendarEvent rfl rfl

/-- A delete the router names in a structured decision is handed straight to the tool; the
    same delete in a native batch is proposed. -/
theorem a_structured_delete_runs_unconfirmed :
    ∃ a b, finishRouting {} (fun _ _ => .ok none) (pendingPlans 1800 reliableEnv 0) (replyState "cancel my dentist") 0
        deleteDecision {} [] emptyDb = .ok a ∧
      finishRouting {} (fun _ _ => .ok none) (pendingPlans 1800 reliableEnv 0) (replyState "cancel my dentist") 0
        deleteDecision {} [singleCall .deleteCalendarEvent deleteDecision] emptyDb = .ok b ∧
      handed (replyState "cancel my dentist") a.1 = [deleteCall] ∧
      ¬ SameOutcome (replyState "cancel my dentist") a b := by
  refine ⟨_, _, rfl, rfl, rfl, fun h => ?_⟩
  have hnext : some Node.toolExecution = some Node.localLlm := h.next
  cases hnext

end CoreHeartbeat.Graph
