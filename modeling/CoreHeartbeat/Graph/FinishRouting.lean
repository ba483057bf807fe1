/-
  CoreHeartbeat.Graph.FinishRouting — `_finish_routing` (`orchestrator.py`): the guards every
  routing decision passes before it becomes the supervisor's update.

  In order: the saved-document pointer, the anti-reloop guard, the repeat-call guard (an
  identical call, or a tool at its cap, is dropped from a native batch), and the write gate. The
  gate has three ways out: an approval releases the stored plan, a batch that needs confirmation
  is stored and proposed, anything else discards the stored plan.

  The plan store is a parameter with the three operations of `pending_plans`, so a result over
  every store covers every content and every failure of the real one. So is
  `saved_document_reference` (a regular-expression match and one HTTP request).

  The local variables of the function that the guards hand on are one record, `Draft`: the
  decision's next node, the single request, the batch, and a canned reply. Each guard is a
  function on it under the name of what the source calls that guard, and `finishRouting` puts
  them in the order of the source. A structured decision has no batch, only the single request;
  the two guards that look at `calls` then see none, which is `Gate`'s subject.

  Proved: the four ways through the gate (`writeGate_release`, `writeGate_no_plan`,
  `writeGate_propose`, `writeGate_pass`), and everything that `finishRouting` returns
  (`finishRouting_cases`, `finishRouting_tool`).
-/

import CoreHeartbeat.Graph.Models
import CoreHeartbeat.Lib.PyText
import CoreHeartbeat.Plans.PendingPlans

namespace CoreHeartbeat.Graph

open Plans (Key key)

/-- The text of an exception a node lets out. -/
abbrev Fault := String

structure Config where
  writeConfirmThreshold : Int := 3
  maxSameToolCalls : Int := 2
  nativeToolCalling : Bool := false

structure PlanStore (σ : Type) where
  save : Key → List Call → σ → σ
  take : Key → σ → Option (List Call) × σ
  clear : Key → σ → σ

/-- The store the gateway uses: one slot per key, every request meeting `e`. -/
def pendingPlans (ttl : Int) (e : Plans.Env) (p : Plans.Proc) : PlanStore (Key → Plans.Slot (List Call)) where
  save k calls db := Function.update db k (Plans.save ttl e p calls (db k)).2
  take k db := let r := Plans.take List.isEmpty e p (db k); (r.1.1, Function.update db k r.2)
  clear k db := Function.update db k (Plans.clear e p (db k))

/-- A table that answers, at a clock that stands still. -/
def reliableEnv : Plans.Env := ⟨true, .ok, 0, 0⟩

def emptyDb : Key → Plans.Slot (List Call) := fun _ => Plans.Slot.init

/-! ## Approval -/

def affirmations : List String :=
  ["y", "ya", "yes", "yes please", "yep", "yeah", "yup", "sure", "ok", "okay",
    "do it", "go ahead", "go for it", "please do", "confirm", "confirmed",
    "add them", "add them all", "add it", "create them", "sounds good",
    "yes do it", "yes go ahead", "yes add them", "proceed", "approved"]

/-- `str.lower` of one character, up to characters outside `a-z` and the space: besides A-Z
    only the Kelvin sign and the dotted capital I have a lower case with an ASCII letter. -/
def lowerChar (c : Char) : List Char :=
  if 'A' ≤ c ∧ c ≤ 'Z' then [Char.ofNat (c.toNat + 32)]
  else if c.toNat = 0x212a then ['k']
  else if c.toNat = 0x130 then ['i', Char.ofNat 0x307]
  else [c]

/-- What `_is_affirmation` compares: lower case, only a-z and single spaces. -/
def cleaned (raw : String) : List Char :=
  let kept := ((PyText.strip raw.toList).flatMap lowerChar).filter fun c => ('a' ≤ c ∧ c ≤ 'z') ∨ c = ' '
  PyText.collapse false (PyText.strip kept)

def isAffirmation (raw : String) : Bool :=
  let c := cleaned raw
  !c.isEmpty && (PyText.splitWords [] c).length ≤ 4 && affirmations.contains (String.ofList c)

def needsConfirmation (cfg : Config) (calls : List Call) : Bool :=
  if calls.any fun c => alwaysConfirmTools.contains c.name then true
  else decide (cfg.writeConfirmThreshold ≤ (calls.filter fun c => writeTools.contains c.name).length)

/-- A bare affirmation now, and an assistant turn before it. -/
def confirmationGiven (s : GraphState) : Bool :=
  if !isAffirmation s.intent.rawInput then false
  else s.priorContext.any fun m => m.source == .assistant

/-- `tools_ran`: `tool_execution` has run earlier in this turn. -/
def toolsRan (s : GraphState) : Bool := s.visited.contains .toolExecution

/-- The gate's first branch: an approval that has not been honoured yet. -/
def confirming (s : GraphState) : Bool := confirmationGiven s && !toolsRan s

def takePendingPlan {σ : Type} (store : PlanStore σ) (k : Key) (db : σ) : Option (List Call) × σ :=
  match store.take k db with
  | (some (c :: cs), db) => (some (c :: cs), db)
  | (_, db) => (none, db)

/-! ## The guards -/

def pointerReply (title : String) : String :=
  let named := if title = "" then "" else " (“" ++ title ++ "”)"
  "That's about one of your saved documents" ++ named ++ ", and those are answered in " ++
    "**Knowledge chat** — switch to *Knowledge* at the top of the sidebar and ask there. " ++
    "It answers only from your documents and shows the passages it used."

def planNoteText : String :=
  "The user just approved something, but no pending plan is on record " ++
    "(it may have expired or already run). Tell them plainly that you do " ++
    "not have it any more and ask them to restate what they want done. Do " ++
    "NOT claim anything is being added or has been added."

structure Draft where
  nxt : Node
  toolRequest : Option Call
  calls : Option (List Call)
  pendingPlan : Option (List Call) := none
  planNote : Option String := none

def draft (decision : RoutingDecision) (nativeCalls : List Call) : Draft where
  nxt := decision.nextNode
  toolRequest :=
    if decision.nextNode = .toolExecution then
      decision.toolName.map fun t => ⟨t.str, decision.toolArgs.modelDump⟩
    else none
  calls := if nativeCalls ≠ [] ∧ decision.nextNode = .toolExecution then some nativeCalls else none

/-- The saved-document guard: the fixed reply, when the router called no tool on the first
    step and the message is about a saved document. -/
def cannedFor (savedRef : String → String → Except Fault (Option String)) (s : GraphState)
    (decision : RoutingDecision) (nativeCalls : List Call) : Except Fault (Option String) :=
  if decision.nextNode = .localLlm ∧ s.visited = [] ∧ nativeCalls.isEmpty ∧ decision.toolName = none ∧
      s.documents = "" ∧ s.documentImages = [] then
    (savedRef s.intent.rawInput s.userId).map (·.map pointerReply)
  else .ok none

def freshCalls (cfg : Config) (already : List String) (calls : List Call) : List Call :=
  calls.filter fun c =>
    !already.contains (callSignature c) &&
      decide (((already.map signatureName).count c.name : Int) < cfg.maxSameToolCalls)

def repeatGuard (cfg : Config) (s : GraphState) (d : Draft) : Draft :=
  match d.calls with
  | none | some [] => d
  | some calls =>
    match freshCalls cfg s.executedCalls calls with
    | [] => { d with nxt := .localLlm, toolRequest := none, calls := none }
    | fresh => { d with calls := some fresh }

def writeGate {σ : Type} (cfg : Config) (store : PlanStore σ) (s : GraphState) (d : Draft) (db : σ) : Draft × σ :=
  let k := key s.userId s.intent.chatId
  if confirming s then
    match takePendingPlan store k db with
    | (some approved, db) => ({ d with calls := some approved, toolRequest := none, nxt := .toolExecution }, db)
    | (none, db) =>
      if (d.calls.getD []).isEmpty then ({ d with planNote := some planNoteText, nxt := .localLlm }, db) else (d, db)
  else if !(d.calls.getD []).isEmpty && needsConfirmation cfg (d.calls.getD []) then
    ({ d with pendingPlan := d.calls, calls := none, toolRequest := none, nxt := .localLlm },
      store.save k (d.calls.getD []) db)
  else (d, store.clear k db)

/-! ## The update -/

def routeLabel (d : Draft) : String :=
  match d.pendingPlan, d.calls, d.toolRequest with
  | some (p :: ps), _, _ =>
    "route -> " ++ d.nxt.str ++ " (proposing " ++ toString (p :: ps).length ++ " writes for confirmation)"
  | _, some (c :: cs), _ =>
    "route -> " ++ d.nxt.str ++ " (" ++ toString (c :: cs).length ++ " calls: " ++
      ", ".intercalate ((c :: cs).map (·.name)) ++ ")"
  | _, _, some r => "route -> " ++ d.nxt.str ++ " (" ++ r.name ++ ")"
  | _, _, none => "route -> " ++ d.nxt.str

def draftUpdate (step : Nat) (usage : TokenUsage) (canned : Option String) (d : Draft) : Update where
  next := some d.nxt
  status := if d.nxt = .finish then some .completed else none
  step := 1
  usage := usage
  messages := [⟨.supervisor, routeLabel d, step⟩]
  toolRequest := some d.toolRequest
  toolCalls := some d.calls
  pendingPlan := some d.pendingPlan
  planNote := some d.planNote
  cannedReply := some (if d.nxt = .localLlm ∧ (d.pendingPlan.getD []).isEmpty then canned else none)

/-- The anti-reloop guard's answer: `local_llm` has already replied. -/
def alreadyReplied (step : Nat) (usage : TokenUsage) : Update where
  next := some .finish
  status := some .completed
  step := 1
  usage := usage
  messages := [⟨.supervisor, "route -> finish (guard: local_llm already replied)", step⟩]
  toolRequest := some none
  toolCalls := some none
  pendingPlan := some none
  planNote := some none

variable {σ : Type}

def finishRouting (cfg : Config) (savedRef : String → String → Except Fault (Option String)) (store : PlanStore σ)
    (s : GraphState) (step : Nat) (decision : RoutingDecision) (usage : TokenUsage) (nativeCalls : List Call)
    (db : σ) : Except Fault (Update × σ) := do
  let canned ← cannedFor savedRef s decision nativeCalls
  if decision.nextNode = .localLlm ∧ .localLlm ∈ s.visited then
    return (alreadyReplied step usage, db)
  let (d, db) := writeGate cfg store s (repeatGuard cfg s (draft decision nativeCalls)) db
  return (draftUpdate step usage canned d, db)

/-- `_requested_tool_calls`: what `tool_execution` will run. -/
def requestedToolCalls (s : GraphState) : List Call :=
  let raw := match s.toolCalls with
    | none | some [] => s.toolRequest.toList
    | some calls => calls
  raw.filter fun c => dispatchableTools.contains c.name

/-! ## What each guard does -/

section Guards

variable (cfg : Config) (savedRef : String → String → Except Fault (Option String)) (store : PlanStore σ)

theorem repeatGuard_none (s : GraphState) {d : Draft} (h : d.calls = none) : repeatGuard cfg s d = d := by
  simp [repeatGuard, h]

theorem repeatGuard_batch (s : GraphState) {d : Draft} (calls : List Call) (h : d.calls = some calls)
    (hne : calls ≠ []) :
    repeatGuard cfg s d =
      if freshCalls cfg s.executedCalls calls = [] then { d with nxt := .localLlm, toolRequest := none, calls := none }
      else { d with calls := some (freshCalls cfg s.executedCalls calls) } := by
  cases calls with
  | nil => exact absurd rfl hne
  | cons c cs =>
    simp only [repeatGuard, h]
    cases hf : freshCalls cfg s.executedCalls (c :: cs) <;> simp

theorem takePendingPlan_db (k : Key) (db : σ) : (takePendingPlan store k db).2 = (store.take k db).2 := by
  unfold takePendingPlan
  rcases store.take k db with ⟨_ | _ | ⟨c, cs⟩, db'⟩ <;> rfl

/-- An approval with a stored plan replaces whatever the model asked for. -/
theorem writeGate_release {s : GraphState} (d : Draft) {db db' : σ} {plan : List Call} (hc : confirming s = true)
    (ht : takePendingPlan store (key s.userId s.intent.chatId) db = (some plan, db')) :
    writeGate cfg store s d db = ({ d with calls := some plan, toolRequest := none, nxt := .toolExecution }, db') := by
  simp [writeGate, hc, ht]

/-- An approval without one lets a batch through, and admits to having nothing otherwise. -/
theorem writeGate_no_plan {s : GraphState} (d : Draft) {db db' : σ} (hc : confirming s = true)
    (ht : takePendingPlan store (key s.userId s.intent.chatId) db = (none, db')) :
    writeGate cfg store s d db =
      (if (d.calls.getD []).isEmpty then { d with planNote := some planNoteText, nxt := .localLlm } else d, db') := by
  simp only [writeGate, hc, ht, if_true]
  split <;> rfl

/-- Without an approval a batch that needs confirmation is stored and proposed. -/
theorem writeGate_propose {s : GraphState} {d : Draft} (db : σ) (calls : List Call) (hc : confirming s = false)
    (hd : d.calls = some calls) (hne : calls ≠ []) (hn : needsConfirmation cfg calls = true) :
    writeGate cfg store s d db =
      ({ d with pendingPlan := some calls, calls := none, toolRequest := none, nxt := .localLlm },
        store.save (key s.userId s.intent.chatId) calls db) := by
  simp [writeGate, hc, hd, hn, hne]

/-- Any other turn passes and discards the stored plan. -/
theorem writeGate_pass {s : GraphState} {d : Draft} (db : σ) (hc : confirming s = false)
    (hd : d.calls.getD [] = [] ∨ needsConfirmation cfg (d.calls.getD []) = false) :
    writeGate cfg store s d db = (d, store.clear (key s.userId s.intent.chatId) db) := by
  have : (!(d.calls.getD []).isEmpty && needsConfirmation cfg (d.calls.getD [])) = false := by
    rcases hd with h | h <;> simp [h]
  simp [writeGate, hc, this]

/-- Everything `finishRouting` returns: the anti-reloop answer, or the draft that leaves the
    guards. -/
theorem finishRouting_cases {cfg : Config} {savedRef : String → String → Except Fault (Option String)}
    {store : PlanStore σ} {s : GraphState} {step : Nat} {decision : RoutingDecision} {usage : TokenUsage}
    {nativeCalls : List Call} {db db' : σ} {u : Update}
    (h : finishRouting cfg savedRef store s step decision usage nativeCalls db = .ok (u, db')) :
    ∃ canned, cannedFor savedRef s decision nativeCalls = .ok canned ∧
      ((.localLlm ∈ s.visited ∧ u = alreadyReplied step usage ∧ db' = db) ∨
        ∃ d, writeGate cfg store s (repeatGuard cfg s (draft decision nativeCalls)) db = (d, db') ∧
          u = draftUpdate step usage canned d) := by
  unfold finishRouting at h
  cases hc : cannedFor savedRef s decision nativeCalls with
  | error e => simp [hc, bind, Except.bind] at h
  | ok canned =>
    refine ⟨canned, rfl, ?_⟩
    simp only [hc, bind, Except.bind, pure, Except.pure] at h
    by_cases hr : decision.nextNode = .localLlm ∧ .localLlm ∈ s.visited
    · rw [if_pos hr] at h
      simp only [Except.ok.injEq, Prod.mk.injEq] at h
      exact Or.inl ⟨hr.2, h.1.symm, h.2.symm⟩
    · rcases hw : writeGate cfg store s (repeatGuard cfg s (draft decision nativeCalls)) db with ⟨d, db''⟩
      rw [if_neg hr, hw] at h
      simp only [Except.ok.injEq, Prod.mk.injEq] at h
      exact Or.inr ⟨d, by rw [h.2], h.1.symm⟩

/-- A decision for a tool reaches the update through the two guards alone. -/
theorem finishRouting_tool (s : GraphState) (step : Nat) {decision : RoutingDecision} (usage : TokenUsage)
    (nativeCalls : List Call) (db : σ) (h : decision.nextNode = .toolExecution) :
    finishRouting cfg savedRef store s step decision usage nativeCalls db =
      .ok (draftUpdate step usage none (writeGate cfg store s (repeatGuard cfg s (draft decision nativeCalls)) db).1,
        (writeGate cfg store s (repeatGuard cfg s (draft decision nativeCalls)) db).2) := by
  simp [finishRouting, cannedFor, h, bind, Except.bind, pure, Except.pure]

/-- The draft of a native batch. -/
theorem draft_native {decision : RoutingDecision} {calls : List Call} (h : decision.nextNode = .toolExecution)
    (hne : calls ≠ []) : (draft decision calls).calls = some calls ∧ (draft decision calls).pendingPlan = none ∧
      (draft decision calls).nxt = .toolExecution := by
  simp [draft, h, hne]

theorem nativeDecision_node {pyd : Pydantic} {nxt : Node} {calls : List Call} {decision : RoutingDecision}
    (h : nativeDecision pyd nxt calls = some decision) : decision.nextNode = nxt := by
  cases calls with
  | nil => cases h; rfl
  | cons c cs =>
    simp only [nativeDecision, bind, Option.bind_eq_some_iff, pure, Option.some.injEq] at h
    obtain ⟨_, _, _, _, rfl⟩ := h
    rfl

end Guards

end CoreHeartbeat.Graph
