/-
  CoreHeartbeat.Graph.NativeRouting — what the supervisor makes of a native response
  (`_decide_native`, the native branch of `supervisor`).

  The calls that name no tool are dropped. The arguments of the first call that is left are
  handed to `ToolArgs`, whose construction raises when a value does not fit its field, and no
  `try` stands around it: `_decide_native` catches what the model call raises, the structured
  path validates inside its own `try`, the native branch does neither. The contract of the
  supervisor (`specs/004-api-supervisor`) says that it never raises.

  The response may name anything and carry any JSON as arguments. Which values fit a field is
  pydantic's, and a parameter: a coercion for texts and one for integers, each of which may
  refuse. A declared field is absent, null or coerced; names that are not declared are ignored.

  Proved:
  - `validate_isSome_iff`: `ToolArgs` accepts exactly the arguments whose declared fields all
    fit.
  - `consult_native`: what consulting the router comes to when the model has answered natively.
  - `supervisor_never_raises_iff`: a native response brings the supervisor down exactly when the
    router is consulted and the first call of a tool has a field that does not fit, or there is
    no such call and looking up a saved document raises.
  - `a_numeric_title_raises`: a title that is a number ends the turn with the status "error".
-/

import CoreHeartbeat.Graph.Run

namespace CoreHeartbeat.Graph

open Plans (Key)

/-! ## The declared fields -/

def strFields : List String :=
  ["filename", "query", "content", "event_id", "summary", "start", "end", "description", "location", "time_min",
    "time_max", "url", "reit_symbol", "report_id", "origins", "destination", "departure_date",
    "earliest_departure_time"]

def intFields : List String := ["max_results", "limit", "adults"]

/-- An argument is absent, null, or of the field's type after coercion. -/
def Fits {α : Type} (coerce : Json → Option α) (args : Args) (name : String) : Prop :=
  ∀ v, args.lookup name = some v → v = .null ∨ (coerce v).isSome

structure WellTyped (pyd : Pydantic) (args : Args) : Prop where
  str : ∀ f ∈ strFields, Fits pyd.str args f
  int : ∀ f ∈ intFields, Fits pyd.int args f

theorem optionalField_isSome_iff {α : Type} {coerce : Json → Option α} {args : Args} {name : String} :
    (∃ v, optionalField coerce args name = some v) ↔ Fits coerce args name := by
  unfold optionalField Fits
  cases hv : args.lookup name with
  | none => simp
  | some v =>
    cases v <;> simp [Option.isSome_iff_exists]

/-- A sequence whose end does not depend on what the first part yields. -/
theorem bind_comesThrough {α β : Type} {x : Option α} {f : α → Option β} {P : Prop}
    (h : ∀ a, (∃ b, f a = some b) ↔ P) : (∃ b, (x >>= f) = some b) ↔ (∃ a, x = some a) ∧ P := by
  simp only [bind, Option.bind_eq_some_iff]
  constructor
  · rintro ⟨b, a, hx, hf⟩
    exact ⟨⟨a, hx⟩, (h a).mp ⟨b, hf⟩⟩
  · rintro ⟨⟨a, hx⟩, hP⟩
    obtain ⟨b, hf⟩ := (h a).mpr hP
    exact ⟨b, a, hx, hf⟩

/-- `ToolArgs(**args)` succeeds exactly on well-typed arguments. -/
theorem validate_isSome_iff {pyd : Pydantic} {args : Args} :
    (∃ a, ToolArgs.validate pyd args = some a) ↔ WellTyped pyd args := by
  have hfields : WellTyped pyd args ↔
      (∀ f ∈ strFields, ∃ v, optionalField pyd.str args f = some v) ∧
        ∀ f ∈ intFields, ∃ v, optionalField pyd.int args f = some v := by
    simp only [optionalField_isSome_iff]
    exact ⟨fun h => ⟨h.str, h.int⟩, fun h => ⟨h.1, h.2⟩⟩
  rw [hfields]
  unfold ToolArgs.validate
  -- one step of the chain for each field, in the order of their declaration
  refine Iff.trans (bind_comesThrough fun _ => bind_comesThrough fun _ => bind_comesThrough fun _ =>
    bind_comesThrough fun _ => bind_comesThrough fun _ => bind_comesThrough fun _ => bind_comesThrough fun _ =>
    bind_comesThrough fun _ => bind_comesThrough fun _ => bind_comesThrough fun _ => bind_comesThrough fun _ =>
    bind_comesThrough fun _ => bind_comesThrough fun _ => bind_comesThrough fun _ => bind_comesThrough fun _ =>
    bind_comesThrough fun _ => bind_comesThrough fun _ => bind_comesThrough fun _ => bind_comesThrough fun _ =>
    bind_comesThrough fun _ => bind_comesThrough fun _ => iff_true_intro ⟨_, rfl⟩) ?_
  simp only [strFields, intFields, List.forall_mem_cons, List.not_mem_nil, false_implies, implies_true, and_true]
  constructor
  · rintro ⟨f1, f2, f3, f4, f5, f6, f7, f8, f9, f10, f11, i1, f12, f13, f14, i2, f15, f16, f17, f18, i3⟩
    exact ⟨⟨f1, f2, f3, f4, f5, f6, f7, f8, f9, f10, f11, f12, f13, f14, f15, f16, f17, f18⟩, i1, i2, i3⟩
  · rintro ⟨⟨f1, f2, f3, f4, f5, f6, f7, f8, f9, f10, f11, f12, f13, f14, f15, f16, f17, f18⟩, i1, i2, i3⟩
    exact ⟨f1, f2, f3, f4, f5, f6, f7, f8, f9, f10, f11, i1, f12, f13, f14, i2, f15, f16, f17, f18, i3⟩

/-! ## The native response -/

theorem ofStr_isSome_of_dispatchable {name : String} (h : dispatchableTools.contains name = true) :
    ∃ t, ToolName.ofStr name = some t := by
  obtain ⟨t, ht, rfl⟩ := List.mem_map.mp (List.contains_iff_mem.mp h)
  refine Option.isSome_iff_exists.mp ?_
  rw [ToolName.ofStr, List.find?_isSome]
  exact ⟨t, ht, beq_self_eq_true _⟩

theorem dispatchable_of_mem_nativeCalls {response : List Call} {c : Call} (h : c ∈ nativeCalls response) :
    dispatchableTools.contains c.name = true :=
  (List.mem_filter.mp h).2

/-- A decision is built exactly when the first call's arguments are well typed. -/
theorem nativeDecision_isSome_iff {pyd : Pydantic} (nxt : Node) {response : List Call} :
    (∃ decision, nativeDecision pyd nxt (nativeCalls response) = some decision) ↔
      ∀ first ∈ (nativeCalls response).head?, WellTyped pyd first.args := by
  cases hcalls : nativeCalls response with
  | nil => exact iff_of_true ⟨_, rfl⟩ (by simp)
  | cons first rest =>
    have hfirst : first ∈ nativeCalls response := by rw [hcalls]; exact List.mem_cons_self
    obtain ⟨t, ht⟩ := ofStr_isSome_of_dispatchable (dispatchable_of_mem_nativeCalls hfirst)
    simp only [List.head?_cons, Option.mem_some_iff, forall_eq', ← validate_isSome_iff]
    constructor
    · rintro ⟨decision, h⟩
      simp only [nativeDecision, bind, Option.bind_eq_some_iff] at h
      obtain ⟨a, ha, -⟩ := h
      exact ⟨a, ha⟩
    · rintro ⟨a, ha⟩
      refine ⟨{ nextNode := nxt, toolName := some t, toolArgs := a }, ?_⟩
      simp only [nativeDecision, ha, ht, bind, Option.bind_some, pure]

variable {σ : Type}

/-- What consulting the router comes to when the model has answered natively. -/
theorem consult_native {st : Settings} {r : Router} {response : List Call} {usage : TokenUsage}
    (hnative : st.cfg.nativeToolCalling = true) (hclient : r.noClient = .ok none)
    (hresponse : r.native = .ok (.ok response, usage)) :
    consult st r =
      match nativeDecision st.pyd (if (nativeCalls response).isEmpty then .localLlm else .toolExecution)
          (nativeCalls response) with
      | some decision => .ok (.decided decision usage (nativeCalls response))
      | none => .error "validation error for ToolArgs" := by
  simp only [consult, hclient, hnative, hresponse, if_true, bind, Except.bind]
  cases nativeDecision st.pyd (if (nativeCalls response).isEmpty then .localLlm else .toolExecution)
    (nativeCalls response) <;> rfl

theorem consult_noClient {st : Settings} {r : Router} {detail : String} (hclient : r.noClient = .ok (some detail)) :
    consult st r = .ok (.degraded ⟨.missingCredential, detail⟩ {}) := by
  simp only [consult, hclient, bind, Except.bind]
  rfl

/-- The supervisor names a next node in every update it returns. -/
theorem supervisor_next {st : Settings} {e : StepEnv σ} {s : GraphState} {db db' : σ} {u : Update}
    (h : supervisor st e s db = .ok (u, db')) : u.next.isSome := by
  rcases supervisor_cases h with ⟨-, rfl, -⟩ | ⟨-, -, rfl, -⟩ | ⟨-, -, -, failure, usage, -, rfl⟩ |
    ⟨-, -, decision, usage, calls, canned, d, -, -, rfl⟩
  · unfold stepBound
    split <;> rfl
  all_goals rfl

/-- The supervisor looks for a saved document that the message is about. -/
def LooksUp (s : GraphState) (calls : List Call) : Prop :=
  calls = [] ∧ s.visited = [] ∧ s.documents = "" ∧ s.documentImages = []

/-- After a native decision only the lookup can raise. -/
theorem cannedFor_isOk_iff {pyd : Pydantic} (savedRef : String → String → Except Fault (Option String)) (s : GraphState)
    {decision : RoutingDecision} {calls : List Call}
    (hd : nativeDecision pyd (if calls.isEmpty then .localLlm else .toolExecution) calls = some decision) :
    (∃ canned, cannedFor savedRef s decision calls = .ok canned) ↔
      (LooksUp s calls → ∃ ref, savedRef s.intent.rawInput s.userId = .ok ref) := by
  unfold cannedFor LooksUp
  cases calls with
  | cons first rest => simp
  | nil =>
    cases hd
    by_cases hfirst : s.visited = [] ∧ s.documents = "" ∧ s.documentImages = []
    · simp only [hfirst, List.isEmpty_nil, if_true, and_self, forall_const]
      cases savedRef s.intent.rawInput s.userId <;> simp [Except.map]
    · refine iff_of_true ⟨none, if_neg ?_⟩ fun h => absurd h.2 hfirst
      simpa using hfirst

/-- On any native response (`client` is the detail of a missing client), the supervisor
    returns a routable update exactly when it does not consult the router, or the first call
    of a tool is well typed and no lookup of a saved document raises. -/
theorem supervisor_never_raises_iff (st : Settings) (e : StepEnv σ) (s : GraphState) (db : σ)
    (client : Option String) (response : List Call) (usage : TokenUsage)
    (hnative : st.cfg.nativeToolCalling = true) (hclient : e.router.noClient = .ok client)
    (hresponse : e.router.native = .ok (.ok response, usage)) :
    (∃ u db', supervisor st e s db = .ok (u, db') ∧ u.next.isSome) ↔
      maxSteps ≤ s.step ∨ .localLlm ∈ s.visited ∨ client.isSome ∨
        (∀ first ∈ (nativeCalls response).head?, WellTyped st.pyd first.args) ∧
          (LooksUp s (nativeCalls response) → ∃ ref, e.savedRef s.intent.rawInput s.userId = .ok ref) := by
  have hnext : (∃ u db', supervisor st e s db = .ok (u, db') ∧ u.next.isSome) ↔
      ∃ r, supervisor st e s db = .ok r := by
    constructor
    · rintro ⟨u, db', h, -⟩; exact ⟨_, h⟩
    · rintro ⟨⟨u, db'⟩, h⟩; exact ⟨u, db', h, supervisor_next h⟩
  rw [hnext]
  cases ha : answeredBefore s with
  | some u =>
    refine iff_of_true ⟨(u, db), by simp only [supervisor, ha]⟩ ?_
    by_contra hnot
    simp only [not_or, Nat.not_le] at hnot
    rw [answeredBefore_eq_none_iff.mpr ⟨hnot.1, hnot.2.1⟩] at ha
    cases ha
  | none =>
    obtain ⟨hlt, hv⟩ := answeredBefore_eq_none_iff.mp ha
    simp only [Nat.not_le.mpr hlt, hv, false_or]
    cases client with
    | some detail =>
      refine iff_of_true ⟨(degraded s.step ⟨.missingCredential, detail⟩ {}, db), ?_⟩ (Or.inl rfl)
      simp only [supervisor, ha, consult_noClient hclient]
    | none =>
      have hconsult := consult_native hnative hclient hresponse
      simp only [Option.isSome_none, Bool.false_eq_true, false_or]
      rw [← nativeDecision_isSome_iff (if (nativeCalls response).isEmpty then .localLlm else .toolExecution)]
      cases hd : nativeDecision st.pyd (if (nativeCalls response).isEmpty then .localLlm else .toolExecution)
          (nativeCalls response) with
      | none =>
        refine iff_of_false ?_ (by rintro ⟨⟨_, h⟩, -⟩; cases h)
        rw [hd] at hconsult
        rintro ⟨r, h⟩
        simp [supervisor, ha, hconsult] at h
      | some decision =>
        rw [hd] at hconsult
        rw [← cannedFor_isOk_iff e.savedRef s hd]
        constructor
        · intro hok
          obtain ⟨r, hr⟩ := hok
          cases hcanned : cannedFor e.savedRef s decision (nativeCalls response) with
          | error fault =>
            simp only [supervisor, ha, hconsult, finishRouting, hcanned, bind, Except.bind] at hr
            cases hr
          | ok canned => exact ⟨⟨decision, rfl⟩, canned, rfl⟩
        · intro hok
          obtain ⟨-, canned, hcanned⟩ := hok
          exact supervisor_ok db ha hconsult hcanned

def eventCall (title : Json) : Call where
  name := "create_calendar_event"
  args := [("summary", title), ("start", .str "2026-09-16"), ("end", .str "2026-09-16")]

def strictNative : Settings where
  cfg := { nativeToolCalling := true }
  pyd := strict

/-- A router whose native model answers with `response`. -/
def nativeEnv (response : List Call) : StepEnv (Key → Plans.Slot (List Call)) where
  router := ⟨.ok none, .ok (.ok response, {}), fun _ => .error "unused"⟩
  savedRef _ _ := .ok none
  store := pendingPlans 1800 reliableEnv 0
  worker := ⟨.ok (.ok "", {}), .ok (.ok "", {})⟩
  dispatchTool _ _ := .ok ""

def eventTurn : GraphState := initialState { rawInput := "add my dentist appointment" } "u" "" []

theorem supervisor_never_raises_iff_titled :
    ∃ u db', supervisor strictNative (nativeEnv [eventCall (.str "Dentist")]) eventTurn emptyDb = .ok (u, db') ∧
      u.next.isSome := by
  have hcalls : nativeCalls [eventCall (.str "Dentist")] = [eventCall (.str "Dentist")] := rfl
  have htyped : WellTyped strict (eventCall (.str "Dentist")).args := validate_isSome_iff.mp ⟨_, rfl⟩
  refine (supervisor_never_raises_iff strictNative (nativeEnv [eventCall (.str "Dentist")]) eventTurn emptyDb none
    [eventCall (.str "Dentist")] {} rfl rfl rfl).mpr (Or.inr (Or.inr (Or.inr ⟨?_, fun _ => ⟨none, rfl⟩⟩)))
  rw [hcalls]
  rintro first ⟨rfl⟩
  exact htyped

/-- A title that is a number: the turn ends with the status "error". -/
theorem a_numeric_title_raises :
    supervisor strictNative (nativeEnv [eventCall (.int 5)]) eventTurn emptyDb =
        .error "validation error for ToolArgs" ∧
      invoke strictNative (start ⟨{ rawInput := "add my dentist appointment" }, "u", "", []⟩ emptyDb)
        [nativeEnv [eventCall (.int 5)]] = .raised "validation error for ToolArgs" :=
  ⟨rfl, rfl⟩

end CoreHeartbeat.Graph
