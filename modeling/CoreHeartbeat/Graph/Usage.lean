/-
  CoreHeartbeat.Graph.Usage — what a run says it used, against what its model calls reported
  (`_usage_from` and the extractors over it, `add_usage`, the usage of each node).

  The calls are given by what the providers send: a usage report, or none, beside the answer or
  the failure. The node updates carry what the extractors make of the reports; the run adds them
  up, and an outcome with an error starts again at zero.

  A report may leave out its total. The extractor of the native router reads none there, the
  others read the one that is stated; so totals are conserved under a condition on the reports
  alone (`StatesTotals`), while the two sides of a report always are. By design a failed local
  answer counts nothing (its docstring says zero usage), and an error outcome is built with a
  zero of its own. What a cloud answer had reported before it failed over to the local model is
  overwritten by what the local one reports.

  Proved:
  - `retry_usage`: the retry loop adds up every attempt that it makes.
  - `supervisor_tallies`, `localLlm_tallies`, `run_tallies`: each node's update costs what its
    calls report, and so does a whole run.
  - `usage_conserved`: in a run that ends without an error, where no cloud answer that had
    reported tokens failed over, the input and output tokens are those of the reports and of the
    tool steps; and so is the total where the native router reports none and the other reports
    state theirs (`usage_conserved_reported`).
  - `failures_count_nothing`: a local answer that breaks off after its report, and a run that
    raises after a tool step.
-/

import CoreHeartbeat.Graph.Compose

namespace CoreHeartbeat.Graph

/-! ## Reports -/

/-- The token fields of a usage object; `none` is an absent or a null field. -/
structure Report where
  input : Option Int := none
  output : Option Int := none
  total : Option Int := none

/-- A usage object that has no total. -/
structure Counts where
  input : Option Int := none
  output : Option Int := none

def Counts.report (c : Counts) : Report := ⟨c.input, c.output, none⟩

def Report.used (r : Report) : TokenUsage :=
  ⟨r.input.getD 0, r.output.getD 0, r.total.getD (r.input.getD 0 + r.output.getD 0)⟩

def usageFrom (source : Option Report) (totalKey : Bool) : TokenUsage :=
  match source with
  | none => {}
  | some r =>
    let inp := r.input.getD 0
    let out := r.output.getD 0
    ⟨inp, out, if totalKey then r.total.getD 0 else inp + out⟩

/-- `_extract_usage`, of Gemini. -/
def extractUsage (usageMetadata : Option Report) : TokenUsage := usageFrom usageMetadata true

def openaiUsage (usage : Option Report) : TokenUsage := usageFrom usage true

def anthropicUsage (usage : Option Counts) : TokenUsage := usageFrom (usage.map Counts.report) false

def extractOllamaUsage (body : Counts) : TokenUsage := usageFrom (some body.report) false

def nativeUsage (usageMetadata : Option Report) : TokenUsage :=
  let usage := usageMetadata.getD {}
  { inputTokens := usage.input.getD 0, outputTokens := usage.output.getD 0 }

/-! ## The routing calls -/

/-- One call of `request_routing_decision`, by provider: the report and the parsed answer,
    or why the answer cannot be parsed. -/
inductive Attempted where
  | raised (failure : RoutingFailure)
  | gemini (usage : Option Report) (parsed : Except String RoutingDecision)
  | openai (usage : Option Report) (parsed : Except String RoutingDecision)
  | anthropic (usage : Option Counts) (parsed : Except String RoutingDecision)

/-- The end of each `_decide_*`. -/
def decided (usage : TokenUsage) : Except String RoutingDecision → Routed RoutingDecision
  | .ok decision => (.ok decision, usage)
  | .error detail => (.error ⟨.invalidOutput, detail⟩, usage)

def requestRoutingDecision : Attempted → Routed RoutingDecision
  | .raised failure => (.error failure, {})
  | .gemini usage parsed => decided (extractUsage usage) parsed
  | .openai usage parsed => decided (openaiUsage usage) parsed
  | .anthropic usage parsed => decided (anthropicUsage usage) parsed

def Attempted.report : Attempted → Option Report
  | .raised _ => none
  | .gemini usage _ => usage
  | .openai usage _ => usage
  | .anthropic usage _ => usage.map Counts.report

inductive NativeReply where
  | failed (failure : RoutingFailure)
  | answered (usageMetadata : Option Report) (toolCalls : List Call)

/-- `_decide_native`, before the names that no tool has are dropped. -/
def decideNative : NativeReply → Routed (List Call)
  | .failed failure => (.error failure, {})
  | .answered usageMetadata toolCalls => (.ok toolCalls, nativeUsage usageMetadata)

structure MeteredRouter where
  noClient : Except Fault (Option String)
  native : Except Fault NativeReply
  request : Nat → Except Fault Attempted

def MeteredRouter.router (r : MeteredRouter) : Router :=
  ⟨r.noClient, r.native.map decideNative, fun n => (r.request n).map requestRoutingDecision⟩

@[simp] theorem MeteredRouter.router_noClient (r : MeteredRouter) : r.router.noClient = r.noClient := rfl

@[simp] theorem MeteredRouter.router_native (r : MeteredRouter) : r.router.native = r.native.map decideNative := rfl

def attemptsMade (request : Nat → Except Fault Attempted) (left attempt : Nat) : List Attempted :=
  match request attempt with
  | .error _ => []
  | .ok a =>
    a :: match (requestRoutingDecision a).1, left with
      | .error failure, left + 1 =>
        if failure.category ∈ retryableRoutingCategories then attemptsMade request left (attempt + 1) else []
      | _, _ => []

/-- The calls of one routing: the native one's report, and the structured attempts. -/
def routingCalls (st : Settings) (s : GraphState) (r : MeteredRouter) : Option Report × List Attempted :=
  if (answeredBefore s).isSome then (none, [])
  else
    match r.noClient with
    | .ok none =>
      if st.cfg.nativeToolCalling then
        match r.native with
        | .error _ => (none, [])
        | .ok (.answered usageMetadata _) => (usageMetadata, [])
        | .ok (.failed _) => (none, attemptsMade r.request maxRoutingRetries 1)
      else (none, attemptsMade r.request maxRoutingRetries 1)
    | _ => (none, [])

/-! ## The compose calls -/

structure OllamaObject where
  error : Option String := none
  response : Option (Option String) := none
  counts : Counts := {}

def OllamaObject.reports (o : OllamaObject) : Bool := o.counts.input.isSome || o.counts.output.isSome

inductive NdjsonLine where
  | blank
  | malformed (detail : String)
  | notAnObject (detail : String)
  | object (o : OllamaObject)

def NdjsonLine.line : NdjsonLine → OllamaLine
  | .blank => .blank
  | .malformed detail => .malformed detail
  | .notAnObject detail => .notAnObject detail
  | .object o => .body ⟨o.error, o.response, if o.reports then some (extractOllamaUsage o.counts) else none⟩

def NdjsonLine.report : NdjsonLine → Option Report
  | .object o => if o.reports then some o.counts.report else none
  | _ => none

structure OllamaReply where
  opened : Except Broken Nat := .ok 200
  lines : List NdjsonLine
  ends : Option Broken := none

def OllamaReply.stream (r : OllamaReply) : OllamaStream := ⟨r.opened, r.lines.map NdjsonLine.line, r.ends⟩

structure GeminiChunk where
  text : Option String := none
  usageMetadata : Option Report := none

def GeminiChunk.chunk (c : GeminiChunk) : CloudChunk :=
  ⟨c.text, c.usageMetadata.map fun r => extractUsage (some r)⟩

structure GeminiReply where
  chunks : List GeminiChunk
  ends : Option Broken := none

def GeminiReply.stream (r : GeminiReply) : CloudStream := ⟨r.chunks.map GeminiChunk.chunk, r.ends⟩

/-- The last report carries the running totals. -/
def GeminiReply.report (r : GeminiReply) : Option Report := (r.chunks.filterMap (·.usageMetadata)).getLast?

/-- What one node execution finds outside the graph, with the reports of the models. -/
structure MeteredEnv (σ : Type) where
  router : MeteredRouter
  savedRef : String → String → Except Fault (Option String)
  store : PlanStore σ
  dispatchTool : Call → String → Except Fault String
  modelPref : String := "gemini-2.5-flash"
  client : Except Fault CloudClient
  cloud : GeminiReply
  ollama : OllamaReply

variable {σ : Type}

def MeteredEnv.models (e : MeteredEnv σ) : ModelEnv σ where
  router := e.router.router
  savedRef := e.savedRef
  store := e.store
  dispatchTool := e.dispatchTool
  modelPref := e.modelPref
  client := e.client
  cloud := e.cloud.stream
  ollama := e.ollama.stream

@[simp] theorem MeteredEnv.models_client (e : MeteredEnv σ) : e.models.client = e.client := rfl

@[simp] theorem MeteredEnv.models_modelPref (e : MeteredEnv σ) : e.models.modelPref = e.modelPref := rfl

@[simp] theorem MeteredEnv.models_cloud (e : MeteredEnv σ) : e.models.cloud = e.cloud.stream := rfl

@[simp] theorem MeteredEnv.models_ollama (e : MeteredEnv σ) : e.models.ollama = e.ollama.stream := rfl

def meteredStep (st : Settings) (c : Conf σ) (e : MeteredEnv σ) : Conf σ × Option Update := modelStep st c e.models

/-- The lines that arrive: up to the one that ends the stream, and that one. -/
def received : List NdjsonLine → List NdjsonLine
  | [] => []
  | line :: lines => line :: if line.line.failure.isSome then [] else received lines

def OllamaReply.delivered (s : GraphState) (r : OllamaReply) : Option Report :=
  if s.documentImages ≠ [] then none
  else
    match r.opened with
    | .error _ => none
    | .ok status => if status / 100 ≠ 2 then none else ((received r.lines).filterMap NdjsonLine.report).getLast?

/-- The same, of a call that ends in a text. -/
def OllamaReply.answered (s : GraphState) (r : OllamaReply) : Option Report :=
  match (generateLocal s r.stream).2.1 with
  | .ok _ => r.delivered s
  | .error _ => none

/-! ## The ledger -/

def tally : List TokenUsage → TokenUsage
  | [] => {}
  | u :: l => addUsage u (tally l)

def routingReports (st : Settings) (s : GraphState) (r : MeteredRouter) : List Report :=
  (routingCalls st s r).1.toList ++ (routingCalls st s r).2.filterMap Attempted.report

/-- The cloud report of one composition, and whether the local model is asked after it. -/
def cloudCall (e : MeteredEnv σ) : Option Report × Bool :=
  match e.client with
  | .error _ => (none, false)
  | .ok client =>
    (match client with
      | .gemini => e.cloud.report
      | _ => none, cloudFails client e.cloud.stream)

/-- The reports of one composition, where `ofLocal` is what the local model's call counts. -/
def composeReports (ofLocal : GraphState → OllamaReply → Option Report) (st : Settings) (s : GraphState)
    (e : MeteredEnv σ) : List Report :=
  match s.cannedReply.filter (· ≠ "") with
  | some _ => []
  | none =>
    if st.localCompose then (ofLocal s e.ollama).toList
    else (cloudCall e).1.toList ++ if (cloudCall e).2 then (ofLocal s e.ollama).toList else []

/-- What one superstep uses by the reports of its calls, and by its tool step. -/
def spentBy (ofLocal : GraphState → OllamaReply → Option Report) (st : Settings) (c : Conf σ) (e : MeteredEnv σ) :
    TokenUsage :=
  match c.place with
  | .at .supervisor => tally ((routingReports st c.st e.router).map Report.used)
  | .at .localLlm => tally ((composeReports ofLocal st c.st e).map Report.used)
  | .at .toolExecution => toolUsage
  | _ => {}

def spent (ofLocal : GraphState → OllamaReply → Option Report) (st : Settings) (c : Conf σ)
    (envs : List (MeteredEnv σ)) : TokenUsage :=
  tally ((Machine.trace (meteredStep st) c envs).map fun ev => spentBy ofLocal st ev.pre ev.op)

/-- The usage of the `OrchestrationOutcome`: an error outcome has none. -/
def outcomeUsage (c : Conf σ) : TokenUsage :=
  match c.place with
  | .finished => c.st.usage
  | _ => {}

/-! ## The conditions -/

/-- The report states its total, or no tokens. -/
def Report.StatesTotal (r : Report) : Prop := r.total.isSome = true ∨ r.input.getD 0 + r.output.getD 0 = 0

def Attempted.StatesTotal : Attempted → Prop
  | .gemini usage _ => ∀ r, usage = some r → r.StatesTotal
  | .openai usage _ => ∀ r, usage = some r → r.StatesTotal
  | _ => True

/-- A native response reports no tokens in total; a Gemini or OpenAI report states its
    total. -/
def StatesTotals (st : Settings) (c : Conf σ) (e : MeteredEnv σ) : Prop :=
  match c.place with
  | .at .supervisor =>
    (∀ r, (routingCalls st c.st e.router).1 = some r → r.used.totalTokens = 0) ∧
      ∀ a ∈ (routingCalls st c.st e.router).2, a.StatesTotal
  | .at .localLlm =>
    c.st.cannedReply.filter (· ≠ "") = none → st.localCompose = false → ∀ r, (cloudCall e).1 = some r → r.StatesTotal
  | _ => True

/-- A cloud answer that fails over to the local model has reported no tokens. -/
def FallsBackUnreported (st : Settings) (c : Conf σ) (e : MeteredEnv σ) : Prop :=
  c.place = .at .localLlm → c.st.cannedReply.filter (· ≠ "") = none → st.localCompose = false →
    (cloudCall e).2 = true → ∀ r, (cloudCall e).1 = some r → r.used = {}

/-! ## Sums -/

theorem addUsage_zero (u : TokenUsage) : addUsage u {} = u := by simp [addUsage]

theorem zero_addUsage (u : TokenUsage) : addUsage {} u = u := by simp [addUsage]

theorem addUsage_assoc (u v w : TokenUsage) : addUsage (addUsage u v) w = addUsage u (addUsage v w) := by
  simp only [addUsage, Int.add_assoc]

theorem tally_append (l m : List TokenUsage) : tally (l ++ m) = addUsage (tally l) (tally m) := by
  induction l with
  | nil => exact (zero_addUsage _).symm
  | cons u l ih => rw [List.cons_append, tally, tally, ih, addUsage_assoc]

theorem tally_report (o : Option Report) : tally (o.toList.map Report.used) = (o.map Report.used).getD {} := by
  cases o with
  | none => rfl
  | some r => exact addUsage_zero r.used

/-- Two usages agree, in their totals where `T` holds. -/
structure Tallies (T : Prop) (u v : TokenUsage) : Prop where
  input : u.inputTokens = v.inputTokens
  output : u.outputTokens = v.outputTokens
  total : T → u.totalTokens = v.totalTokens

namespace Tallies

variable {T T' : Prop} {u v u' v' : TokenUsage}

theorem of_eq (h : u = v) : Tallies T u v := by
  rw [h]; exact ⟨rfl, rfl, fun _ => rfl⟩

theorem mono (hT : T' → T) (h : Tallies T u v) : Tallies T' u v := ⟨h.input, h.output, fun hT' => h.total (hT hT')⟩

theorem add (h : Tallies T u v) (h' : Tallies T u' v') : Tallies T (addUsage u u') (addUsage v v') where
  input := by simp only [addUsage, h.input, h'.input]
  output := by simp only [addUsage, h.output, h'.output]
  total hT := by simp only [addUsage, h.total hT, h'.total hT]

theorem trans {w : TokenUsage} (h : Tallies T u v) (h' : Tallies T v w) : Tallies T u w where
  input := h.input.trans h'.input
  output := h.output.trans h'.output
  total hT := (h.total hT).trans (h'.total hT)

end Tallies

/-! ## The extractors -/

/-- A report whose total is read agrees with what it says was used, in the total where it
    states it. -/
theorem usageFrom_tallies (usage : Option Report) :
    Tallies (∀ r, usage = some r → r.StatesTotal) (usageFrom usage true) ((usage.map Report.used).getD {}) := by
  cases usage with
  | none => exact Tallies.of_eq rfl
  | some r =>
    refine ⟨rfl, rfl, fun hT => ?_⟩
    show r.total.getD 0 = r.total.getD (r.input.getD 0 + r.output.getD 0)
    rcases hT r rfl with hsome | hzero
    · cases ht : r.total with
      | none => rw [ht] at hsome; cases hsome
      | some n => rfl
    · rw [hzero]

/-- Counts without a total are added up. -/
theorem usageFrom_counts (usage : Option Counts) :
    usageFrom (usage.map Counts.report) false = ((usage.map Counts.report).map Report.used).getD {} := by
  cases usage <;> rfl

theorem nativeUsage_tallies (usageMetadata : Option Report) :
    Tallies (∀ r, usageMetadata = some r → r.used.totalTokens = 0) (nativeUsage usageMetadata)
      ((usageMetadata.map Report.used).getD {}) := by
  cases usageMetadata with
  | none => exact Tallies.of_eq rfl
  | some r => exact ⟨rfl, rfl, fun hT => (hT r rfl).symm⟩

theorem decided_usage (usage : TokenUsage) (parsed : Except String RoutingDecision) :
    (decided usage parsed).2 = usage := by
  cases parsed <;> rfl

theorem attempt_tallies (a : Attempted) :
    Tallies a.StatesTotal (requestRoutingDecision a).2 ((a.report.map Report.used).getD {}) := by
  cases a with
  | raised failure => exact Tallies.of_eq rfl
  | gemini usage parsed =>
    simp only [requestRoutingDecision, decided_usage]
    exact usageFrom_tallies usage
  | openai usage parsed =>
    simp only [requestRoutingDecision, decided_usage]
    exact usageFrom_tallies usage
  | anthropic usage parsed =>
    simp only [requestRoutingDecision, decided_usage]
    exact Tallies.of_eq (usageFrom_counts usage)

/-- The attempts of a retry loop, each by its report. -/
theorem attempts_tally (attempts : List Attempted) :
    Tallies (∀ a ∈ attempts, a.StatesTotal) (tally (attempts.map fun a => (requestRoutingDecision a).2))
      (tally ((attempts.filterMap Attempted.report).map Report.used)) := by
  induction attempts with
  | nil => exact Tallies.of_eq rfl
  | cons a attempts ih =>
    have hhead := (attempt_tallies a).mono fun h : ∀ b ∈ a :: attempts, b.StatesTotal => h a List.mem_cons_self
    have htail := ih.mono fun h : ∀ b ∈ a :: attempts, b.StatesTotal => fun b hb => h b (List.mem_cons_of_mem _ hb)
    have hsum := hhead.add htail
    cases hr : a.report with
    | none =>
      rw [hr, Option.map_none, Option.getD_none, zero_addUsage] at hsum
      rw [List.filterMap_cons_none hr]
      exact hsum
    | some r =>
      rw [hr, Option.map_some, Option.getD_some] at hsum
      rw [List.filterMap_cons_some hr]
      exact hsum

/-! ## One node -/

/-- The retry loop adds up the usage of every attempt that it makes. -/
theorem retry_usage (request : Nat → Except Fault Attempted) (left attempt : Nat) (acc : TokenUsage)
    {result : Except RoutingFailure RoutingDecision} {usage : TokenUsage}
    (h : retry (fun n => (request n).map requestRoutingDecision) left attempt acc = .ok (result, usage)) :
    usage = addUsage acc (tally ((attemptsMade request left attempt).map fun a => (requestRoutingDecision a).2)) := by
  induction left generalizing attempt acc with
  | zero =>
    unfold retry at h
    unfold attemptsMade
    cases hr : request attempt with
    | error fault => rw [hr] at h; cases h
    | ok a =>
      rw [hr] at h
      simp only [Except.map] at h
      rcases hres : requestRoutingDecision a with ⟨failure | decision, callUsage⟩ <;> rw [hres] at h <;> cases h <;>
        simp [hres, tally, addUsage_zero]
  | succ left ih =>
    unfold retry at h
    unfold attemptsMade
    cases hr : request attempt with
    | error fault => rw [hr] at h; cases h
    | ok a =>
      rw [hr] at h
      simp only [Except.map] at h
      rcases hres : requestRoutingDecision a with ⟨failure | decision, callUsage⟩
      · rw [hres] at h
        simp only at h
        by_cases hretry : failure.category ∈ retryableRoutingCategories
        · rw [if_pos hretry] at h
          rw [ih _ _ h]
          simp [hres, hretry, tally, addUsage_assoc]
        · rw [if_neg hretry] at h
          cases h
          simp [hres, hretry, tally, addUsage_zero]
      · rw [hres] at h
        cases h
        simp [hres, tally, addUsage_zero]

def Consulted.usage : Consulted → TokenUsage
  | .degraded _ usage => usage
  | .decided _ usage _ => usage

theorem structuredRouting_usage {r : MeteredRouter} {out : Consulted} (h : structuredRouting r.router = .ok out) :
    out.usage =
      tally ((attemptsMade r.request maxRoutingRetries 1).map fun a => (requestRoutingDecision a).2) := by
  unfold structuredRouting at h
  cases hretry : retry r.router.request maxRoutingRetries 1 {} with
  | error fault => rw [hretry] at h; cases h
  | ok res =>
    obtain ⟨result, usage⟩ := res
    have hsum := retry_usage r.request maxRoutingRetries 1 {} hretry
    rw [zero_addUsage] at hsum
    rw [hretry] at h
    cases result with
    | error failure => cases h; exact hsum
    | ok decision => cases h; exact hsum

/-- What consulting the router costs is what its calls report. -/
theorem consult_tallies {st : Settings} {s : GraphState} {r : MeteredRouter} {out : Consulted}
    (hs : answeredBefore s = none) (h : consult st r.router = .ok out) :
    Tallies
      ((∀ x, (routingCalls st s r).1 = some x → x.used.totalTokens = 0) ∧
        ∀ a ∈ (routingCalls st s r).2, a.StatesTotal)
      out.usage (tally ((routingReports st s r).map Report.used)) := by
  have hstructured (hcalls : routingCalls st s r = (none, attemptsMade r.request maxRoutingRetries 1))
      (hout : structuredRouting r.router = .ok out) :
      Tallies ((∀ x, (routingCalls st s r).1 = some x → x.used.totalTokens = 0) ∧
        ∀ a ∈ (routingCalls st s r).2, a.StatesTotal) out.usage (tally ((routingReports st s r).map Report.used)) := by
    rw [routingReports, hcalls, structuredRouting_usage hout]
    exact (attempts_tally _).mono And.right
  have hbefore : (answeredBefore s).isSome = false := by rw [hs]; rfl
  unfold consult at h
  cases hclient : r.noClient with
  | error fault =>
    simp only [MeteredRouter.router_noClient, hclient] at h
    cases h
  | ok detail =>
    simp only [MeteredRouter.router_noClient, hclient] at h
    cases detail with
    | some detail =>
      cases h
      have hcalls : routingCalls st s r = (none, []) := by simp [routingCalls, hbefore, hclient]
      rw [routingReports, hcalls]
      exact Tallies.of_eq rfl
    | none =>
      cases hcfg : st.cfg.nativeToolCalling with
      | false =>
        refine hstructured (by simp [routingCalls, hbefore, hclient, hcfg]) ?_
        simpa [hcfg, bind, Except.bind] using h
      | true =>
        cases hnative : r.native with
        | error fault =>
          simp [hcfg, hnative, bind, Except.bind, Except.map] at h
        | ok reply =>
          cases reply with
          | failed failure =>
            refine hstructured (by simp [routingCalls, hbefore, hclient, hcfg, hnative]) ?_
            simpa [hcfg, hnative, decideNative, bind, Except.bind, Except.map] using h
          | answered usageMetadata toolCalls =>
            have hcalls : routingCalls st s r = (usageMetadata, []) := by
              simp [routingCalls, hbefore, hclient, hcfg, hnative]
            have hused : out.usage = nativeUsage usageMetadata := by
              simp only [hcfg, MeteredRouter.router_native, hnative, decideNative, bind, Except.bind, Except.map,
                if_true] at h
              split at h
              · cases h; rfl
              · cases h
            rw [routingReports, hcalls, hused]
            simp only [List.filterMap_nil, List.append_nil, tally_report]
            exact (nativeUsage_tallies usageMetadata).mono And.left

/-- The supervisor's update costs what its calls report; a turn that is bounded or answered
    makes none. -/
theorem supervisor_tallies {st : Settings} {e : MeteredEnv σ} {c : Conf σ} {u : Update} {db : σ}
    (hp : c.place = .at .supervisor) (h : supervisor st (e.models.seen c.st) c.st c.db = .ok (u, db)) :
    Tallies (StatesTotals st c e) u.usage (spentBy OllamaReply.answered st c e) := by
  simp only [StatesTotals, spentBy, hp]
  have hnone (hs : (answeredBefore c.st).isSome) : routingReports st c.st e.router = [] := by
    simp [routingReports, routingCalls, hs]
  rcases supervisor_cases h with ⟨hb, rfl, -⟩ | ⟨hlt, hv, rfl, -⟩ | ⟨hlt, hv, -, failure, usage, hc, rfl⟩ |
    ⟨hlt, hv, decision, usage, calls, canned, d, hc, -, rfl⟩
  · rw [hnone (by simp [answeredBefore, hb])]
    unfold stepBound
    split <;> exact Tallies.of_eq rfl
  · rw [hnone (by simp [answeredBefore, hv, Nat.not_le.mpr hlt])]
    exact Tallies.of_eq rfl
  · exact consult_tallies (answeredBefore_eq_none_iff.mpr ⟨hlt, hv⟩) hc
  · exact consult_tallies (answeredBefore_eq_none_iff.mpr ⟨hlt, hv⟩) hc

theorem NdjsonLine.line_usage (n : NdjsonLine) : n.line.usage = n.report.map Report.used := by
  cases n with
  | object o =>
    simp only [NdjsonLine.line, NdjsonLine.report, OllamaLine.usage]
    split <;> rfl
  | _ => rfl

/-- A loop that comes to its end returns the last counts it has read. -/
theorem ollamaLoop_usage {ends : Option Broken} (lines : List NdjsonLine) (parts : List String) (saw : Bool)
    (usage : Option TokenUsage) {said : List String} {saw' : Bool} {usage' : Option TokenUsage}
    (h : ollamaLoop ends (lines.map NdjsonLine.line) parts saw usage = (said, .ok (saw', usage'))) :
    usage' = (((received lines).filterMap NdjsonLine.report).getLast?.map Report.used).or usage := by
  induction lines generalizing parts saw usage with
  | nil =>
    simp only [List.map_nil, ollamaLoop] at h
    cases ends with
    | none => cases h; rfl
    | some b => cases h
  | cons line lines ih =>
    rw [List.map_cons, ollamaLoop] at h
    cases hf : line.line.failure with
    | some failure => rw [hf] at h; cases h
    | none =>
      rw [hf] at h
      rw [ih _ _ _ h, NdjsonLine.line_usage, received, hf]
      simp only [Option.isSome_none, Bool.false_eq_true, if_false]
      cases hr : line.report with
      | none => rw [List.filterMap_cons_none hr, Option.map_none, Option.none_or]
      | some r =>
        rw [List.filterMap_cons_some hr, List.getLast?_cons]
        cases ((received lines).filterMap NdjsonLine.report).getLast? <;> rfl

/-- What `local_llm` counts for a generation: a failed one, nothing. -/
def charged (g : Except WorkerFailure String × TokenUsage) : TokenUsage :=
  match g.1 with
  | .ok _ => g.2
  | .error _ => {}

/-- A local generation that comes to a text costs what it reports, and one that fails
    nothing. -/
theorem generateLocal_charged (s : GraphState) (r : OllamaReply) :
    charged (generateLocal s r.stream).2 = ((r.answered s).map Report.used).getD {} := by
  have hopened : r.stream.opened = r.opened := rfl
  unfold OllamaReply.answered charged
  rcases generateLocal_cases s r.stream with ⟨himages, hgen⟩ | ⟨-, -, failure, hgen⟩ | ⟨himages, ⟨status, hopen, hstatus⟩, hend⟩
  · rw [hgen]
    simp [OllamaReply.delivered, himages]
  · rw [hgen]
    rfl
  rcases hend with ⟨failure, -, hgen⟩ | ⟨-, -, failure, hgen⟩ | ⟨-, -, usage, hloop, hgen⟩
  · rw [hgen]
    rfl
  · rw [hgen]
    rfl
  · rw [hopened] at hopen
    have husage := ollamaLoop_usage r.lines [] false none hloop
    rw [Option.or_none] at husage
    rw [hgen]
    simp [OllamaReply.delivered, himages, hopen, hstatus, husage]

theorem GeminiReply.stream_usage (r : GeminiReply) : r.stream.usage = extractUsage r.report := by
  unfold CloudStream.usage GeminiReply.report GeminiReply.stream
  have hmap : (r.chunks.map GeminiChunk.chunk).filterMap (·.usage) =
      (r.chunks.filterMap (·.usageMetadata)).map fun x => extractUsage (some x) := by
    rw [List.filterMap_map, List.map_filterMap]
    rfl
  rw [hmap, List.getLast?_map]
  cases (r.chunks.filterMap (·.usageMetadata)).getLast? <;> rfl

theorem localLlm_charged {st : Settings} {e : StepEnv σ} {s : GraphState} {u : Update}
    {g : Except WorkerFailure String × TokenUsage} (hcanned : s.cannedReply.filter (· ≠ "") = none)
    (hcompose : compose st e.worker = .ok g) (h : localLlm st e s = .ok u) : u.usage = charged g := by
  obtain ⟨result, usage⟩ := g
  rw [localLlm, hcanned, hcompose] at h
  cases result with
  | ok text => cases h; rfl
  | error failure => cases h; rfl

/-- The reply's update costs what the models that it was asked of report. -/
theorem localLlm_tallies {st : Settings} {e : MeteredEnv σ} {c : Conf σ} {u : Update}
    (hp : c.place = .at .localLlm) (hfalls : FallsBackUnreported st c e)
    (h : localLlm st (e.models.seen c.st) c.st = .ok u) :
    Tallies (StatesTotals st c e) u.usage (spentBy OllamaReply.answered st c e) := by
  simp only [StatesTotals, spentBy, hp]
  cases hcanned : c.st.cannedReply.filter (· ≠ "") with
  | some canned =>
    rw [localLlm, hcanned] at h
    cases h
    simp only [composeReports, hcanned]
    exact Tallies.of_eq rfl
  | none =>
    simp only [composeReports, hcanned]
    have hcases := compose_cases st e.models c.st
    simp only [MeteredEnv.models_client, MeteredEnv.models_modelPref, MeteredEnv.models_cloud,
      MeteredEnv.models_ollama] at hcases
    rcases hcases with ⟨hlocal, hcompose⟩ | ⟨hlocal, fault, hclient, hcompose⟩ |
      ⟨hlocal, client, hclient, hworks, hcloud, hcompose⟩ |
      ⟨hlocal, client, failure, usage, hclient, hfails, hcloud, hcompose⟩
    · rw [localLlm_charged hcanned hcompose h, generateLocal_charged]
      simp only [hlocal, if_true, tally_report]
      exact Tallies.of_eq rfl
    · rw [localLlm, hcanned, hcompose] at h
      cases h
    · -- the cloud model's answer is kept
      obtain rfl := gemini_of_not_fails hworks
      have hcall : cloudCall e = (e.cloud.report, false) := by simp [cloudCall, hclient, hworks]
      rw [localLlm_charged hcanned hcompose h]
      show Tallies _ e.cloud.stream.usage _
      rw [GeminiReply.stream_usage, hcall]
      simp only [hlocal, Bool.false_eq_true, if_false, List.append_nil, tally_report]
      exact (usageFrom_tallies e.cloud.report).mono fun hT => hT trivial trivial
    · -- the local model answers, and the cloud model has reported nothing
      have hcall : (cloudCall e).2 = true := by simp [cloudCall, hclient, hfails]
      have hfree : tally ((cloudCall e).1.toList.map Report.used) = {} := by
        rw [tally_report]
        cases hreport : (cloudCall e).1 with
        | none => rfl
        | some r => exact hfalls hp hcanned hlocal hcall r hreport
      rw [localLlm_charged hcanned hcompose h, generateLocal_charged]
      simp only [hlocal, hcall, Bool.false_eq_true, if_false, if_true, List.map_append, tally_append, hfree,
        zero_addUsage, tally_report]
      exact Tallies.of_eq rfl

/-! ## Runs -/

/-- A superstep raises, or adds to the usage what its calls report. -/
theorem meteredStep_tallies {st : Settings} {c : Conf σ} {e : MeteredEnv σ} (hfalls : FallsBackUnreported st c e) :
    (∃ fault, (meteredStep st c e).1.place = .raised fault) ∨
      Tallies (StatesTotals st c e) (meteredStep st c e).1.st.usage
        (addUsage c.st.usage (spentBy OllamaReply.answered st c e)) := by
  unfold meteredStep modelStep
  rcases superstep_cases st c (e.models.seen c.st) with ⟨hended, hs⟩ | ⟨n, fault, hp, -, hs⟩ | ⟨n, u, db, hp, hrun, hs⟩
  · right
    rw [hs]
    cases hp : c.place with
    | «at» n => rw [hp] at hended; exact hended.elim
    | finished => simp only [spentBy, hp, addUsage_zero]; exact Tallies.of_eq rfl
    | raised fault => simp only [spentBy, hp, addUsage_zero]; exact Tallies.of_eq rfl
  · left
    rw [hs]
    exact ⟨fault, rfl⟩
  · right
    rw [hs]
    show Tallies _ (addUsage c.st.usage u.usage) _
    refine (Tallies.of_eq rfl).add ?_
    cases n with
    | supervisor => exact supervisor_tallies hp hrun
    | localLlm => exact localLlm_tallies hp hfalls (runNode_worker hrun).1
    | toolExecution =>
      obtain ⟨messages, executedCalls, rfl⟩ := toolExecution_update (runNode_worker hrun).1
      simp only [spentBy, hp]
      exact Tallies.of_eq rfl

theorem metered_ended (st : Settings) {c : Conf σ} (h : c.place.ended) (envs : List (MeteredEnv σ)) :
    Machine.final (meteredStep st) c envs = c :=
  Machine.final_of_fixed (fun e => superstep_ended st h (e.models.seen c.st)) envs

theorem spent_cons (ofLocal : GraphState → OllamaReply → Option Report) (st : Settings) (c : Conf σ) (e : MeteredEnv σ)
    (envs : List (MeteredEnv σ)) :
    spent ofLocal st c (e :: envs) =
      addUsage (spentBy ofLocal st c e) (spent ofLocal st (meteredStep st c e).1 envs) := rfl

/-- A run that ends without an error has added up what its calls report. -/
theorem run_tallies {st : Settings} {c : Conf σ} {envs : List (MeteredEnv σ)}
    (hend : (Machine.final (meteredStep st) c envs).place = .finished)
    (hfalls : Machine.Meets (meteredStep st) (FallsBackUnreported st) c envs) :
    Tallies (Machine.Meets (meteredStep st) (StatesTotals st) c envs)
      (Machine.final (meteredStep st) c envs).st.usage
      (addUsage c.st.usage (spent OllamaReply.answered st c envs)) := by
  induction envs generalizing c with
  | nil => exact Tallies.of_eq (addUsage_zero _).symm
  | cons e envs ih =>
    rw [Machine.final_cons] at hend ⊢
    obtain ⟨hnow, hrest⟩ := (Machine.meets_cons _).mp hfalls
    rcases meteredStep_tallies hnow with ⟨fault, hraised⟩ | hstep
    · rw [metered_ended st (by rw [hraised]; trivial), hraised] at hend
      cases hend
    · have hthen := ih hend hrest
      rw [spent_cons, ← addUsage_assoc]
      have hsum := (hstep.mono fun hT => ((Machine.meets_cons _).mp hT).1).add
        (Tallies.of_eq (T := Machine.Meets (meteredStep st) (StatesTotals st) c (e :: envs)) rfl :
          Tallies _ (spent OllamaReply.answered st (meteredStep st c e).1 envs) _)
      exact (hthen.mono fun hT => ((Machine.meets_cons _).mp hT).2).trans hsum

/-- In a run that ends without an error, where no cloud answer that had reported tokens
    fails over, the input and output tokens of the outcome are those of the reports and of
    the tool steps; and so is the total, where the reports state theirs. An outcome with an
    error has none. -/
theorem usage_conserved (st : Settings) (t : Turn) (db : σ) (envs : List (MeteredEnv σ)) :
    ((Machine.final (meteredStep st) (start t db) envs).place ≠ .finished →
        outcomeUsage (Machine.final (meteredStep st) (start t db) envs) = {}) ∧
      ((Machine.final (meteredStep st) (start t db) envs).place = .finished →
        Machine.Meets (meteredStep st) (FallsBackUnreported st) (start t db) envs →
        (outcomeUsage (Machine.final (meteredStep st) (start t db) envs)).inputTokens =
            (spent OllamaReply.answered st (start t db) envs).inputTokens ∧
          (outcomeUsage (Machine.final (meteredStep st) (start t db) envs)).outputTokens =
            (spent OllamaReply.answered st (start t db) envs).outputTokens ∧
          (Machine.Meets (meteredStep st) (StatesTotals st) (start t db) envs →
            (outcomeUsage (Machine.final (meteredStep st) (start t db) envs)).totalTokens =
              (spent OllamaReply.answered st (start t db) envs).totalTokens)) := by
  constructor
  · intro hend
    cases hp : (Machine.final (meteredStep st) (start t db) envs).place with
    | «at» n => simp only [outcomeUsage, hp]
    | finished => exact absurd hp hend
    | raised fault => simp only [outcomeUsage, hp]
  · intro hend hfalls
    have hsum := run_tallies hend hfalls
    have hzero : (start t db).st.usage = {} := rfl
    rw [hzero, zero_addUsage] at hsum
    simp only [outcomeUsage, hend]
    exact ⟨hsum.input, hsum.output, hsum.total⟩

theorem attemptsMade_requested {request : Nat → Except Fault Attempted} {left attempt : Nat} {a : Attempted}
    (h : a ∈ attemptsMade request left attempt) : ∃ n, request n = .ok a := by
  induction left generalizing attempt with
  | zero =>
    unfold attemptsMade at h
    split at h
    · cases h
    · next hr =>
      split at h
      · next heq => cases heq
      · exact ⟨attempt, by rw [hr, List.mem_singleton.mp h]⟩
  | succ left ih =>
    unfold attemptsMade at h
    split at h
    · cases h
    · next hr =>
      rcases List.mem_cons.mp h with rfl | hrest
      · exact ⟨attempt, hr⟩
      · split at hrest
        · split at hrest
          · next hleft _ => cases hleft; exact ih hrest
          · cases hrest
        · cases hrest

theorem routingCalls_requested {st : Settings} {s : GraphState} {r : MeteredRouter} {a : Attempted}
    (h : a ∈ (routingCalls st s r).2) : ∃ n, r.request n = .ok a := by
  unfold routingCalls at h
  repeat' split at h
  all_goals first
    | exact attemptsMade_requested h
    | cases h

/-- A step whose router decides on its second attempt, and whose models report. -/
def reporting (decision : RoutingDecision) : MeteredEnv (Plans.Key → Plans.Slot (List Call)) where
  router :=
    { noClient := .ok none
      native := .ok (.answered none [])
      request := fun attempt =>
        .ok (.gemini (some ⟨some 90, some 4, some 94⟩)
          (if attempt = 1 then .error "ValueError: empty model response" else .ok decision)) }
  savedRef := fun _ _ => .ok none
  store := pendingPlans 1800 reliableEnv 0
  dispatchTool := fun _ _ => .ok "no events"
  client := .ok .gemini
  cloud := ⟨[{ text := some "Nothing this week.", usageMetadata := some ⟨some 200, some 8, some 208⟩ }], none⟩
  ollama := { lines := [.object { response := some (some "Nothing this week."), counts := ⟨some 150, some 6⟩ }] }

theorem reporting_statesTotals (decision : RoutingDecision) (c : Conf (Plans.Key → Plans.Slot (List Call))) :
    StatesTotals cloudSettings c (reporting decision) := by
  unfold StatesTotals
  split
  · refine ⟨?_, fun a ha => ?_⟩
    · intro r hr
      simp only [routingCalls, reporting, cloudSettings, Bool.false_eq_true, if_false] at hr
      split at hr <;> cases hr
    · obtain ⟨attempt, hattempt⟩ := routingCalls_requested ha
      cases hattempt
      intro r hr
      cases hr
      exact Or.inl rfl
  · intro _ _ r hr
    cases hr
    exact Or.inl rfl
  · trivial

def reportedTurn : List (MeteredEnv (Plans.Key → Plans.Slot (List Call))) :=
  List.replicate 2 (reporting { nextNode := .toolExecution, toolName := some .listCalendarEvents }) ++
    List.replicate 3 (reporting { nextNode := .localLlm })

def asking (calls : List Call) : MeteredEnv (Plans.Key → Plans.Slot (List Call)) :=
  { reporting { nextNode := .localLlm } with
    router :=
      { noClient := .ok none
        native := .ok (.answered (some ⟨some 120, some 3, some 123⟩) calls)
        request := fun _ => .ok (.raised ⟨.network, "ConnectError"⟩) } }

def toolCallingSettings : Settings := { cfg := { nativeToolCalling := true }, pyd := strict }

/-- A look at the calendar, then an event whose title is a number. -/
def raisedTurn : List (MeteredEnv (Plans.Key → Plans.Slot (List Call))) :=
  List.replicate 2 (asking [⟨"list_calendar_events", []⟩]) ++
    [asking [⟨"create_calendar_event", [("summary", .int 5)]⟩]]

def brokenReport : MeteredEnv (Plans.Key → Plans.Slot (List Call)) :=
  { reporting { nextNode := .localLlm } with
    ollama := { lines := [.object { response := some (some "Nothing"), counts := ⟨some 150, some 6⟩ },
                  .malformed "JSONDecodeError"] } }

/-- Four routing attempts, a tool step and an answer of the cloud model. -/
theorem usage_conserved_reported :
    let c := Machine.final (meteredStep cloudSettings) (start calendarQuestion emptyDb) reportedTurn
    (outcomeUsage c).inputTokens = 565 ∧ (outcomeUsage c).outputTokens = 24 ∧ (outcomeUsage c).totalTokens = 589 := by
  have hlist : ∀ e ∈ reportedTurn, ∃ decision, e = reporting decision := by
    intro e he
    rcases List.mem_append.mp he with he | he
    · exact ⟨_, List.eq_of_mem_replicate he⟩
    · exact ⟨_, List.eq_of_mem_replicate he⟩
  have hfalls : Machine.Meets (meteredStep cloudSettings) (FallsBackUnreported cloudSettings)
      (start calendarQuestion emptyDb) reportedTurn := by
    refine Machine.meets_of_ops _ fun e he c => ?_
    obtain ⟨decision, rfl⟩ := hlist e he
    intro _ _ _ hfails
    cases hfails
  have htotals : Machine.Meets (meteredStep cloudSettings) (StatesTotals cloudSettings)
      (start calendarQuestion emptyDb) reportedTurn := by
    refine Machine.meets_of_ops _ fun e he c => ?_
    obtain ⟨decision, rfl⟩ := hlist e he
    exact reporting_statesTotals decision c
  obtain ⟨hin, hout, htotal⟩ :=
    (usage_conserved cloudSettings calendarQuestion emptyDb reportedTurn).2 (by decide +kernel) hfalls
  have hspent : spent OllamaReply.answered cloudSettings (start calendarQuestion emptyDb) reportedTurn =
      ⟨565, 24, 589⟩ := by decide +kernel
  intro c
  rw [hin, hout, htotal htotals, hspent]
  exact ⟨rfl, rfl, rfl⟩

/-- A local answer that breaks off after its report counts nothing, and a run that raises
    after a tool step has no usage at all. -/
theorem failures_count_nothing :
    ((Machine.final (meteredStep { pyd := strict }) (start calendarQuestion emptyDb)
          (List.replicate 3 brokenReport)).place = .finished ∧
        spent OllamaReply.delivered { pyd := strict } (start calendarQuestion emptyDb) (List.replicate 3 brokenReport) =
          ⟨330, 14, 344⟩ ∧
        outcomeUsage (Machine.final (meteredStep { pyd := strict }) (start calendarQuestion emptyDb)
          (List.replicate 3 brokenReport)) = ⟨180, 8, 188⟩) ∧
      (Machine.final (meteredStep toolCallingSettings) (start calendarQuestion emptyDb) raisedTurn).place =
          .raised "validation error for ToolArgs" ∧
        spent OllamaReply.delivered toolCallingSettings (start calendarQuestion emptyDb) raisedTurn = ⟨245, 6, 251⟩ ∧
        outcomeUsage (Machine.final (meteredStep toolCallingSettings) (start calendarQuestion emptyDb) raisedTurn) =
          {} := by
  refine ⟨⟨?_, ?_, ?_⟩, ?_, ?_, ?_⟩ <;> decide +kernel

end CoreHeartbeat.Graph
