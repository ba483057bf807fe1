/-
  CoreHeartbeat.Knowledge.Turn — one turn of the knowledge chat (`run` in `knowledge_chat.py`):
  up to MAX_ROUNDS rounds in which the model may call tools, one more without, and the sources
  of the answer.

  A round is a step of a machine whose state is what `run` keeps between rounds: the contents
  sent so far, the context, the answer, whether a tool has run, whether the turn has failed.
  From outside comes what the model streams and where its stream breaks off, how the KB service
  meets each call, and in which order the calls of a round end: a call waits for the service and
  then runs through, so they interleave as their ends are ordered.

  A turn is prepared (its library, its system prompt), goes through its rounds and is finished
  with its sources and its status. Each of the three may raise, and what is raised leaves `run`
  (`Transcript.raised`).

  Proved, as the specification of a round for the modules that follow:
  - `round_spec`: all that a round can do (`Outcome`): it fails, answers, discards an answer
    from memory, or calls tools.
  - `running_rounds`: a turn that is still running after `k` rounds is at round `k + 1`, and all
    of them had tools.
  - `loop_left`: the loop does not run out: its last round leaves it.
  - `rounds_idle`, `events_of_left`: a turn that has left the loop yields no more there.
-/

import CoreHeartbeat.Lib.Machine
import CoreHeartbeat.Knowledge.Citations

namespace CoreHeartbeat.Knowledge

open CoreHeartbeat.Graph (Json Args)

/-! ## The request -/

inductive Speaker where
  | user | assistant
  deriving DecidableEq, Repr

structure KnowledgeSource where
  documentId : Option String
  title : String

structure KnowledgeTurn where
  role : Speaker
  content : String
  sources : List KnowledgeSource := []

structure KnowledgeChatRequest where
  text : String
  history : List KnowledgeTurn := []

/-! ## What goes to the model -/

inductive Role where
  | user | model
  deriving DecidableEq, Repr

structure FunctionCall where
  name : Option String
  args : Args
  deriving Repr

structure Part where
  functionCall : Option FunctionCall := none
  /-- The name and the result. -/
  functionResponse : Option (String × String) := none
  text : Option String := none
  thought : Bool := false
  deriving Repr

def Part.fromText (text : String) : Part := { text := some text }

def Part.fromFunctionResponse (name result : String) : Part := { functionResponse := some (name, result) }

structure Content where
  role : Role
  parts : List Part
  deriving Repr

def Content.calls (c : Content) : List FunctionCall := c.parts.filterMap (·.functionCall)

def Content.responses (c : Content) : List (String × String) := c.parts.filterMap (·.functionResponse)

inductive Mode where
  | auto | any | none
  deriving DecidableEq, Repr

/-- A call of `generate_content_stream`. -/
structure ModelRequest where
  system : String
  contents : List Content
  mode : Mode

/-- `l[-n:]` -/
def lastOf {α : Type} (n : Int) (l : List α) : List α := if 0 < n then l.drop (l.length - n.toNat) else l.drop n.natAbs

def strip (text : String) : String := String.ofList (PyText.strip text.toList)

/-- A turn is merged with the one before when the role is the same. -/
def say (turns : List (Role × String)) (role : Role) (text : String) : List (Role × String) :=
  match turns.getLast? with
  | some (r, said) => if r = role then turns.dropLast ++ [(r, said ++ "\n\n" ++ text)] else turns ++ [(role, text)]
  | none => [(role, text)]

def addTurn (turns : List (Role × String)) (t : KnowledgeTurn) : List (Role × String) :=
  if strip t.content = "" then turns else say turns (if t.role = .user then .user else .model) (strip t.content)

def historyContents (st : Settings) (req : KnowledgeChatRequest) : List Content :=
  let turns := ((lastOf st.historyTurns req.history).foldl addTurn []).dropWhile (·.1 ≠ .user)
  (say turns .user (strip req.text)).map fun t => ⟨t.1, [.fromText t.2]⟩

/-! ## The system prompt -/

/-- `docs[:limit]`, iterated. -/
def firstItems (limit : Nat) : Json → Except Fault (List Json)
  | .arr vs => .ok (vs.take limit)
  | .str s => .ok ((s.toList.take limit).map fun c => .str (String.ofList [c]))
  | .obj _ => .error "KeyError"
  | _ => .error "TypeError"

def libraryLine (st : Settings) (d : Json) : Except Fault String := do
  let added := day st (← get d "created_at")
  let title ← orUntitled (← get d "title")
  return "- " ++ title ++ (if added = "" then "" else " (added " ++ added ++ ")")

def libraryBlock (st : Settings) : Option Json → Except Fault String
  | none => .ok "The document list could not be loaded; use list_documents or search_knowledge.\n"
  | some docs => do
    if !truthy docs then return "The knowledge base is EMPTY — there are no documents to answer from.\n"
    let count ← lenOf docs
    let lines ← (← firstItems libraryTitles docs).mapM (libraryLine st)
    let more :=
      if libraryTitles < count then ["- … and " ++ toString (count - libraryTitles) ++ " more (use list_documents)"]
      else []
    return "\n".intercalate
      (["The knowledge base holds " ++ toString count ++ " document(s), newest first:"] ++ lines ++ more) ++ "\n"

/-- `_discussed_block`: the documents that earlier answers cited, most recent last. -/
def discussedBlock (st : Settings) (req : KnowledgeChatRequest) : String :=
  let cited := (lastOf st.historyTurns req.history).flatMap fun t =>
    if t.role = .assistant then t.sources.map (·.title) else []
  let titles := cited.foldl (fun titles title => titles.erase title ++ [title]) []
  if titles = [] then ""
  else
    "Documents earlier answers in this conversation cited (most recent last) — " ++
      "\"that report\", \"it\", \"the other one\" refer to these:\n" ++
      "\n".intercalate ((titles.drop (titles.length - 10)).map ("- " ++ ·)) ++ "\n\n"

def summaryOf (d : Json) : Except Fault (List (String × Json)) := do
  let title ← get d "title"
  if truthy title then return [(← stripped title, orElse (← get d "summary") (.str ""))] else return []

def summariesOf (docs : Option Json) : Except Fault (List (String × Json)) := do
  let entries ← (← items (docs.getD (.arr []))).mapM summaryOf
  return entries.flatten

/-! ## Grounding -/

def groundNudge : String :=
  "Before answering, search or read the knowledge base in this turn. Earlier answers in " ++
    "the conversation are not evidence, and their citation numbers do not refer to anything " ++
    "you have retrieved now."

def ungrounded (st : Settings) (answer : String) (req : KnowledgeChatRequest) : Bool :=
  !(citations st.unicode answer.toList).isEmpty || (!req.history.isEmpty && memoryAnswerChars < answer.length)

/-! ## Events -/

inductive Status where
  | completed | error
  deriving DecidableEq, Repr

inductive Event where
  | token (text : String)
  | toolCall (name : Option String) (args : Args)
  | sources (entries : List SourceEntry)
  | status (s : Status)
  deriving Repr

def notConfigured : String := "Knowledge chat is not configured (no model key)."

def couldNotReach : String :=
  "The knowledge chat couldn't reach the model just now. Please try again in a moment."

def noAnswer : String :=
  "I couldn't put together an answer from the knowledge base. Try rephrasing the question."

/-! ## What the model streams -/

/-- The parts of each candidate of each chunk, and what breaks the stream off after them. -/
structure Response where
  chunks : List (List (List Part))
  failure : Option Fault := none

namespace Response

def parts (r : Response) : List Part := r.chunks.flatten.flatten

def calls (r : Response) : List FunctionCall := r.parts.filterMap (·.functionCall)

def said (p : Part) : Option String :=
  if p.functionCall.isSome || p.thought then none else p.text.filter (· ≠ "")

def texts (r : Response) : List String := r.parts.filterMap said

end Response

/-! ## The tool calls of a round -/

structure RoundEnv where
  response : Response
  /-- By the number of the call. -/
  kb : Nat → Kb
  /-- In which order the calls end. -/
  rank : Nat → Nat := id

structure Ended where
  index : Nat
  result : String
  ctx : TurnContext

/-- A call runs through to its end. -/
def endCall (st : Settings) (kb : Nat → Kb) (calls : List FunctionCall) (ctx : TurnContext) (i : Nat) :
    TurnContext × List Ended :=
  match calls[i]? with
  | none => (ctx, [])
  | some c =>
    let (result, ctx) := runTool st (kb i) ctx (c.name.getD "") c.args
    (ctx, [⟨i, result, ctx⟩])

/-- `asyncio.gather` over the calls: how they end, and the context after all of them. -/
def runCalls (st : Settings) (e : RoundEnv) (calls : List FunctionCall) (ctx : TurnContext) :
    List Ended × TurnContext :=
  let order := completionOrder e.rank calls.length
  ((Machine.outs (endCall st e.kb calls) ctx order).flatten, Machine.final (endCall st e.kb calls) ctx order)

def resultsOf (ended : List Ended) (n : Nat) : List String :=
  (List.range n).map fun i => ((ended.find? (·.index = i)).map (·.result)).getD ""

/-! ## A round -/

inductive Phase where
  | running
  /-- The loop was left: what follows is the end of the turn. -/
  | ended
  /-- The turn is over. -/
  | failed
  deriving DecidableEq, Repr

structure TurnState where
  roundNo : Nat
  contents : List Content
  ctx : TurnContext
  answerParts : List String
  toolsCalled : Bool
  forceTools : Bool
  phase : Phase

structure RoundOut where
  requests : List ModelRequest := []
  events : List Event := []
  /-- After each tool call. -/
  contexts : List TurnContext := []

namespace TurnState

variable (st : Settings) (s : TurnState)

def toolsEnabled : Bool := s.roundNo ≤ st.maxRounds

/-- Until a tool has run, the text is held back. -/
def buffering : Bool := !s.toolsCalled && s.toolsEnabled st

/-- `_config`. -/
def mode : Mode := if s.toolsEnabled st then (if s.forceTools then .any else .auto) else .none

/-- What is yielded as it arrives. -/
def streamed (r : Response) : List String := if s.buffering st then [] else r.texts

def broken : TurnState × List Event :=
  if s.answerParts ≠ [] then ({ s with phase := .ended }, [])
  else ({ s with phase := .failed }, [.token couldNotReach, .status .error])

def answered (req : KnowledgeChatRequest) (r : Response) : TurnState × List Event :=
  let heldText := if s.buffering st then String.join r.texts else ""
  if s.buffering st && !s.forceTools && ungrounded st heldText req then
    -- answered from memory: discarded, and the next round must retrieve
    ({ s with
        contents := s.contents ++ [⟨.model, [.fromText heldText]⟩, ⟨.user, [.fromText groundNudge]⟩]
        forceTools := true }, [])
  else if heldText ≠ "" then
    ({ s with answerParts := s.answerParts ++ [heldText], phase := .ended }, [.token heldText])
  else ({ s with phase := .ended }, [])

def called (e : RoundEnv) (streamedThisRound : Bool) : TurnState × List Event × List TurnContext :=
  let calls := e.response.calls.take maxCallsPerRound
  let (ended, ctx) := runCalls st e calls s.ctx
  let responses := (calls.zip (resultsOf ended calls.length)).map fun c => .fromFunctionResponse (c.1.name.getD "") c.2
  let gap := if streamedThisRound then ["\n\n"] else []
  ({ s with
      contents := s.contents ++ [⟨.model, e.response.parts⟩, ⟨.user, responses⟩]
      ctx := ctx
      answerParts := s.answerParts ++ gap
      toolsCalled := true
      forceTools := false },
    calls.map (fun c => .toolCall c.name c.args) ++ gap.map .token,
    ended.map (·.ctx))

end TurnState

def afterStream (st : Settings) (req : KnowledgeChatRequest) (s : TurnState) (e : RoundEnv) (streamedThisRound : Bool) :
    TurnState × List Event × List TurnContext :=
  if e.response.failure.isSome then (s.broken.1, s.broken.2, [])
  else if e.response.calls = [] then ((s.answered st req e.response).1, (s.answered st req e.response).2, [])
  else if s.toolsEnabled st then s.called st e streamedThisRound
  else ({ s with phase := .ended }, [], [])

def round (st : Settings) (req : KnowledgeChatRequest) (system : String) (s : TurnState) (e : RoundEnv) :
    TurnState × RoundOut :=
  if s.phase = .running then
    let streamed := s.streamed st e.response
    let (s', events, contexts) :=
      afterStream st req { s with answerParts := s.answerParts ++ streamed } e (!streamed.isEmpty)
    ({ s' with roundNo := s.roundNo + 1 },
      { requests := [⟨system, s.contents, s.mode st⟩]
        events := streamed.map .token ++ events
        contexts := contexts })
  else (s, {})

/-! ## A turn -/

structure TurnEnv where
  client : Bool := true
  listDocuments : Except Fault Json
  /-- The fixed text of the system prompt around the library and the documents discussed. -/
  frame : String → String → String
  rounds : Nat → RoundEnv

/-- The library at the start of the turn; `none` when it could not be loaded. -/
def libraryOf (env : TurnEnv) : Option Json :=
  match env.listDocuments >>= (get · "documents") with
  | .ok docs => some (orElse docs (.arr []))
  | .error _ => none

def prepare (st : Settings) (req : KnowledgeChatRequest) (env : TurnEnv) : Except Fault (String × TurnContext) := do
  let library ← libraryBlock st (libraryOf env)
  let summaries ← summariesOf (libraryOf env)
  return (env.frame library (discussedBlock st req), .empty summaries)

def start (st : Settings) (req : KnowledgeChatRequest) (ctx : TurnContext) : TurnState :=
  ⟨1, historyContents st req, ctx, [], false, false, .running⟩

def roundsOf (st : Settings) (env : TurnEnv) : List RoundEnv := (List.range (st.maxRounds + 1).toNat).map env.rounds

def answerOf (s : TurnState) : String := strip (String.join s.answerParts)

/-- The end of the turn, after the loop. -/
def finish (st : Settings) (s : TurnState) : List Event × Option Fault :=
  if answerOf s = "" then ([.token noAnswer, .sources [], .status .completed], none)
  else
    match citedSources st.unicode (answerOf s) s.ctx with
    | .ok entries => ([.sources entries, .status .completed], none)
    | .error fault => ([], some fault)

/-- What a turn did; `raised` is what left `run`. -/
structure Transcript where
  requests : List ModelRequest
  events : List Event
  contexts : List TurnContext
  raised : Option Fault

def lastState (st : Settings) (req : KnowledgeChatRequest) (env : TurnEnv) (system : String) (ctx : TurnContext) :
    TurnState :=
  Machine.final (round st req system) (start st req ctx) (roundsOf st env)

/-- The rounds, and the end of the turn. -/
def runRounds (st : Settings) (req : KnowledgeChatRequest) (env : TurnEnv) (system : String) (ctx : TurnContext) :
    Transcript :=
  let outs := Machine.outs (round st req system) (start st req ctx) (roundsOf st env)
  let s := lastState st req env system ctx
  let (events, raised) := if s.phase = .failed then ([], none) else finish st s
  ⟨outs.flatMap (·.requests), outs.flatMap (·.events) ++ events, ctx :: outs.flatMap (·.contexts), raised⟩

def run (st : Settings) (req : KnowledgeChatRequest) (env : TurnEnv) : Transcript :=
  if !env.client then ⟨[], [.token notConfigured, .status .error], [], none⟩
  else
    match prepare st req env with
    | .error fault => ⟨[], [], [], some fault⟩
    | .ok (system, ctx) => runRounds st req env system ctx

/-- The turn gets to its rounds, with this system prompt and this context. -/
def Opens (st : Settings) (req : KnowledgeChatRequest) (env : TurnEnv) (system : String) (ctx : TurnContext) : Prop :=
  env.client = true ∧ prepare st req env = .ok (system, ctx)

theorem run_cases (st : Settings) (req : KnowledgeChatRequest) (env : TurnEnv) :
    (env.client = false ∧ run st req env = ⟨[], [.token notConfigured, .status .error], [], none⟩) ∨
      (env.client = true ∧ ∃ fault, prepare st req env = .error fault ∧ run st req env = ⟨[], [], [], some fault⟩) ∨
      ∃ system ctx, Opens st req env system ctx ∧ run st req env = runRounds st req env system ctx := by
  unfold run Opens
  cases env.client with
  | false => exact Or.inl ⟨rfl, rfl⟩
  | true =>
    cases prepare st req env with
    | error fault => exact Or.inr (Or.inl ⟨rfl, fault, rfl, rfl⟩)
    | ok opened => exact Or.inr (Or.inr ⟨opened.1, opened.2, ⟨rfl, rfl⟩, rfl⟩)

theorem Opens.unique {st : Settings} {req : KnowledgeChatRequest} {env : TurnEnv} {system system' : String}
    {ctx ctx' : TurnContext} (h : Opens st req env system ctx) (h' : Opens st req env system' ctx') :
    system' = system ∧ ctx' = ctx := by
  have := h'.2.symm.trans h.2
  rw [Except.ok.injEq, Prod.mk.injEq] at this
  exact this

/-! ## What the reader gets -/

def Event.text : Event → Option String
  | .token text => some text
  | _ => none

def tokens (events : List Event) : List String := events.filterMap Event.text

@[simp] theorem tokens_nil : tokens [] = [] := rfl

@[simp] theorem tokens_append (l m : List Event) : tokens (l ++ m) = tokens l ++ tokens m := List.filterMap_append ..

@[simp] theorem tokens_map (texts : List String) : tokens (texts.map .token) = texts := by
  rw [tokens, List.filterMap_map]
  exact List.filterMap_some

def spoken (t : Transcript) : String := String.join (tokens t.events)

/-- The end of the turn adds no text but the notice. -/
theorem tokens_finish (st : Settings) (s : TurnState) :
    tokens (finish st s).1 = if answerOf s = "" then [noAnswer] else [] := by
  unfold finish
  split
  · rfl
  · split <;> rfl

/-! ## What a round can do -/

section Outcome

variable (st : Settings) (req : KnowledgeChatRequest)

/-- All that a round can do to a running turn: the state after it, what is yielded, and the
    context after each tool call. -/
inductive Outcome (s : TurnState) (e : RoundEnv) : TurnState → List Event → List TurnContext → Prop
  /-- The model failed after some of the answer had been yielded. -/
  | broken : e.response.failure.isSome → s.answerParts ++ s.streamed st e.response ≠ [] →
      Outcome s e
        { s with roundNo := s.roundNo + 1, answerParts := s.answerParts ++ s.streamed st e.response, phase := .ended }
        ((s.streamed st e.response).map .token) []
  /-- The model failed before. -/
  | failed : e.response.failure.isSome → s.answerParts = [] → s.streamed st e.response = [] →
      Outcome s e { s with roundNo := s.roundNo + 1, phase := .failed } [.token couldNotReach, .status .error] []
  /-- Answered from memory. -/
  | nudged : e.response.failure = none → e.response.calls = [] → s.buffering st = true → s.forceTools = false →
      ungrounded st (String.join e.response.texts) req = true →
      Outcome s e
        { s with
          roundNo := s.roundNo + 1
          contents := s.contents ++
            [⟨.model, [.fromText (String.join e.response.texts)]⟩, ⟨.user, [.fromText groundNudge]⟩]
          forceTools := true } [] []
  /-- The text held back is the answer. -/
  | answered : e.response.failure = none → e.response.calls = [] → s.buffering st = true →
      (s.forceTools = true ∨ ungrounded st (String.join e.response.texts) req = false) →
      String.join e.response.texts ≠ "" →
      Outcome s e
        { s with
          roundNo := s.roundNo + 1
          answerParts := s.answerParts ++ [String.join e.response.texts]
          phase := .ended } [.token (String.join e.response.texts)] []
  /-- There is nothing to add to what was yielded. -/
  | closed : e.response.failure = none → e.response.calls = [] →
      (s.buffering st = true → String.join e.response.texts = "") →
      Outcome s e
        { s with roundNo := s.roundNo + 1, answerParts := s.answerParts ++ s.streamed st e.response, phase := .ended }
        ((s.streamed st e.response).map .token) []
  /-- Calls in the round without tools. -/
  | cut : e.response.failure = none → e.response.calls ≠ [] → s.toolsEnabled st = false →
      Outcome s e
        { s with roundNo := s.roundNo + 1, answerParts := s.answerParts ++ s.streamed st e.response, phase := .ended }
        ((s.streamed st e.response).map .token) []
  /-- The tools were called. -/
  | called (calls : List FunctionCall) (ended : List Ended) (ctx : TurnContext) (gap : List String) :
      e.response.failure = none → e.response.calls ≠ [] → s.toolsEnabled st = true →
      calls = e.response.calls.take maxCallsPerRound → runCalls st e calls s.ctx = (ended, ctx) →
      gap = (if s.streamed st e.response = [] then [] else ["\n\n"]) →
      Outcome s e
        { s with
          roundNo := s.roundNo + 1
          contents := s.contents ++ [⟨.model, e.response.parts⟩, ⟨.user,
            (calls.zip (resultsOf ended calls.length)).map fun c => .fromFunctionResponse (c.1.name.getD "") c.2⟩]
          ctx := ctx
          answerParts := s.answerParts ++ s.streamed st e.response ++ gap
          toolsCalled := true
          forceTools := false }
        ((s.streamed st e.response).map .token ++ (calls.map (fun c => .toolCall c.name c.args) ++ gap.map .token))
        (ended.map (·.ctx))

variable {st req}

theorem ungrounded_empty : ungrounded st "" req = false := by simp [ungrounded, citations]

theorem streamed_of_buffering {s : TurnState} {r : Response} (h : s.buffering st = true) : s.streamed st r = [] := by
  rw [TurnState.streamed, h]; rfl

/-! ### An answer without calls -/

theorem answered_streamed {s : TurnState} {r : Response} (h : s.buffering st = false) :
    s.answered st req r = ({ s with phase := .ended }, []) := by
  simp [TurnState.answered, h]

theorem answered_from_memory {s : TurnState} {r : Response} (h : s.buffering st = true) (hforce : s.forceTools = false)
    (hmemory : ungrounded st (String.join r.texts) req = true) :
    s.answered st req r = ({ s with
      contents := s.contents ++ [⟨.model, [.fromText (String.join r.texts)]⟩, ⟨.user, [.fromText groundNudge]⟩]
      forceTools := true }, []) := by
  simp [TurnState.answered, h, hforce, hmemory]

theorem answered_held {s : TurnState} {r : Response} (h : s.buffering st = true)
    (hgrounded : s.forceTools = true ∨ ungrounded st (String.join r.texts) req = false) :
    s.answered st req r =
      if String.join r.texts ≠ "" then
        ({ s with answerParts := s.answerParts ++ [String.join r.texts], phase := .ended },
          [.token (String.join r.texts)])
      else ({ s with phase := .ended }, []) := by
  have hkept : (s.buffering st && !s.forceTools && ungrounded st (String.join r.texts) req) = false := by
    rcases hgrounded with hforce | htext
    · simp [hforce]
    · simp [htext]
  simp only [TurnState.answered, h, if_true] at hkept ⊢
  rw [hkept]
  rfl

/-! ### A round, after its stream -/

def TurnState.heard (s : TurnState) (st : Settings) (r : Response) : TurnState :=
  { s with answerParts := s.answerParts ++ s.streamed st r }

/-- What a round makes of its stream is one of its outcomes. -/
def EndsAs (st : Settings) (req : KnowledgeChatRequest) (s : TurnState) (e : RoundEnv)
    (after : TurnState × List Event × List TurnContext) : Prop :=
  Outcome st req s e { after.1 with roundNo := s.roundNo + 1 } ((s.streamed st e.response).map .token ++ after.2.1)
    after.2.2

section
variable {s : TurnState} {e : RoundEnv}

theorem endsAs_broken (hfail : e.response.failure.isSome) :
    EndsAs st req s e ((s.heard st e.response).broken.1, (s.heard st e.response).broken.2, []) := by
  unfold EndsAs
  by_cases hparts : s.answerParts ++ s.streamed st e.response = []
  · obtain ⟨hanswer, hstreamed⟩ := List.append_eq_nil_iff.mp hparts
    rw [TurnState.broken, TurnState.heard, if_neg (not_not.mpr hparts), hstreamed, hanswer]
    have hfails : Outcome st req s e _ _ _ := .failed hfail hanswer hstreamed
    rwa [hanswer] at hfails
  · rw [TurnState.broken, TurnState.heard, if_pos hparts, List.append_nil]
    exact .broken hfail hparts

theorem endsAs_answered (hfail : e.response.failure = none) (hcalls : e.response.calls = []) :
    EndsAs st req s e (((s.heard st e.response).answered st req e.response).1,
      ((s.heard st e.response).answered st req e.response).2, []) := by
  have hheard : (s.heard st e.response).buffering st = s.buffering st := rfl
  have hforced : (s.heard st e.response).forceTools = s.forceTools := rfl
  unfold EndsAs
  cases hbuffering : s.buffering st with
  | false =>
    rw [answered_streamed (hheard.trans hbuffering), List.append_nil]
    exact .closed hfail hcalls fun h => absurd (hbuffering ▸ h) (by decide)
  | true =>
    have hstreamed : s.streamed st e.response = [] := streamed_of_buffering hbuffering
    by_cases hmemory : s.forceTools = false ∧ ungrounded st (String.join e.response.texts) req = true
    · rw [answered_from_memory (hheard.trans hbuffering) (hforced.trans hmemory.1) hmemory.2]
      have hnudged := Outcome.nudged hfail hcalls hbuffering hmemory.1 hmemory.2
      simpa only [TurnState.heard, hstreamed, List.append_nil, List.map_nil] using hnudged
    · have hgrounded : s.forceTools = true ∨ ungrounded st (String.join e.response.texts) req = false := by
        rw [not_and_or, Bool.not_eq_false, Bool.not_eq_true] at hmemory
        exact hmemory
      rw [answered_held (hheard.trans hbuffering) hgrounded]
      by_cases htext : String.join e.response.texts = ""
      · rw [if_neg (not_not.mpr htext), List.append_nil]
        exact .closed hfail hcalls fun _ => htext
      · rw [if_pos htext]
        have hanswered := Outcome.answered hfail hcalls hbuffering hgrounded htext
        simpa only [TurnState.heard, hstreamed, List.append_nil, List.map_nil, List.nil_append] using hanswered

theorem endsAs_called (hfail : e.response.failure = none) (hcalls : e.response.calls ≠ [])
    (henabled : s.toolsEnabled st = true) :
    EndsAs st req s e ((s.heard st e.response).called st e (!(s.streamed st e.response).isEmpty)) := by
  have hgap : (if (!(s.streamed st e.response).isEmpty) = true then ["\n\n"] else []) =
      if s.streamed st e.response = [] then [] else ["\n\n"] := by
    cases s.streamed st e.response <;> rfl
  exact .called _ _ _ _ hfail hcalls henabled rfl rfl hgap

theorem endsAs_afterStream : EndsAs st req s e
    (afterStream st req (s.heard st e.response) e (!(s.streamed st e.response).isEmpty)) := by
  unfold afterStream
  by_cases hsome : e.response.failure.isSome
  · rw [if_pos hsome]
    exact endsAs_broken hsome
  · have hfail : e.response.failure = none := Option.not_isSome_iff_eq_none.mp hsome
    rw [if_neg hsome]
    by_cases hcalls : e.response.calls = []
    · rw [if_pos hcalls]
      exact endsAs_answered hfail hcalls
    · rw [if_neg hcalls]
      have hheard : (s.heard st e.response).toolsEnabled st = s.toolsEnabled st := rfl
      cases henabled : s.toolsEnabled st with
      | false =>
        rw [if_neg (by rw [hheard, henabled]; decide), EndsAs, List.append_nil]
        exact .cut hfail hcalls henabled
      | true =>
        rw [if_pos (hheard.trans henabled)]
        exact endsAs_called hfail hcalls henabled

end

theorem round_spec (st : Settings) (req : KnowledgeChatRequest) (system : String) {s : TurnState}
    (e : RoundEnv) (h : s.phase = .running) :
    ∃ s' events contexts, round st req system s e = (s', ⟨[⟨system, s.contents, s.mode st⟩], events, contexts⟩) ∧
      Outcome st req s e s' events contexts := by
  refine ⟨_, _, _, ?_, endsAs_afterStream⟩
  rw [round, if_pos h]
  rfl

theorem round_idle {system : String} {s : TurnState} (e : RoundEnv) (h : s.phase ≠ .running) :
    round st req system s e = (s, {}) := by
  rw [round, if_neg h]

/-- A turn runs on only after a round with tools. -/
theorem Outcome.running {s s' : TurnState} {e : RoundEnv} {events : List Event} {contexts : List TurnContext}
    (h : Outcome st req s e s' events contexts) (hrunning : s'.phase = .running) :
    s.toolsEnabled st = true ∧ s'.roundNo = s.roundNo + 1 := by
  cases h with
  | broken | failed | answered | closed | cut => cases hrunning
  | nudged _ _ hbuffering _ _ => exact ⟨(Bool.and_eq_true_iff.mp hbuffering).2, rfl⟩
  | called _ _ _ _ _ _ henabled _ _ _ => exact ⟨henabled, rfl⟩

/-- A turn that is still running after `k` rounds is at round `k + 1`, and all of them had tools. -/
theorem running_rounds {system : String} {ctx : TurnContext} (rounds : List RoundEnv)
    (h : (Machine.final (round st req system) (start st req ctx) rounds).phase = .running) :
    (Machine.final (round st req system) (start st req ctx) rounds).roundNo = rounds.length + 1 ∧
      (rounds ≠ [] → (rounds.length : Int) ≤ st.maxRounds) := by
  induction rounds using List.reverseRecOn with
  | nil => exact ⟨rfl, fun h => absurd rfl h⟩
  | append_singleton rounds e ih =>
    rw [Machine.final_snoc] at h ⊢
    by_cases hbefore : (Machine.final (round st req system) (start st req ctx) rounds).phase = .running
    · obtain ⟨s', events, contexts, heq, hout⟩ := round_spec st req system e hbefore
      rw [heq] at h ⊢
      obtain ⟨henabled, hno⟩ := hout.running h
      have hrounds := (ih hbefore).1
      rw [TurnState.toolsEnabled, decide_eq_true_eq, hrounds] at henabled
      rw [hno, hrounds, List.length_append, List.length_singleton]
      exact ⟨rfl, fun _ => by omega⟩
    · rw [round_idle e hbefore] at h
      exact absurd h hbefore

/-- The loop does not run out: its last round leaves it. -/
theorem loop_left {system : String} {ctx : TurnContext} {env : TurnEnv} (h : 0 ≤ st.maxRounds) :
    (lastState st req env system ctx).phase ≠ .running := by
  intro hrunning
  have hlen : (roundsOf st env).length = (st.maxRounds + 1).toNat := by simp [roundsOf]
  have := (running_rounds _ hrunning).2 fun hnil => by rw [hnil] at hlen; simp at hlen; omega
  omega

/-- A turn that has left the loop yields no more there. -/
theorem rounds_idle (st : Settings) (req : KnowledgeChatRequest) (system : String) {s : TurnState}
    (h : s.phase ≠ .running) (rounds : List RoundEnv) :
    Machine.final (round st req system) s rounds = s ∧
      (Machine.outs (round st req system) s rounds).flatMap (·.events) = [] := by
  induction rounds with
  | nil => exact ⟨rfl, rfl⟩
  | cons e rounds ih =>
    rw [Machine.final_cons, Machine.outs_cons, List.flatMap_cons, round_idle e h]
    exact ih

/-- What is yielded by a turn that has left the loop after the first rounds. -/
theorem events_of_left {env : TurnEnv} {system : String} {ctx : TurnContext} {l m : List RoundEnv} {s : TurnState}
    (hrounds : roundsOf st env = l ++ m) (hs : Machine.final (round st req system) (start st req ctx) l = s)
    (hleft : s.phase ≠ .running) :
    (runRounds st req env system ctx).events =
      (Machine.outs (round st req system) (start st req ctx) l).flatMap (·.events) ++
        if s.phase = .failed then [] else (finish st s).1 := by
  have hidle := rounds_idle st req system hleft m
  have hlast : lastState st req env system ctx = s := by
    rw [lastState, hrounds, Machine.final_append, hs, hidle.1]
  simp only [runRounds, hlast, hrounds, Machine.outs_append, List.flatMap_append, hs, hidle.2, List.append_nil]
  split <;> rfl

end Outcome

end CoreHeartbeat.Knowledge
