/-
  CoreHeartbeat.Graph.Models — the data of the orchestration graph: `models.py` and the channels
  of `GraphState` with their reducers (`orchestrator.py`).

  A tool call travels as a dict `{"name", "args"}` whose arguments are JSON. The routing
  decision is the typed form the providers are held to; `ToolArgs.validate` is its construction
  from a call's arguments, with the field coercions of pydantic as parameters. A node returns an
  `Update`: a channel it does not name keeps its value, and the channels with a reducer
  (messages, usage, visited, step, executed calls) add to theirs.

  JSON is a tree, and an object a list of fields in insertion order, as Python keeps them; a
  float stands by its `repr`, and nothing computes with one. `Json.dumps` writes a value as
  `json.dumps(value, sort_keys=True)` does, which is what the signature of a call is made of.
  The registries of tools are lists of names; `dispatchableTools` is their union, and
  `writeTools` those that change something.

  The state has the channels that the nodes and the guards read. A turn starts from
  `initialState`, with the history seeded into the messages and the attachments that the callers
  of the graph load.
-/

import Mathlib.Data.List.Sort

namespace CoreHeartbeat.Graph

/-! ## JSON and tool calls -/

inductive Json where
  | null
  | bool (b : Bool)
  | int (n : Int)
  /-- A float, by its `repr`. -/
  | float (repr : String)
  | str (s : String)
  | arr (items : List Json)
  | obj (fields : List (String × Json))
  deriving Repr

abbrev Args := List (String × Json)

structure Call where
  name : String
  args : Args
  deriving Repr

/-- The tool names `RoutingDecision.tool_name` admits. -/
inductive ToolName where
  | readUserNote | searchUserVault | writeUserNote
  | listCalendarEvents | createCalendarEvent | updateCalendarEvent | deleteCalendarEvent
  | searchWeb | findSources | fetchUrl
  | searchFlights
  | listReitIssuers | listReitReports | getReitReport | getLatestReitReport
  | getLatestBriefing | searchBriefings
  | rereadAttachment
  deriving DecidableEq, Repr

def ToolName.str : ToolName → String
  | .readUserNote => "read_user_note"
  | .searchUserVault => "search_user_vault"
  | .writeUserNote => "write_user_note"
  | .listCalendarEvents => "list_calendar_events"
  | .createCalendarEvent => "create_calendar_event"
  | .updateCalendarEvent => "update_calendar_event"
  | .deleteCalendarEvent => "delete_calendar_event"
  | .searchWeb => "search_web"
  | .findSources => "find_sources"
  | .fetchUrl => "fetch_url"
  | .searchFlights => "search_flights"
  | .listReitIssuers => "list_reit_issuers"
  | .listReitReports => "list_reit_reports"
  | .getReitReport => "get_reit_report"
  | .getLatestReitReport => "get_latest_reit_report"
  | .getLatestBriefing => "get_latest_briefing"
  | .searchBriefings => "search_briefings"
  | .rereadAttachment => "reread_attachment"

def ToolName.all : List ToolName :=
  [.readUserNote, .searchUserVault, .writeUserNote, .listCalendarEvents, .createCalendarEvent, .updateCalendarEvent,
    .deleteCalendarEvent, .searchWeb, .findSources, .fetchUrl, .searchFlights, .listReitIssuers, .listReitReports,
    .getReitReport, .getLatestReitReport, .getLatestBriefing, .searchBriefings, .rereadAttachment]

def ToolName.ofStr (s : String) : Option ToolName := ToolName.all.find? (·.str == s)

/-- Every tool name `tool_execution` can run: the union of the tool registries. -/
def dispatchableTools : List String := ToolName.all.map ToolName.str

/-- `catalog.WRITE_TOOLS` (`BRIEFING_WRITE_TOOLS` is empty). -/
def writeTools : List String :=
  ["write_user_note", "create_calendar_event", "update_calendar_event", "delete_calendar_event"]

def alwaysConfirmTools : List String := ["delete_calendar_event"]

/-! ## The routing decision -/

inductive Node where
  | localLlm
  | toolExecution
  | finish
  deriving DecidableEq, Repr

def Node.str : Node → String
  | .localLlm => "local_llm"
  | .toolExecution => "tool_execution"
  | .finish => "finish"

structure ToolArgs where
  filename : Option String := none
  query : Option String := none
  content : Option String := none
  eventId : Option String := none
  summary : Option String := none
  start : Option String := none
  end_ : Option String := none
  description : Option String := none
  location : Option String := none
  timeMin : Option String := none
  timeMax : Option String := none
  maxResults : Option Int := none
  url : Option String := none
  reitSymbol : Option String := none
  reportId : Option String := none
  limit : Option Int := none
  origins : Option String := none
  destination : Option String := none
  departureDate : Option String := none
  earliestDepartureTime : Option String := none
  adults : Option Int := none
  deriving DecidableEq, Repr

/-- `model_dump(exclude_none=True)`. -/
def ToolArgs.modelDump (a : ToolArgs) : Args :=
  let str (name : String) (v : Option String) : Args := v.toList.map fun s => (name, .str s)
  let int (name : String) (v : Option Int) : Args := v.toList.map fun n => (name, .int n)
  str "filename" a.filename ++ str "query" a.query ++ str "content" a.content ++ str "event_id" a.eventId ++
    str "summary" a.summary ++ str "start" a.start ++ str "end" a.end_ ++ str "description" a.description ++
    str "location" a.location ++ str "time_min" a.timeMin ++ str "time_max" a.timeMax ++
    int "max_results" a.maxResults ++ str "url" a.url ++ str "reit_symbol" a.reitSymbol ++
    str "report_id" a.reportId ++ int "limit" a.limit ++ str "origins" a.origins ++
    str "destination" a.destination ++ str "departure_date" a.departureDate ++
    str "earliest_departure_time" a.earliestDepartureTime ++ int "adults" a.adults

/-- How pydantic coerces a JSON value to a field's type; `none` is a `ValidationError`. -/
structure Pydantic where
  str : Json → Option String
  int : Json → Option Int

def strict : Pydantic where
  str := fun | .str s => some s | _ => none
  int := fun | .int n => some n | _ => none

/-- A field declared `T | None = None`. -/
def optionalField {α : Type} (coerce : Json → Option α) (args : Args) (name : String) : Option (Option α) :=
  match args.lookup name with
  | none => some none
  | some .null => some none
  | some v => (coerce v).map some

/-- `ToolArgs(**args)`; `none` when it raises. Unknown names are ignored. -/
def ToolArgs.validate (pyd : Pydantic) (args : Args) : Option ToolArgs := do
  let filename ← optionalField pyd.str args "filename"
  let query ← optionalField pyd.str args "query"
  let content ← optionalField pyd.str args "content"
  let eventId ← optionalField pyd.str args "event_id"
  let summary ← optionalField pyd.str args "summary"
  let start ← optionalField pyd.str args "start"
  let end_ ← optionalField pyd.str args "end"
  let description ← optionalField pyd.str args "description"
  let location ← optionalField pyd.str args "location"
  let timeMin ← optionalField pyd.str args "time_min"
  let timeMax ← optionalField pyd.str args "time_max"
  let maxResults ← optionalField pyd.int args "max_results"
  let url ← optionalField pyd.str args "url"
  let reitSymbol ← optionalField pyd.str args "reit_symbol"
  let reportId ← optionalField pyd.str args "report_id"
  let limit ← optionalField pyd.int args "limit"
  let origins ← optionalField pyd.str args "origins"
  let destination ← optionalField pyd.str args "destination"
  let departureDate ← optionalField pyd.str args "departure_date"
  let earliestDepartureTime ← optionalField pyd.str args "earliest_departure_time"
  let adults ← optionalField pyd.int args "adults"
  return { filename, query, content, eventId, summary, start, end_, description, location, timeMin, timeMax,
           maxResults, url, reitSymbol, reportId, limit, origins, destination, departureDate,
           earliestDepartureTime, adults }

structure RoutingDecision where
  nextNode : Node
  toolName : Option ToolName := none
  toolArgs : ToolArgs := {}
  deriving Repr

/-- The decision the supervisor builds from a native batch; `none` is a `ValidationError`. -/
def nativeDecision (pyd : Pydantic) (nextNode : Node) : List Call → Option RoutingDecision
  | [] => some { nextNode }
  | first :: _ => do
    let toolArgs ← ToolArgs.validate pyd first.args
    let toolName ← ToolName.ofStr first.name
    return { nextNode, toolName := some toolName, toolArgs }

inductive FailureCategory where
  | missingCredential | auth | timeout | network | invalidOutput
  deriving DecidableEq, Repr

def FailureCategory.str : FailureCategory → String
  | .missingCredential => "missing_credential"
  | .auth => "auth"
  | .timeout => "timeout"
  | .network => "network"
  | .invalidOutput => "invalid_output"

structure RoutingFailure where
  category : FailureCategory
  detail : String
  deriving DecidableEq, Repr

inductive WorkerFailureCategory where
  | unreachable | timeout | invalidOutput
  deriving DecidableEq, Repr

def WorkerFailureCategory.str : WorkerFailureCategory → String
  | .unreachable => "unreachable"
  | .timeout => "timeout"
  | .invalidOutput => "invalid_output"

structure WorkerFailure where
  category : WorkerFailureCategory
  detail : String
  deriving DecidableEq, Repr

/-! ## Messages, usage, the intent -/

/-- A message's `source`. -/
inductive Author where
  | supervisor | localLlm | toolExecution | user | assistant
  deriving DecidableEq, Repr

structure Message where
  source : Author
  content : String
  step : Nat
  deriving DecidableEq, Repr

structure TokenUsage where
  inputTokens : Int := 0
  outputTokens : Int := 0
  totalTokens : Int := 0
  deriving DecidableEq, Repr

def addUsage (left right : TokenUsage) : TokenUsage :=
  ⟨left.inputTokens + right.inputTokens, left.outputTokens + right.outputTokens,
   left.totalTokens + right.totalTokens⟩

inductive Role where
  | user | assistant
  deriving DecidableEq, Repr

structure HistoryTurn where
  role : Role
  content : String
  deriving DecidableEq, Repr

/-- The fields of `IntentPayload` that the graph's own logic reads. -/
structure IntentPayload where
  rawInput : String
  modelPreference : Option String := none
  history : List HistoryTurn := []
  chatId : Option String := none
  deriving Repr

structure Image where
  mediaType : String
  data : String
  docId : String
  deriving DecidableEq, Repr

/-! ## The graph's state -/

inductive Status where
  | completed
  | haltedStepBound
  | degraded
  | error
  deriving DecidableEq, Repr

/-- The channels. `next` and `status` start as the empty string, here `none`. -/
structure GraphState where
  intent : IntentPayload
  userId : String
  messages : List Message
  priorContext : List Message
  documents : String
  documentImages : List Image
  cannedReply : Option String
  usage : TokenUsage
  visited : List Node
  step : Nat
  next : Option Node
  status : Option Status
  toolRequest : Option Call
  toolCalls : Option (List Call)
  pendingPlan : Option (List Call)
  executedCalls : List String
  planNote : Option String
  truncated : Bool

/-- What a node returns. A last-value channel is `none` when the dict does not name it. -/
structure Update where
  next : Option Node := none
  status : Option Status := none
  step : Nat
  usage : TokenUsage := {}
  visited : List Node := []
  messages : List Message
  executedCalls : List String := []
  toolRequest : Option (Option Call) := none
  toolCalls : Option (Option (List Call)) := none
  pendingPlan : Option (Option (List Call)) := none
  planNote : Option (Option String) := none
  cannedReply : Option (Option String) := none
  truncated : Option Bool := none

def GraphState.apply (s : GraphState) (u : Update) : GraphState :=
  { s with
    next := u.next.or s.next
    status := u.status.or s.status
    step := s.step + u.step
    usage := addUsage s.usage u.usage
    visited := s.visited ++ u.visited
    messages := s.messages ++ u.messages
    executedCalls := s.executedCalls ++ u.executedCalls
    toolRequest := u.toolRequest.getD s.toolRequest
    toolCalls := u.toolCalls.getD s.toolCalls
    pendingPlan := u.pendingPlan.getD s.pendingPlan
    planNote := u.planNote.getD s.planNote
    cannedReply := u.cannedReply.getD s.cannedReply
    truncated := u.truncated.getD s.truncated }

def historyLimit : Nat := 10

/-- `_seed_messages`: the last `HISTORY_LIMIT` turns of the caller's history. -/
def seedMessages (payload : IntentPayload) : List Message :=
  let history := payload.history.drop (payload.history.length - historyLimit)
  history.zipIdx.map fun (turn, i) =>
    ⟨match turn.role with
      | .user => .user
      | .assistant => .assistant, turn.content, i⟩

/-- `_initial_state`, with the attachments its callers load into it. -/
def initialState (payload : IntentPayload) (userId documents : String) (documentImages : List Image) : GraphState where
  intent := payload
  userId := userId
  messages := []
  priorContext := seedMessages payload
  documents := documents
  documentImages := documentImages
  cannedReply := none
  usage := {}
  visited := []
  step := 0
  next := none
  status := none
  toolRequest := none
  toolCalls := none
  pendingPlan := none
  executedCalls := []
  planNote := none
  truncated := false

/-! ## Call signatures -/

/-- One character inside a JSON string, `ensure_ascii` on. -/
def escapeChar (c : Char) : String :=
  let hex4 (n : Nat) : String := String.ofList
    ([n / 4096 % 16, n / 256 % 16, n / 16 % 16, n % 16].map Nat.digitChar)
  if c = '"' then "\\\"" else if c = '\\' then "\\\\"
  else if c = '\n' then "\\n" else if c = '\r' then "\\r" else if c = '\t' then "\\t"
  else if c.toNat = 0x8 then "\\b" else if c.toNat = 0xc then "\\f"
  else if ' ' ≤ c ∧ c ≤ '~' then c.toString
  else if c.toNat < 0x10000 then "\\u" ++ hex4 c.toNat
  else
    let v := c.toNat - 0x10000
    "\\u" ++ hex4 (0xd800 + v / 0x400) ++ "\\u" ++ hex4 (0xdc00 + v % 0x400)

def quote (s : String) : String := "\"" ++ String.join (s.toList.map escapeChar) ++ "\""

/-- `json.dumps(value, sort_keys=True)`. -/
def Json.dumps : Json → String
  | .null => "null"
  | .bool b => if b then "true" else "false"
  | .int n => toString n
  | .float r => r
  | .str s => quote s
  | .arr items => "[" ++ ", ".intercalate (dumpItems items) ++ "]"
  | .obj fields =>
    "\x7b" ++ ", ".intercalate ((((dumpFields fields).insertionSort (fun a b => a.1 ≤ b.1)).map
      fun f => quote f.1 ++ ": " ++ f.2)) ++ "\x7d"
where
  dumpItems : List Json → List String
    | [] => []
    | v :: vs => v.dumps :: dumpItems vs
  dumpFields : List (String × Json) → List (String × String)
    | [] => []
    | (k, v) :: fs => (k, v.dumps) :: dumpFields fs

/-- `_call_signature`: stable identity of a call, so a repeat is recognisable. -/
def callSignature (c : Call) : String := c.name ++ ":" ++ (Json.obj c.args).dumps

/-- `sig.split(":", 1)[0]`. -/
def signatureName (sig : String) : String := String.ofList (sig.toList.takeWhile (· ≠ ':'))

example : callSignature ⟨"fetch_url", [("url", .str "a"), ("limit", .int 2)]⟩ =
    "fetch_url:\x7b\"limit\": 2, \"url\": \"a\"\x7d" := by decide

end CoreHeartbeat.Graph
