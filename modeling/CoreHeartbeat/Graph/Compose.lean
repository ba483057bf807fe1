/-
  CoreHeartbeat.Graph.Compose — the two generators behind `local_llm`, chunk by chunk
  (`generate_local`, `generate_cloud`, `_turn_images`, `_as_content_parts`).

  A generator hands each chunk to `on_token` as it appends it to the reply, so one list is both.
  The services are given from outside: any lines or chunks, a failure at any point. A chunk's
  text is text, as both services document it.

  The local model answers in lines of JSON, of which one may report an error, be no JSON, or
  miss the response field; the connection may fail before, between or after them. The cloud
  model's stream may break off, and is asked for over one of two clients. A generator that fails
  returns no text and says why, and `local_llm` then asks the other model or turns the reason
  into a notice. `ModelEnv` is the environment of a node execution with its models resolved to
  chunks, and `modelStep` the superstep over it.

  Proved:
  - `generateLocal_heard`: the local model's reply is what it sent, and a stream that breaks off
    is a failure, whatever was sent before (`OllamaStream.breaks`).
  - `generateCloud_said`: the cloud model's reply is what it sent, also when it breaks off; only
    a stream that breaks off before its first text is a failure.
  - `images_never_attached`: no compose request of a run carries the images of its turn. They
    are attached on step 0 alone, and no turn composes there
    (`the_answer_is_written_without_the_image`).
-/

import CoreHeartbeat.Graph.Run

namespace CoreHeartbeat.Graph

inductive BreakKind where
  | timeout
  | transport
  | other
  deriving DecidableEq, Repr

structure Broken where
  kind : BreakKind
  detail : String
  deriving DecidableEq, Repr

def BreakKind.category : BreakKind → WorkerFailureCategory
  | .timeout => .timeout
  | .transport | .other => .unreachable

def Broken.failure (b : Broken) : WorkerFailure := ⟨b.kind.category, b.detail⟩

/-! ## The local model -/

structure OllamaBody where
  error : Option String := none
  /-- Absent, null or a text. -/
  response : Option (Option String) := none
  usage : Option TokenUsage := none

inductive OllamaLine where
  | blank
  /-- `json.loads` raises. -/
  | malformed (detail : String)
  /-- JSON, but no object. -/
  | notAnObject (detail : String)
  | body (b : OllamaBody)

structure OllamaStream where
  /-- The status of the response, unless the connection fails. -/
  opened : Except Broken Nat := .ok 200
  lines : List OllamaLine
  ends : Option Broken := none

/-- `obj["response"] or ""`. -/
def OllamaLine.chunk : OllamaLine → String
  | .body b => (b.response.getD none).getD ""
  | _ => ""

/-- Why a line ends the stream. -/
def OllamaLine.failure : OllamaLine → Option WorkerFailure
  | .blank => none
  | .malformed detail => some ⟨.invalidOutput, detail⟩
  | .notAnObject detail => some ⟨.unreachable, detail⟩
  | .body b => (b.error.filter (· ≠ "")).map fun e => ⟨.invalidOutput, String.ofList (e.toList.take 200)⟩

def OllamaLine.sawResponse : OllamaLine → Bool
  | .body b => b.response.isSome
  | _ => false

def OllamaLine.usage : OllamaLine → Option TokenUsage
  | .body b => b.usage
  | _ => none

/-- The loop over the lines: the chunks, and what it ends with. -/
def ollamaLoop (ends : Option Broken) :
    List OllamaLine → List String → Bool → Option TokenUsage →
      List String × Except WorkerFailure (Bool × Option TokenUsage)
  | [], parts, saw, usage =>
    match ends with
    | some b => (parts, .error b.failure)
    | none => (parts, .ok (saw, usage))
  | line :: lines, parts, saw, usage =>
    match line.failure with
    | some failure => (parts, .error failure)
    | none =>
      ollamaLoop ends lines (if line.chunk = "" then parts else parts ++ [line.chunk]) (saw || line.sawResponse)
        (line.usage.or usage)

def noVision : String :=
  "I can read the text extracted from your image, but the local model " ++
    "can't see images. The cloud model is unavailable right now — please " ++
    "try again shortly."

/-- A generator's outcome, and what it handed to `on_token`. -/
abbrev Generated := List String × Except WorkerFailure String × TokenUsage

def generateLocal (s : GraphState) (stream : OllamaStream) : Generated :=
  if s.documentImages ≠ [] then ([], .ok noVision, {})
  else
    match stream.opened with
    | .error b => ([], .error b.failure, {})
    | .ok status =>
      if status / 100 ≠ 2 then ([], .error ⟨.invalidOutput, "HTTP " ++ toString status⟩, {})
      else
        match ollamaLoop stream.ends stream.lines [] false none with
        | (parts, .error failure) => (parts, .error failure, {})
        | (parts, .ok (false, _)) => (parts, .error ⟨.invalidOutput, "no 'response' field in stream"⟩, {})
        | (parts, .ok (true, usage)) => (parts, .ok (String.join parts), usage.getD {})

/-! ## What a request to the cloud model carries -/

inductive ContentPart where
  | text (text : String)
  | inlineData (mimeType data : String)
  | imageSource (mediaType data : String)
  | imageUrl (url : String)
  deriving DecidableEq, Repr

inductive Contents where
  | plain (prompt : String)
  | list (parts : List ContentPart)
  /-- One turn of the user. -/
  | userTurn (parts : List ContentPart)
  deriving DecidableEq, Repr

def asContentParts (prompt : String) (images : List Image) (provider : String) : Contents :=
  if images = [] then .plain prompt
  else if provider = "anthropic" then .list (.text prompt :: images.map fun img => .imageSource img.mediaType img.data)
  else if provider = "gemini" then .userTurn (.text prompt :: images.map fun img => .inlineData img.mediaType img.data)
  else if provider = "langchain" then
    .list (.text prompt :: images.map fun img => .imageUrl ("data:" ++ img.mediaType ++ ";base64," ++ img.data))
  else .plain prompt

/-- Only on the first step. -/
def turnImages (s : GraphState) : List Image := if s.step ≠ 0 then [] else s.documentImages

/-- The contents `generate_cloud` passes to `generate_content_stream`. -/
def cloudContents (buildLocalPrompt : GraphState → String) (s : GraphState) : Contents :=
  asContentParts (buildLocalPrompt s) (turnImages s) "gemini"

def Contents.carries : Contents → Image → Bool
  | .plain _, _ => false
  | .list _, _ => false
  | .userTurn parts, img => parts.contains (.inlineData img.mediaType img.data)

/-! ## The cloud model -/

structure CloudChunk where
  text : Option String := none
  usage : Option TokenUsage := none

structure CloudStream where
  chunks : List CloudChunk
  ends : Option Broken := none

/-- `get_client(COMPOSE_MODEL)`, by provider. -/
inductive CloudClient where
  | missing
  | gemini
  | unsupported (provider : String)

def CloudStream.pieces (stream : CloudStream) : List String :=
  stream.chunks.filterMap fun chunk => chunk.text.filter (· ≠ "")

def CloudStream.usage (stream : CloudStream) : TokenUsage :=
  ((stream.chunks.filterMap (·.usage)).getLast?).getD {}

def generateCloud (modelPref : String) (client : CloudClient) (stream : CloudStream) : Generated :=
  match client with
  | .missing => ([], .error ⟨.unreachable, "no client for compose model '" ++ modelPref ++ "'"⟩, {})
  | .unsupported provider =>
    ([], .error ⟨.invalidOutput, "cloud compose unsupported for provider '" ++ provider ++ "'"⟩, {})
  | .gemini =>
    match stream.ends with
    | none => (stream.pieces, .ok (String.join stream.pieces), stream.usage)
    | some b =>
      if stream.pieces ≠ [] then (stream.pieces, .ok (String.join stream.pieces), stream.usage)
      else ([], .error ⟨if b.kind = .timeout then .timeout else .unreachable, b.detail⟩, stream.usage)

/-! ## What the generators return -/

/-- The chunks that arrive before the stream ends or breaks off. -/
def OllamaStream.heard (stream : OllamaStream) : List String :=
  ((stream.lines.takeWhile fun line => line.failure.isNone).map OllamaLine.chunk).filter (· ≠ "")

/-- Why the stream breaks off: its first bad line, or the connection. -/
def OllamaStream.breaks (stream : OllamaStream) : Option WorkerFailure :=
  (stream.lines.findSome? OllamaLine.failure).or (stream.ends.map Broken.failure)

/-- The stream was answered, and breaks off after a text. -/
def OllamaStream.BreaksMidAnswer (stream : OllamaStream) (failure : WorkerFailure) : Prop :=
  (∃ status, stream.opened = .ok status ∧ status / 100 = 2) ∧ stream.breaks = some failure ∧ stream.heard ≠ []

theorem OllamaLine.chunk_eq_empty {line : OllamaLine} (h : line.sawResponse = false) : line.chunk = "" := by
  cases line with
  | body b =>
    have hb : b.response = none := by simpa [OllamaLine.sawResponse] using h
    simp [OllamaLine.chunk, hb]
  | _ => rfl

/-- Without a response field nothing is heard. -/
theorem OllamaStream.heard_eq_nil {stream : OllamaStream} (h : stream.lines.any OllamaLine.sawResponse = false) :
    stream.heard = [] := by
  rw [List.any_eq_false] at h
  refine List.filter_eq_nil_iff.mpr fun chunk hchunk => ?_
  obtain ⟨line, hline, rfl⟩ := List.mem_map.mp hchunk
  have hsaw := h line ((List.takeWhile_prefix _).subset hline)
  simp [OllamaLine.chunk_eq_empty (by simpa using hsaw)]

/-- The loop appends what arrives. It fails as the stream does, and else has seen a response
    field when one of the lines has one. -/
theorem ollamaLoop_ends (stream : OllamaStream) (parts : List String) (saw : Bool) (usage : Option TokenUsage) :
    (∃ failure, stream.breaks = some failure ∧
        ollamaLoop stream.ends stream.lines parts saw usage = (parts ++ stream.heard, .error failure)) ∨
      (stream.breaks = none ∧ ∃ usage', ollamaLoop stream.ends stream.lines parts saw usage =
        (parts ++ stream.heard, .ok (saw || stream.lines.any OllamaLine.sawResponse, usage'))) := by
  obtain ⟨opened, lines, ends⟩ := stream
  induction lines generalizing parts saw usage with
  | nil => cases ends <;> simp [ollamaLoop, OllamaStream.heard, OllamaStream.breaks]
  | cons line lines ih =>
    cases hf : line.failure with
    | some failure => simp [ollamaLoop, hf, OllamaStream.heard, OllamaStream.breaks]
    | none =>
      have hbreaks : OllamaStream.breaks ⟨opened, line :: lines, ends⟩ = OllamaStream.breaks ⟨opened, lines, ends⟩ := by
        simp [OllamaStream.breaks, hf]
      have hheard : (if line.chunk = "" then parts else parts ++ [line.chunk]) ++
          OllamaStream.heard ⟨opened, lines, ends⟩ = parts ++ OllamaStream.heard ⟨opened, line :: lines, ends⟩ := by
        by_cases hempty : line.chunk = "" <;> simp [OllamaStream.heard, hf, hempty]
      have hloop := ih (if line.chunk = "" then parts else parts ++ [line.chunk]) (saw || line.sawResponse)
        (line.usage.or usage)
      simp only [hheard, Bool.or_assoc] at hloop
      simpa only [ollamaLoop, hf, hbreaks, List.any_cons] using hloop

/-- How a local generation ends: images it cannot see; no answer; a stream that breaks off;
    one without a response field, where nothing is heard; and a reply. -/
theorem generateLocal_cases (s : GraphState) (stream : OllamaStream) :
    (s.documentImages ≠ [] ∧ generateLocal s stream = ([], .ok noVision, {})) ∨
    (s.documentImages = [] ∧ (¬ ∃ status, stream.opened = .ok status ∧ status / 100 = 2) ∧
      ∃ failure, generateLocal s stream = ([], .error failure, {})) ∨
    (s.documentImages = [] ∧ (∃ status, stream.opened = .ok status ∧ status / 100 = 2) ∧
      ((∃ failure, stream.breaks = some failure ∧ generateLocal s stream = (stream.heard, .error failure, {})) ∨
        (stream.breaks = none ∧ stream.lines.any OllamaLine.sawResponse = false ∧
          ∃ failure, generateLocal s stream = ([], .error failure, {})) ∨
        (stream.breaks = none ∧ stream.lines.any OllamaLine.sawResponse = true ∧
          ∃ usage, ollamaLoop stream.ends stream.lines [] false none = (stream.heard, .ok (true, usage)) ∧
            generateLocal s stream = (stream.heard, .ok (String.join stream.heard), usage.getD {})))) := by
  unfold generateLocal
  by_cases himages : s.documentImages ≠ []
  · rw [if_pos himages]
    exact Or.inl ⟨himages, rfl⟩
  rw [if_neg himages]
  rw [not_not] at himages
  cases hopen : stream.opened with
  | error b =>
    refine Or.inr (Or.inl ⟨himages, ?_, _, rfl⟩)
    intro h
    obtain ⟨status, hstatus, -⟩ := h
    cases hstatus
  | ok status =>
    dsimp only
    by_cases hstatus : status / 100 ≠ 2
    · rw [if_pos hstatus]
      refine Or.inr (Or.inl ⟨himages, ?_, _, rfl⟩)
      intro h
      obtain ⟨status', hopen', hok⟩ := h
      cases hopen'
      exact hstatus hok
    rw [if_neg hstatus]
    refine Or.inr (Or.inr ⟨himages, ⟨status, rfl, not_not.mp hstatus⟩, ?_⟩)
    rcases ollamaLoop_ends stream [] false none with ⟨failure, hbreaks, hloop⟩ | ⟨hbreaks, usage, hloop⟩
    · rw [hloop, List.nil_append]
      exact Or.inl ⟨failure, hbreaks, rfl⟩
    · rw [hloop, List.nil_append, Bool.false_or]
      cases hsaw : stream.lines.any OllamaLine.sawResponse with
      | false =>
        rw [stream.heard_eq_nil hsaw]
        exact Or.inr (Or.inl ⟨hbreaks, rfl, _, rfl⟩)
      | true => exact Or.inr (Or.inr ⟨hbreaks, rfl, usage, rfl, rfl⟩)

/-- The local model's reply is what was handed on, or nothing was; but a stream that breaks
    off in the middle of its answer is a failure after what was handed on. -/
theorem generateLocal_heard (s : GraphState) (stream : OllamaStream) :
    (s.documentImages = [] ∧ ∃ failure usage, stream.BreaksMidAnswer failure ∧
        generateLocal s stream = (stream.heard, .error failure, usage)) ∨
    ((¬ ∃ failure, s.documentImages = [] ∧ stream.BreaksMidAnswer failure) ∧
      ((∃ parts usage, generateLocal s stream = (parts, .ok (String.join parts), usage)) ∨
        ∃ result usage, generateLocal s stream = ([], result, usage))) := by
  have hintact : stream.breaks = none → ¬ ∃ failure, s.documentImages = [] ∧ stream.BreaksMidAnswer failure := by
    rintro hbreaks ⟨failure, -, -, hfailure, -⟩
    rw [hbreaks] at hfailure
    cases hfailure
  rcases generateLocal_cases s stream with ⟨himages, hgen⟩ | ⟨-, hanswered, failure, hgen⟩ | ⟨himages, hanswered, hend⟩
  · exact Or.inr ⟨fun ⟨_, hnone, _⟩ => himages hnone, Or.inr ⟨_, _, hgen⟩⟩
  · exact Or.inr ⟨fun ⟨_, _, hbreaks⟩ => hanswered hbreaks.1, Or.inr ⟨_, _, hgen⟩⟩
  rcases hend with ⟨failure, hbreaks, hgen⟩ | ⟨hbreaks, -, failure, hgen⟩ | ⟨hbreaks, -, usage, -, hgen⟩
  · by_cases hnone : stream.heard = []
    · rw [hnone] at hgen
      exact Or.inr ⟨fun ⟨_, _, hmid⟩ => hmid.2.2 hnone, Or.inr ⟨_, _, hgen⟩⟩
    · exact Or.inl ⟨himages, failure, _, ⟨hanswered, hbreaks, hnone⟩, hgen⟩
  · exact Or.inr ⟨hintact hbreaks, Or.inr ⟨_, _, hgen⟩⟩
  · exact Or.inr ⟨hintact hbreaks, Or.inl ⟨_, _, hgen⟩⟩

/-- No client, a client that is not wired, or a stream that breaks off before its first text. -/
def cloudFails (client : CloudClient) (stream : CloudStream) : Bool :=
  match client with
  | .gemini => stream.ends.isSome && stream.pieces.isEmpty
  | _ => true

theorem gemini_of_not_fails {client : CloudClient} {stream : CloudStream} (h : cloudFails client stream = false) :
    client = .gemini := by
  cases client with
  | gemini => rfl
  | missing => cases h
  | unsupported provider => cases h

/-- The cloud model's reply is what was handed on, for what its stream reports; where it
    fails nothing was. -/
theorem generateCloud_said (modelPref : String) (client : CloudClient) (stream : CloudStream) :
    (cloudFails client stream = false ∧
        generateCloud modelPref client stream = (stream.pieces, .ok (String.join stream.pieces), stream.usage)) ∨
      (cloudFails client stream = true ∧ ∃ failure usage,
        generateCloud modelPref client stream = ([], .error failure, usage)) := by
  unfold generateCloud cloudFails
  cases client with
  | missing => exact Or.inr ⟨rfl, _, _, rfl⟩
  | unsupported provider => exact Or.inr ⟨rfl, _, _, rfl⟩
  | gemini =>
    cases stream.ends with
    | none => exact Or.inl ⟨rfl, rfl⟩
    | some b =>
      cases hpieces : stream.pieces with
      | nil => exact Or.inr ⟨rfl, _, _, rfl⟩
      | cons piece rest => exact Or.inl ⟨rfl, if_pos (List.cons_ne_nil _ _)⟩

/-! ## A turn with its models -/

/-- What one node execution finds outside the graph, the models chunk by chunk. -/
structure ModelEnv (σ : Type) where
  router : Router
  savedRef : String → String → Except Fault (Option String)
  store : PlanStore σ
  dispatchTool : Call → String → Except Fault String
  /-- `COMPOSE_MODEL`, and the client for it. -/
  modelPref : String := "gemini-2.5-flash"
  client : Except Fault CloudClient
  cloud : CloudStream
  ollama : OllamaStream

variable {σ : Type}

def ModelEnv.seen (e : ModelEnv σ) (s : GraphState) : StepEnv σ where
  router := e.router
  savedRef := e.savedRef
  store := e.store
  worker :=
    { generateLocal := .ok (generateLocal s e.ollama).2
      generateCloud := e.client.map fun client => (generateCloud e.modelPref client e.cloud).2 }
  dispatchTool := e.dispatchTool

/-- What a composition comes to: the local model's outcome where that model is configured or
    the cloud model fails, the cloud model's text where there is one. -/
theorem compose_cases (st : Settings) (e : ModelEnv σ) (s : GraphState) :
    (st.localCompose = true ∧ compose st (e.seen s).worker = .ok (generateLocal s e.ollama).2) ∨
    (st.localCompose = false ∧ ∃ fault, e.client = .error fault ∧ compose st (e.seen s).worker = .error fault) ∨
    (st.localCompose = false ∧ ∃ client, e.client = .ok client ∧ cloudFails client e.cloud = false ∧
      generateCloud e.modelPref client e.cloud = (e.cloud.pieces, .ok (String.join e.cloud.pieces), e.cloud.usage) ∧
      compose st (e.seen s).worker = .ok (.ok (String.join e.cloud.pieces), e.cloud.usage)) ∨
    (st.localCompose = false ∧ ∃ client failure usage, e.client = .ok client ∧ cloudFails client e.cloud = true ∧
      generateCloud e.modelPref client e.cloud = ([], .error failure, usage) ∧
      compose st (e.seen s).worker = .ok (generateLocal s e.ollama).2) := by
  cases hlocal : st.localCompose with
  | true => exact Or.inl ⟨rfl, by simp [compose, hlocal, ModelEnv.seen]⟩
  | false =>
    right
    cases hclient : e.client with
    | error fault =>
      have hcompose : compose st (e.seen s).worker = .error fault := by
        simp [compose, hlocal, ModelEnv.seen, hclient, bind, Except.bind, Except.map]
      exact Or.inl ⟨rfl, fault, rfl, hcompose⟩
    | ok client =>
      right
      rcases generateCloud_said e.modelPref client e.cloud with
        ⟨hworks, hcloud⟩ | ⟨hfails, failure, usage, hcloud⟩
      · have hcompose : compose st (e.seen s).worker = .ok (.ok (String.join e.cloud.pieces), e.cloud.usage) := by
          simp [compose, hlocal, ModelEnv.seen, hclient, hcloud, bind, Except.bind, Except.map, pure, Except.pure]
        exact Or.inl ⟨rfl, client, rfl, hworks, hcloud, hcompose⟩
      · have hcompose : compose st (e.seen s).worker = .ok (generateLocal s e.ollama).2 := by
          simp [compose, hlocal, ModelEnv.seen, hclient, hcloud, bind, Except.bind, Except.map]
        exact Or.inr ⟨rfl, client, failure, usage, rfl, hfails, hcloud, hcompose⟩

def modelStep (st : Settings) (c : Conf σ) (e : ModelEnv σ) : Conf σ × Option Update := superstep st c (e.seen c.st)

theorem inv_modelRun (st : Settings) (t : Turn) (db : σ) (envs : List (ModelEnv σ)) :
    Inv (Machine.final (modelStep st) (start t db) envs) :=
  Machine.final_inv_of_step (fun c e h => inv_superstep st c (e.seen c.st) h) (inv_start t db) envs

/-! ## Images -/

/-- `local_llm` composes through `generate_cloud`, with a Gemini client. -/
def ComposesByGemini (st : Settings) (c : Conf σ) (e : ModelEnv σ) : Prop :=
  c.place = .at .localLlm ∧ c.st.cannedReply.filter (· ≠ "") = none ∧ st.localCompose = false ∧
    e.client = .ok .gemini

/-- A turn keeps the images it came with. -/
theorem superstep_images (st : Settings) (c : Conf σ) (e : StepEnv σ) :
    (superstep st c e).1.st.documentImages = c.st.documentImages := by
  rcases superstep_cases st c e with ⟨-, hs⟩ | ⟨n, fault, -, -, hs⟩ | ⟨n, u, db, -, -, hs⟩
  · rw [hs]
  · rw [hs]
  · rw [hs]; rfl

/-- For every run of a turn with images: wherever `local_llm` composes through Gemini, the
    request is the bare prompt, and does not carry the images. -/
theorem images_never_attached (buildLocalPrompt : GraphState → String) (st : Settings) (t : Turn) (db : σ)
    (envs : List (ModelEnv σ)) (himages : t.documentImages ≠ []) :
    ∀ ev ∈ Machine.trace (modelStep st) (start t db) envs, ComposesByGemini st ev.pre ev.op →
      ev.pre.st.documentImages = t.documentImages ∧
        ¬ ∀ img ∈ ev.pre.st.documentImages, (cloudContents buildLocalPrompt ev.pre.st).carries img = true := by
  intro ev hev hcompose
  obtain ⟨l, m, -, hpre, -⟩ := (Machine.mem_trace _).mp hev
  have hkept : ev.pre.st.documentImages = t.documentImages := by
    have hfinal : (Machine.final (modelStep st) (start t db) l).st.documentImages = t.documentImages :=
      Machine.final_inv_of_step (I := fun c => c.st.documentImages = t.documentImages)
        (fun c e h => (superstep_images st c (e.seen c.st)).trans h) rfl l
    rw [hpre, hfinal]
  -- the supervisor before it has counted its step
  have hstep : ev.pre.st.step ≠ 0 := by
    have hphase := (inv_modelRun st t db l).phase
    rw [← hpre] at hphase
    simp only [Phase, hcompose.1] at hphase
    omega
  refine ⟨hkept, fun hall => ?_⟩
  obtain ⟨img, himg⟩ := List.exists_mem_of_ne_nil _ (hkept ▸ himages)
  have hplain : cloudContents buildLocalPrompt ev.pre.st = .plain (buildLocalPrompt ev.pre.st) := by
    simp [cloudContents, turnImages, hstep, asContentParts]
  have hcarried := hall img himg
  rw [hplain] at hcarried
  cases hcarried

/-- A step whose router decides for `local_llm`, with a Gemini model that says `said`. -/
def answering (said : String) : ModelEnv (Plans.Key → Plans.Slot (List Call)) where
  router := ⟨.ok none, .ok (.ok [], {}), fun _ => .ok (.ok { nextNode := .localLlm }, {})⟩
  savedRef := fun _ _ => .ok none
  store := pendingPlans 1800 reliableEnv 0
  dispatchTool := fun _ _ => .ok ""
  client := .ok .gemini
  cloud := ⟨[{ text := some said }], none⟩
  ollama := { lines := [.body { response := some (some said) }] }

def cloudSettings : Settings := { pyd := strict, localCompose := false }

def screenshot : Image := ⟨"image/png", "iVBORw0KGgo=", "doc1"⟩

def imageQuestion : Turn :=
  { payload := { rawInput := "what does this show?", chatId := some "chat" }, userId := "u1",
    documentImages := [screenshot] }

theorem images_never_attached_question :
    ∃ ev ∈ Machine.trace (modelStep cloudSettings) (start imageQuestion emptyDb)
        (List.replicate 3 (answering "A schedule.")),
      ComposesByGemini cloudSettings ev.pre ev.op ∧ ev.pre.st.documentImages = [screenshot] ∧
        ¬ ∀ img ∈ ev.pre.st.documentImages, (cloudContents (·.intent.rawInput) ev.pre.st).carries img = true :=
  have hcomposes : ComposesByGemini cloudSettings
      (modelStep cloudSettings (start imageQuestion emptyDb) (answering "A schedule.")).1 (answering "A schedule.") :=
    ⟨rfl, rfl, rfl, rfl⟩
  have hmem := List.mem_cons_of_mem _ List.mem_cons_self
  ⟨_, hmem, hcomposes,
    images_never_attached (·.intent.rawInput) cloudSettings imageQuestion emptyDb
      (List.replicate 3 (answering "A schedule.")) (by decide) _ hmem hcomposes⟩

/-- A question about a screenshot: the model that answers it is sent the text alone. -/
theorem the_answer_is_written_without_the_image :
    ∃ ev ∈ Machine.trace (modelStep cloudSettings) (start imageQuestion emptyDb)
        (List.replicate 3 (answering "A schedule.")),
      ComposesByGemini cloudSettings ev.pre ev.op ∧ ev.pre.st.documentImages = [screenshot] ∧
        (cloudContents (·.intent.rawInput) ev.pre.st).carries screenshot = false :=
  ⟨_, List.mem_cons_of_mem _ List.mem_cons_self, ⟨rfl, rfl, rfl, rfl⟩, rfl, rfl⟩

end CoreHeartbeat.Graph
