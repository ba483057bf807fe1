/-
  CoreHeartbeat.Ledger.Spool — the spool that the rows of all attempts end in (`_spool_line` of
  `services/llm_ledger.py`, up to the exception it swallows).

  A recorder makes the service's directory, opens the day's file for appending, writes its line
  with one write and closes the file. Recorders of any processes interleave; any of these steps
  can fail, and a write can land in part: a full disk takes the beginning of a line, and the
  next recorder's line then starts behind it.

  A file is a text that only grows, at its end, by what each write landed (`Files`); that a
  single write of an appending file is not interleaved with another is what the system promises.
  A reader takes the lines that are JSON (`Lib.Jsonl`). A row is an object whose first key
  begins with a letter, so the beginning of a row followed by another row is no JSON
  (`PyJsonCut`), and a reader never sees a row that nobody wrote.

  Proved:
  - `files_follow`, `recorded`: the files are what landed in them, and what landed is of their
    own recorders.
  - `spool_keeps_rows`: whatever interleaves and fails, every line of a file that is JSON is a
    row of one of its recorders, each of which appended at most once; rows whose line landed
    whole on a line of its own are all there, in the order they were written; and where no write
    was cut the file reads as exactly the rows that were written.
-/

import CoreHeartbeat.Graph.Signatures
import CoreHeartbeat.Ledger.Attempt
import CoreHeartbeat.Lib.Dialogue
import CoreHeartbeat.Lib.Jsonl
import CoreHeartbeat.Lib.Posix

namespace CoreHeartbeat.Ledger

open Dialogue
open Jsonl (Landed kept)

/-! ## Rows as JSON -/

def Provider.name : Provider → String
  | .anthropic => "anthropic"
  | .openai => "openai"
  | .gemini => "gemini"
  | .ollama => "ollama"

def Status.name : Status → String
  | .ok => "ok"
  | .refused => "refused"
  | .error => "error"
  | .timeout => "timeout"
  | .aborted => "aborted"

def UsageSource.name : UsageSource → String
  | .missing => "missing"
  | .provider => "provider"

/-- A row with what an attempt is created with and what leaving it adds. -/
structure Entry where
  id : String
  operation : String
  runRef : Option String
  requestGroup : Option String
  attempt : Int
  keyLabel : Option String
  modelRequested : String
  occurredAt : String
  completedAt : String
  latencyMs : Int
  row : Row

def textOrNull (v : Option String) : PyJson.Value := (v.map PyJson.Value.str).getD .null

def countOrNull (v : Option Int) : PyJson.Value := (v.map PyJson.Value.int).getD .null

/-- `self.row`, in the order of its keys. -/
def Entry.value (e : Entry) : PyJson.Value :=
  .obj [("id", .str e.id), ("service", .str e.row.service), ("operation", .str e.operation),
    ("run_ref", textOrNull e.runRef), ("request_group", textOrNull e.requestGroup), ("attempt", .int e.attempt),
    ("provider", .str e.row.provider.name), ("key_label", textOrNull e.keyLabel),
    ("model_requested", .str e.modelRequested), ("model_served", textOrNull e.row.modelServed),
    ("provider_request_id", textOrNull e.row.providerRequestId), ("service_tier", .str e.row.serviceTier),
    ("inference_geo", .str e.row.inferenceGeo), ("speed", .str e.row.speed),
    ("status", textOrNull (e.row.status.map Status.name)), ("http_status", countOrNull e.row.httpStatus),
    ("error_type", textOrNull e.row.errorType), ("usage_source", .str e.row.usageSource.name),
    ("grounded_prompts", .int e.row.groundedPrompts), ("raw_usage", e.row.rawUsage.toValue),
    ("input_uncached", countOrNull e.row.tokens.inputUncached), ("input_audio", countOrNull e.row.tokens.inputAudio),
    ("cache_write_5m", countOrNull e.row.tokens.cacheWrite5m),
    ("cache_write_1h", countOrNull e.row.tokens.cacheWrite1h), ("cache_read", countOrNull e.row.tokens.cacheRead),
    ("output_billable", countOrNull e.row.tokens.outputBillable),
    ("thinking_tokens", countOrNull e.row.tokens.thinkingTokens),
    ("tool_use_prompt_tokens", countOrNull e.row.tokens.toolUsePromptTokens),
    ("web_search_requests", countOrNull e.row.tokens.webSearchRequests), ("occurred_at", .str e.occurredAt),
    ("completed_at", .str e.completedAt), ("latency_ms", .int e.latencyMs)]

theorem sealed_value (e : Entry) : PyJson.Sealed e.value := by
  refine ⟨"id", _, _, rfl, fun c hc => ?_⟩
  cases hc
  decide

/-! ## Appending a row -/

inductive FileAsk where
  | makedirs (dir : String)
  | openAppend (path : String)
  | write (path : String) (data : List Char)
  | close (path : String)

/-- A write answers how much of it landed. -/
def FileAnswer : FileAsk → Type
  | .write _ _ => Except Exc Nat
  | _ => Except Exc Unit

/-- `os.path.join(d, f"{day}.jsonl")`. -/
def spoolPath (dir : String) (e : Entry) : String :=
  Posix.join (Posix.join dir e.row.service) (String.ofList (e.occurredAt.toList.take 10) ++ ".jsonl")

def call (q : FileAsk) : Py FileAnswer Exc (FileAnswer q) := liftM (request (π := FileAnswer) q)

def outcome {α : Type} (result : Except Exc α) : Py FileAnswer Exc α := liftM result

/-- The body of `_spool_line`'s `try`. What it raises is the fault of `spoolLine`. -/
def appendRow (dir : String) (e : Entry) : Py FileAnswer Exc Unit := do
  let d := Posix.join dir e.row.service
  outcome (← call (.makedirs d))
  outcome (← call (.openAppend (spoolPath dir e)))
  let written ← call (.write (spoolPath dir e) (Jsonl.line e.value))
  outcome (← call (.close (spoolPath dir e)))
  let _ ← outcome written

/-- The files: a write that is answered with `n` put `n` characters at the end. -/
abbrev Files : Type := String → List Char

def fileWorld : World FileAnswer Files where
  serves files q r files' :=
    match q, r with
    | .write path data, .ok n => n ≤ data.length ∧ files' = Function.update files path (files path ++ data.take n)
    | _, _ => files' = files
  moves _ _ := False

/-! ## What a recorder asks -/

def isWrite (e : Exchange FileAnswer) : Bool :=
  match e.asked with
  | .write _ _ => true
  | _ => false

/-- A recorder writes once, its own line to its own file. -/
def recorderContract (dir : String) (entry : Entry) : Contract FileAnswer where
  asks t q := ∀ path data, q = .write path data →
    path = spoolPath dir entry ∧ data = Jsonl.line entry.value ∧ t.any isWrite = false
  answers _ _ _ := True

theorem appendRow_keeps (dir : String) (e : Entry) :
    Keeps (recorderContract dir e) (fun _ _ => True) [] (appendRow dir e).run := by
  have hother : ∀ {t : History FileAnswer} {q : FileAsk}, (∀ path data, q ≠ .write path data) →
      (recorderContract dir e).asks t q := fun hq path data h => absurd h (hq path data)
  refine keeps_asked (hother nofun) fun made _ => keeps_given (fun _ _ => trivial) fun _ _ => ?_
  refine keeps_asked (hother nofun) fun opened _ => keeps_given (fun _ _ => trivial) fun _ _ => ?_
  refine keeps_asked ?_ fun written _ => ?_
  · rintro path data h
    cases h
    exact ⟨rfl, rfl, rfl⟩
  refine keeps_asked (hother nofun) fun closed _ => keeps_given (fun _ _ => trivial) fun _ _ => ?_
  exact keeps_given (fun _ _ => trivial) fun _ _ => trivial

/-! ## What lands in a file -/

variable {ι : Type}

/-- A write to the file that landed, in part or whole: whose it was, and how much. -/
def landedAt (path : String) (e : ι × Exchange FileAnswer) : Option (ι × Nat) :=
  match e with
  | (i, ⟨.write p _, .ok n⟩) => if p = path then some (i, n) else none
  | _ => none

def textAt (path : String) (e : ι × Exchange FileAnswer) : List Char :=
  match e with
  | (_, ⟨.write p data, .ok n⟩) => if p = path then data.take n else []
  | _ => []

def landedIn (path : String) (log : List (ι × Exchange FileAnswer)) : List (ι × Nat) := log.filterMap (landedAt path)

def landing (entries : ι → Entry) (x : ι × Nat) : Landed := ⟨(entries x.1).value, x.2⟩

structure Spooled (dir : String) (entries : ι → Entry) (path : String) (landed : List (ι × Nat)) (content : List Char) :
    Prop where
  once : (landed.map Prod.fst).Nodup
  own : ∀ x ∈ landed, spoolPath dir (entries x.1) = path
  /-- Every line that is JSON is a row. -/
  genuine : ∀ v, some v ∈ Jsonl.read content → ∃ x ∈ landed, v = (entries x.1).value
  /-- Rows whole on a line of their own are all read, in order. -/
  kept : ((Jsonl.kept true (landed.map (landing entries))).map some).Sublist (Jsonl.read content)
  /-- A cut costs at most one row besides its own. -/
  spoiled : ((landed.map (landing entries)).filter Landed.whole).length ≤
    (Jsonl.kept true (landed.map (landing entries))).length +
      ((landed.map (landing entries)).filter fun l => !l.whole).length
  uncut : (∀ x ∈ landed, (landing entries x).whole = true) →
    Jsonl.read content = landed.map fun x => some (entries x.1).value

theorem pairwise_of_splits {α : Type} {R : α → α → Prop} {l : List α}
    (h : ∀ a e b, l = a ++ e :: b → ∀ x ∈ a, R x e) : l.Pairwise R := by
  induction l with
  | nil => exact List.Pairwise.nil
  | cons x l ih =>
    refine List.Pairwise.cons (fun y hy => ?_) (ih fun a e b hl z hz => ?_)
    · obtain ⟨a, b, rfl⟩ := List.append_of_mem hy
      exact h (x :: a) y b rfl x List.mem_cons_self
    · exact h (x :: a) e b (by rw [hl]; rfl) z (List.mem_cons_of_mem _ hz)

section
variable {dir : String} {entries : ι → Entry}

def OwnLines (dir : String) (entries : ι → Entry) (log : List (ι × Exchange FileAnswer)) : Prop :=
  ∀ e ∈ log, ∀ path data, e.2.asked = .write path data →
    path = spoolPath dir (entries e.1) ∧ data = Jsonl.line (entries e.1).value

theorem textAt_landed {e : ι × Exchange FileAnswer}
    (h : ∀ path data, e.2.asked = .write path data →
      path = spoolPath dir (entries e.1) ∧ data = Jsonl.line (entries e.1).value) (path : String) :
    textAt path e = ((landedAt path e).toList.map (landing entries)).flatMap Landed.text := by
  obtain ⟨i, q, r⟩ := e
  cases q with
  | write p data =>
    have hdata : data = Jsonl.line (entries i).value := (h p data rfl).2
    cases r with
    | error e => rfl
    | ok n => by_cases hp : p = path <;> simp [textAt, landedAt, hp, hdata, landing, Landed.text]
  | makedirs d => rfl
  | openAppend p => rfl
  | close p => rfl

theorem landedIn_cons (path : String) (e : ι × Exchange FileAnswer) (log : List (ι × Exchange FileAnswer)) :
    landedIn path (e :: log) = (landedAt path e).toList ++ landedIn path log := by
  unfold landedIn
  cases h : landedAt path e with
  | none => rw [List.filterMap_cons_none h]; rfl
  | some x => rw [List.filterMap_cons_some h]; rfl

theorem flatMap_landed {log : List (ι × Exchange FileAnswer)} (h : OwnLines dir entries log) (path : String) :
    log.flatMap (textAt path) = ((landedIn path log).map (landing entries)).flatMap Landed.text := by
  induction log with
  | nil => rfl
  | cons e log ih =>
    obtain ⟨he, hlog⟩ := List.forall_mem_cons.mp h
    rw [List.flatMap_cons, ih hlog, textAt_landed he, landedIn_cons, List.map_append, List.flatMap_append]

theorem landedAt_write {path : String} {e : ι × Exchange FileAnswer} {x : ι × Nat} (h : landedAt path e = some x) :
    e.1 = x.1 ∧ isWrite e.2 = true ∧ ∃ data, e.2.asked = .write path data := by
  obtain ⟨i, q, r⟩ := e
  cases q with
  | write p data =>
    cases r with
    | error e => cases h
    | ok n =>
      by_cases hp : p = path
      · subst hp
        simp only [landedAt, if_true] at h
        cases h
        exact ⟨rfl, rfl, data, rfl⟩
      · simp only [landedAt, if_neg hp] at h
        cases h
  | makedirs d => cases h
  | openAppend p => cases h
  | close p => cases h

variable [DecidableEq ι] {s : Pool FileAnswer (Except Exc Unit) Files ι}

/-- The files are what landed in them. -/
theorem files_follow {progs : ι → Prog FileAnswer (Except Exc Unit)} (h : Reachable fileWorld (fun _ => []) progs s)
    (path : String) : s.world path = s.log.flatMap (textAt path) := by
  refine pool_follows (F := fun log files => ∀ path, files path = log.flatMap (textAt path))
    (fun _ _ _ _ hmove => False.elim hmove) (fun _ => rfl) (fun log files i q r files' hlog hserves path => ?_) h path
  rw [List.flatMap_append, ← hlog path, List.flatMap_singleton]
  cases q with
  | write p data =>
    cases r with
    | error e => rw [show files' = files from hserves]; exact (List.append_nil _).symm
    | ok n =>
      obtain ⟨-, rfl⟩ := hserves
      by_cases hp : p = path
      · subst hp
        simp [textAt]
      · simp [textAt, hp, Function.update_of_ne (Ne.symm hp)]
  | makedirs d => rw [show files' = files from hserves]; exact (List.append_nil _).symm
  | openAppend p => rw [show files' = files from hserves]; exact (List.append_nil _).symm
  | close p => rw [show files' = files from hserves]; exact (List.append_nil _).symm

/-- What the recorders' contracts say of the log. -/
theorem recorded (h : Reachable fileWorld (fun _ => []) (fun i => (appendRow dir (entries i)).run) s)
    {l m : List (ι × Exchange FileAnswer)} {i : ι} {e : Exchange FileAnswer} (hlog : s.log = l ++ (i, e) :: m) :
    (recorderContract dir (entries i)).asks (l.filterMap fun e => if e.1 = i then some e.2 else none) e.asked := by
  obtain ⟨-, hkeeps⟩ := pool_keeps (I := fun _ => True) (c := fun i => recorderContract dir (entries i))
    (fun _ _ _ _ => trivial) (fun _ _ _ _ _ _ _ _ _ => ⟨trivial, trivial⟩) trivial
    (fun i => appendRow_keeps dir (entries i)) h
  have hhistory := pool_history h i
  rw [hlog, List.filterMap_append, List.filterMap_cons, if_pos rfl] at hhistory
  exact ((hkeeps i).2 _ e.asked e.answer _ hhistory).1

theorem landed_once (h : Reachable fileWorld (fun _ => []) (fun i => (appendRow dir (entries i)).run) s) (path : String) :
    ((landedIn path s.log).map Prod.fst).Nodup := by
  have hwrites : s.log.Pairwise fun a b => isWrite a.2 = true → isWrite b.2 = true → a.1 ≠ b.1 := by
    refine pairwise_of_splits fun l e m hlog x hx hxw hew hsame => ?_
    obtain ⟨i, e⟩ := e
    have hasks := recorded h hlog
    obtain ⟨p, data, hq⟩ : ∃ p data, e.asked = .write p data := by
      unfold isWrite at hew
      split at hew
      · exact ⟨_, _, by assumption⟩
      · cases hew
    obtain ⟨-, -, hnone⟩ := hasks p data hq
    have hmem : x.2 ∈ l.filterMap fun e => if e.1 = i then some e.2 else none :=
      List.mem_filterMap.mpr ⟨x, hx, if_pos hsame⟩
    rw [List.any_eq_false] at hnone
    exact hnone _ hmem hxw
  unfold landedIn List.Nodup
  rw [List.pairwise_map]
  refine hwrites.filterMap _ fun a b hab x hx y hy => ?_
  obtain ⟨hax, haw, -⟩ := landedAt_write hx
  obtain ⟨hby, hbw, -⟩ := landedAt_write hy
  rw [← hax, ← hby]
  exact hab haw hbw

end

/-- **However any number of recorders interleave, and whatever of their calls fails or is cut
    short: a file holds rows of its own recorders, each at most once, in the order written;
    every line that is JSON is one of them, each that landed whole on a line of its own is
    there, and without cuts the file reads as just the rows that were written.** -/
theorem spool_keeps_rows [DecidableEq ι] {dir : String} {entries : ι → Entry} (hfloats : ∀ i, PyJson.floatsOk (entries i).value = true)
    {s : Pool FileAnswer (Except Exc Unit) Files ι}
    (h : Reachable fileWorld (fun _ => []) (fun i => (appendRow dir (entries i)).run) s) (path : String) :
    Spooled dir entries path (landedIn path s.log) (s.world path) := by
  have hown : OwnLines dir entries s.log := by
    intro e he p data hq
    obtain ⟨l, m, hlog⟩ := List.append_of_mem he
    obtain ⟨hp, hdata, -⟩ := recorded h hlog p data hq
    exact ⟨hp, hdata⟩
  have hcontent : s.world path = ((landedIn path s.log).map (landing entries)).flatMap Landed.text := by
    rw [files_follow h path, flatMap_landed hown]
  have hls : ∀ l ∈ (landedIn path s.log).map (landing entries),
      PyJson.Sealed l.value ∧ PyJson.floatsOk l.value = true := by
    intro l hl
    obtain ⟨x, -, rfl⟩ := List.mem_map.mp hl
    exact ⟨sealed_value _, hfloats x.1⟩
  rw [hcontent]
  refine ⟨landed_once h path, fun x hx => ?_, fun v hv => ?_, Jsonl.read_kept fun l hl => (hls l hl).2,
    Jsonl.kept_loses true _, fun hwhole => ?_⟩
  · obtain ⟨e, he, hx⟩ := List.mem_filterMap.mp hx
    obtain ⟨hi, -, data, hq⟩ := landedAt_write hx
    rw [← hi]
    exact (hown e he path data hq).1.symm
  · obtain ⟨l, hl, rfl⟩ := List.mem_map.mp (Jsonl.read_genuine hls hv)
    obtain ⟨x, hx, rfl⟩ := List.mem_map.mp hl
    exact ⟨x, hx, rfl⟩
  · rw [Jsonl.read_whole (fun l hl => (hls l hl).2) fun l hl => ?_, List.map_map]
    · rfl
    · obtain ⟨x, hx, rfl⟩ := List.mem_map.mp hl
      exact hwhole x hx

def failedEntry (id : String) : Entry :=
  ⟨id, "brief.ranking", none, none, 1, none, "claude", "2026-09-15T12:00:00+00:00", "2026-09-15T12:00:01+00:00", 1000,
    { service := "heartbeat", provider := .anthropic, status := some .timeout }⟩

theorem spool_keeps_rows_two :
    let entries : Bool → Entry := fun i => failedEntry (if i then "a" else "b")
    let path := spoolPath "spool" (entries true)
    ∃ s : Pool FileAnswer (Except Exc Unit) Files Bool,
      Spooled "spool" entries path [(true, (Jsonl.line (entries true).value).length), (false, 1)] (s.world path) := by
  intro entries path
  let d := Posix.join "spool" "heartbeat"
  have hstart : Reachable fileWorld (fun _ => []) (fun i => (appendRow "spool" (entries i)).run) _ := .start
  have ha := hstart.serve true (.makedirs d) (.ok () : Except Exc Unit) _ rfl rfl
  have hb := ha.serve false (.makedirs d) (.ok () : Except Exc Unit) _ rfl rfl
  have ha := hb.serve true (.openAppend path) (.ok () : Except Exc Unit) _ rfl rfl
  have hb := ha.serve false (.openAppend path) (.ok () : Except Exc Unit) _ rfl rfl
  have ha := hb.serve true (.write path (Jsonl.line (entries true).value))
    (.ok (Jsonl.line (entries true).value).length : Except Exc Nat) _ rfl ⟨Nat.le_refl _, rfl⟩
  have hb := ha.serve false (.write path (Jsonl.line (entries false).value)) (.ok 1 : Except Exc Nat) _ rfl
    ⟨List.length_pos_of_ne_nil (List.cons_ne_nil _ _), rfl⟩
  have hspooled : ∀ s, Reachable fileWorld (fun _ => []) (fun i => (appendRow "spool" (entries i)).run) s →
      s.log = [(true, ⟨.makedirs d, (.ok () : Except Exc Unit)⟩), (false, ⟨.makedirs d, (.ok () : Except Exc Unit)⟩),
        (true, ⟨.openAppend path, (.ok () : Except Exc Unit)⟩), (false, ⟨.openAppend path, (.ok () : Except Exc Unit)⟩),
        (true, ⟨.write path (Jsonl.line (entries true).value),
          (.ok (Jsonl.line (entries true).value).length : Except Exc Nat)⟩),
        (false, ⟨.write path (Jsonl.line (entries false).value), (.ok 1 : Except Exc Nat)⟩)] →
      Spooled "spool" entries path [(true, (Jsonl.line (entries true).value).length), (false, 1)] (s.world path) := by
    intro s hs hlog
    have h := spool_keeps_rows (fun i => rfl) hs path
    rw [hlog] at h
    simpa only [landedIn, List.filterMap_cons, List.filterMap_nil, landedAt, if_true] using h
  exact ⟨_, hspooled _ hb rfl⟩

end CoreHeartbeat.Ledger
