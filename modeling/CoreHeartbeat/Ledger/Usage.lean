/-
  CoreHeartbeat.Ledger.Usage — reading a provider's usage (`services/llm_ledger.py`): the
  accessors `_get`, `_int` and `_as_plain`, the normalizers and `normalize`.

  A usage is any Python value: a dict, a number, a text, or an object with attributes, whose
  dumping methods (`model_dump`, `to_dict`, `dict`) may be missing or raise. A field that is not
  there reads as null; a conversion or an iteration that the value does not have raises. `_get`
  tries several spellings of a key and takes the first that is not null.

  There are five normalizers, one for each client library, and the shape is given or taken from
  the provider. Each is written as the source writes it, in the order in which it reads, since
  the first reading that raises decides. What a normalizer converts is then a list of the values
  it reads (`countsRead`), and whether it comes through is a question about that list alone.

  Proved:
  - `isSome_of_int`: only null converts to nothing.
  - `normalizeOpenai_returns` and its siblings: which readings each normalizer makes.
  - `normalizer_returns_iff`: a normalizer comes through just when each value of its list is
    null or a number for `int`.

  `Attempt` uses the second to say when a call is broken, and `Conservation` adds up what the
  first return.
-/

import CoreHeartbeat.Lib.Fallible
import CoreHeartbeat.Graph.Models
import CoreHeartbeat.Lib.PyText

namespace CoreHeartbeat.Ledger

open CoreHeartbeat.Graph (Json)

/-! ## Python values -/

/-- What a client library hands over. A float stands by its `repr`; any other object by its
    attributes, what its dumping methods return (`model_dump`, `to_dict`, `dict`, those that
    are there and return), what `int` makes of it, its truth, what iterating over it yields,
    and its text. -/
inductive Value where
  | null
  | bool (b : Bool)
  | int (n : Int)
  | float (repr : String)
  | str (s : String)
  | map (fields : List (String × Value))
  | seq (items : List Value)
  | obj (attrs : List (String × Value)) (dumps : List Value) (whole : Option Int) (truth : Bool)
      (items : Option (List Value)) (text : String)

/-- The name of an exception's type. -/
abbrev Fault := String

structure Python where
  /-- `int(s)`; `none` is a `ValueError`. -/
  intOfText : String → Option Int
  /-- `int(f)`, which an infinity or a NaN raises. -/
  intOfFloat : String → Except Fault Int
  /-- `str(v)`. -/
  str : Value → String
  upper : String → String
  lower : String → String

def Value.isNull : Value → Bool
  | .null => true
  | _ => false

def Value.truthy : Value → Bool
  | .null => false
  | .bool b => b
  | .int n => n != 0
  | .float repr => repr != "0.0" && repr != "-0.0"
  | .str s => s != ""
  | .map fields => !fields.isEmpty
  | .seq items => !items.isEmpty
  | .obj _ _ _ truth _ _ => truth

/-- What iterating over `v` yields. -/
def Value.iterate : Value → Except Fault (List Value)
  | .str s => .ok (s.toList.map fun c => .str (String.ofList [c]))
  | .map fields => .ok (fields.map fun f => .str f.1)
  | .seq items => .ok items
  | .obj _ _ _ _ (some items) _ => .ok items
  | _ => .error "TypeError"

/-- `obj[n]` of a mapping that has it, `getattr(obj, n, None)` of anything else. -/
def Value.field : Value → String → Value
  | .map fields, n => (fields.lookup n).getD .null
  | .obj attrs _ _ _ _ _, n => (attrs.lookup n).getD .null
  | _, _ => .null

/-- `_get`: the first spelling that is not null. -/
def get (obj : Value) (names : List String) : Value :=
  ((names.map obj.field).find? fun v => !v.isNull).getD .null

def int (py : Python) : Value → Except Fault (Option Int)
  | .null => .ok none
  | .bool b => .ok (some (if b then 1 else 0))
  | .int n => .ok (some n)
  | .float repr => (py.intOfFloat repr).map some
  | .str s =>
    match py.intOfText s with
    | some n => .ok (some n)
    | none => .error "ValueError"
  | .obj _ _ (some n) _ _ _ => .ok (some n)
  | _ => .error "TypeError"

mutual

/-- `_as_plain`: the value as JSON. -/
def asPlain : Value → Json
  | .null => .null
  | .bool b => .bool b
  | .int n => .int n
  | .float repr => .float repr
  | .str s => .str s
  | .map fields => .obj (asPlainFields fields)
  | .seq items => .arr (asPlainItems items)
  | .obj _ dumps _ _ _ text => asPlainFirst dumps text

def asPlainFields : List (String × Value) → List (String × Json)
  | [] => []
  | (k, v) :: fields => (k, asPlain v) :: asPlainFields fields

def asPlainItems : List Value → List Json
  | [] => []
  | v :: items => asPlain v :: asPlainItems items

/-- What the first dumping method returned, or the text. -/
def asPlainFirst : List Value → String → Json
  | [], text => .str text
  | v :: _, _ => asPlain v

end

/-! ## The normalizers -/

/-- The token fields of a row, and the keys that only the raw Anthropic usage sets. -/
structure Tokens where
  inputUncached : Option Int
  inputAudio : Option Int
  cacheWrite5m : Option Int
  cacheWrite1h : Option Int
  cacheRead : Option Int
  outputBillable : Option Int
  thinkingTokens : Option Int
  toolUsePromptTokens : Option Int
  webSearchRequests : Option Int
  serviceTier : Option String := none
  inferenceGeo : Option String := none
  speed : Option String := none
  deriving DecidableEq, Repr

variable (py : Python)

def spelledBySdk (u : Value) : Bool := (get u ["input_tokens"]).isNull && !(get u ["inputTokens"]).isNull

def textOf (u : Value) (name : String) : Option String :=
  let v := get u [name]
  if v.isNull then none else some (py.str v)

def normalizeAnthropic (u : Value) : Except Fault Tokens :=
  if spelledBySdk u then do
    let d := get u ["inputTokenDetails"]
    let od := get u ["outputTokenDetails"]
    let cacheWrite ← int py (get d ["cacheWriteTokens"])
    let noCache ← int py (get d ["noCacheTokens"])
    let inputUncached ← if noCache.isSome then pure noCache else int py (get u ["inputTokens"])
    let cacheRead ← int py (get d ["cacheReadTokens"])
    let outputBillable ← int py (get u ["outputTokens"])
    let thinkingTokens ← int py (get od ["reasoningTokens"])
    return {
      inputUncached, inputAudio := none
      cacheWrite5m := cacheWrite, cacheWrite1h := cacheWrite.map fun _ => 0, cacheRead
      outputBillable, thinkingTokens
      toolUsePromptTokens := none, webSearchRequests := some 0 }
  else do
    let createdTotal ← int py (get u ["cache_creation_input_tokens"])
    let breakdown := get u ["cache_creation"]
    let w5 ← int py (get breakdown ["ephemeral_5m_input_tokens"])
    let w1 ← int py (get breakdown ["ephemeral_1h_input_tokens"])
    let (w5, w1) := if breakdown.isNull && createdTotal.isSome then (createdTotal, some 0) else (w5, w1)
    let stu := get u ["server_tool_use"]
    let inputUncached ← int py (get u ["input_tokens"])
    let cacheRead ← int py (get u ["cache_read_input_tokens"])
    let outputBillable ← int py (get u ["output_tokens"])
    let webSearchRequests ← int py (get stu ["web_search_requests"])
    return {
      inputUncached, inputAudio := none
      cacheWrite5m := w5, cacheWrite1h := w1, cacheRead
      outputBillable, thinkingTokens := none
      toolUsePromptTokens := none, webSearchRequests := some (webSearchRequests.getD 0)
      serviceTier := textOf py u "service_tier", inferenceGeo := textOf py u "inference_geo"
      speed := textOf py u "speed" }

/-- `v or {}`. -/
def orEmpty (v : Value) : Value := if v.truthy then v else .map []

def normalizeLangchain (u : Value) : Except Fault Tokens := do
  let d := orEmpty (get u ["input_token_details"])
  let od := orEmpty (get u ["output_token_details"])
  let cacheRead ← int py (get d ["cache_read"])
  let cacheWrite ← int py (get d ["cache_creation"])
  let audio ← int py (get d ["audio"])
  let totalIn ← int py (get u ["input_tokens"])
  let outputBillable ← int py (get u ["output_tokens"])
  let thinkingTokens ← int py (get od ["reasoning"])
  return {
    inputUncached := totalIn.map fun n => n - cacheRead.getD 0 - cacheWrite.getD 0 - audio.getD 0
    inputAudio := audio
    cacheWrite5m := cacheWrite, cacheWrite1h := cacheWrite.map fun _ => 0, cacheRead
    outputBillable, thinkingTokens
    toolUsePromptTokens := none, webSearchRequests := some 0 }

def normalizeOpenai (u : Value) : Except Fault Tokens := do
  let prompt ← int py (get u ["prompt_tokens", "input_tokens"])
  let pd := get u ["prompt_tokens_details", "input_tokens_details"]
  let cached ← int py (get pd ["cached_tokens"])
  let cacheWrite ← int py (get pd ["cache_write_tokens"])
  let cd := get u ["completion_tokens_details", "output_tokens_details"]
  let outputBillable ← int py (get u ["completion_tokens", "output_tokens"])
  let thinkingTokens ← int py (get cd ["reasoning_tokens"])
  return {
    inputUncached := some (prompt.getD 0 - cached.getD 0 - cacheWrite.getD 0), inputAudio := none
    cacheWrite5m := cacheWrite, cacheWrite1h := none, cacheRead := some (cached.getD 0)
    outputBillable, thinkingTokens
    toolUsePromptTokens := none, webSearchRequests := some 0 }

/-- `str(_get(d, "modality") or "").upper().endswith(modality)`. -/
def hasModality (modality : String) (d : Value) : Bool :=
  let v := get d ["modality"]
  modality.toList.isSuffixOf (py.upper (if v.truthy then py.str v else "")).toList

def modalityCounts (modality : String) (details : Value) : Except Fault (List Value) := do
  let entries ← (if details.truthy then details else .seq []).iterate
  return (entries.filter (hasModality py modality)).map fun d => get d ["tokenCount", "token_count"]

def sumCounts (total : Int) : List Value → Except Fault Int
  | [] => .ok total
  | v :: vs => do
    let n ← int py v
    sumCounts (total + n.getD 0) vs

def modalityCount (details : Value) (modality : String) : Except Fault Int := do
  sumCounts py 0 (← modalityCounts py modality details)

def normalizeGemini (u : Value) : Except Fault Tokens := do
  let prompt ← int py (get u ["promptTokenCount", "prompt_token_count"])
  let cached ← int py (get u ["cachedContentTokenCount", "cached_content_token_count"])
  let audioIn ← modalityCount py (get u ["promptTokensDetails", "prompt_tokens_details"]) "AUDIO"
  let audioCached ← modalityCount py (get u ["cacheTokensDetails", "cache_tokens_details"]) "AUDIO"
  let uncachedAudio := audioIn - audioCached
  let candidates ← int py (get u ["candidatesTokenCount", "candidates_token_count"])
  let thoughts ← int py (get u ["thoughtsTokenCount", "thoughts_token_count"])
  let toolUse ← int py (get u ["toolUsePromptTokenCount", "tool_use_prompt_token_count"])
  return {
    inputUncached := some (prompt.getD 0 - cached.getD 0 - uncachedAudio)
    inputAudio := if audioIn = 0 then none else some uncachedAudio
    cacheWrite5m := none, cacheWrite1h := none, cacheRead := some (cached.getD 0)
    outputBillable := some (candidates.getD 0 + thoughts.getD 0), thinkingTokens := thoughts
    toolUsePromptTokens := toolUse, webSearchRequests := some 0 }

def normalizeOllama (u : Value) : Except Fault Tokens := do
  let inputUncached ← int py (get u ["prompt_eval_count"])
  let outputBillable ← int py (get u ["eval_count"])
  return {
    inputUncached, inputAudio := none
    cacheWrite5m := none, cacheWrite1h := none, cacheRead := none
    outputBillable, thinkingTokens := none
    toolUsePromptTokens := none, webSearchRequests := some 0 }

/-- The keys of `_NORMALIZERS`. -/
inductive Spelling where
  | langchain | anthropic | openai | gemini | ollama
  deriving DecidableEq, Repr

/-- `PROVIDERS`. -/
inductive Provider where
  | anthropic | openai | gemini | ollama
  deriving DecidableEq, Repr

def Provider.spelling : Provider → Spelling
  | .anthropic => .anthropic
  | .openai => .openai
  | .gemini => .gemini
  | .ollama => .ollama

def normalizer : Spelling → Value → Except Fault Tokens
  | .langchain => normalizeLangchain py
  | .anthropic => normalizeAnthropic py
  | .openai => normalizeOpenai py
  | .gemini => normalizeGemini py
  | .ollama => normalizeOllama py

/-- `shape or provider`. -/
def spellingOf (provider : Provider) (shape : Option Spelling) : Spelling := shape.getD provider.spelling

/-- `normalize`: no fields when there is no usage. -/
def normalize (provider : Provider) (usage : Value) (shape : Option Spelling) : Except Fault (Option Tokens) :=
  if usage.isNull then .ok none else (normalizer py (spellingOf provider shape) usage).map some

/-! ## What the normalizers convert -/

/-- The shapes that clients report usage in: the spellings, Anthropic's two told apart. -/
inductive ClientShape where
  | anthropicRaw | aiSdk | openai | gemini | langchain | ollama
  deriving DecidableEq, Repr

def ClientShape.spelling : ClientShape → Spelling
  | .anthropicRaw => .anthropic
  | .aiSdk => .anthropic
  | .openai => .openai
  | .gemini => .gemini
  | .langchain => .langchain
  | .ollama => .ollama

def clientShape (spelling : Spelling) (u : Value) : ClientShape :=
  match spelling with
  | .langchain => .langchain
  | .anthropic => if spelledBySdk u then .aiSdk else .anthropicRaw
  | .openai => .openai
  | .gemini => .gemini
  | .ollama => .ollama

def geminiCounts (u : Value) (audio cachedAudio : List Value) : List Value :=
  get u ["promptTokenCount", "prompt_token_count"] ::
    get u ["cachedContentTokenCount", "cached_content_token_count"] :: (audio ++ (cachedAudio ++
      [get u ["candidatesTokenCount", "candidates_token_count"], get u ["thoughtsTokenCount", "thoughts_token_count"],
        get u ["toolUsePromptTokenCount", "tool_use_prompt_token_count"]]))

/-- The values that the normalizer of a shape reads and converts, where it finds them all. -/
def countsRead (shape : ClientShape) (u : Value) : Except Fault (List Value) :=
  match shape with
  | .aiSdk =>
    let d := get u ["inputTokenDetails"]
    let noCache := get d ["noCacheTokens"]
    .ok [get d ["cacheWriteTokens"], noCache, if noCache.isNull then get u ["inputTokens"] else .null,
      get d ["cacheReadTokens"], get u ["outputTokens"], get (get u ["outputTokenDetails"]) ["reasoningTokens"]]
  | .anthropicRaw =>
    let breakdown := get u ["cache_creation"]
    .ok [get u ["cache_creation_input_tokens"], get breakdown ["ephemeral_5m_input_tokens"],
      get breakdown ["ephemeral_1h_input_tokens"], get u ["input_tokens"], get u ["cache_read_input_tokens"],
      get u ["output_tokens"], get (get u ["server_tool_use"]) ["web_search_requests"]]
  | .langchain =>
    let d := orEmpty (get u ["input_token_details"])
    .ok [get d ["cache_read"], get d ["cache_creation"], get d ["audio"], get u ["input_tokens"],
      get u ["output_tokens"], get (orEmpty (get u ["output_token_details"])) ["reasoning"]]
  | .openai =>
    let pd := get u ["prompt_tokens_details", "input_tokens_details"]
    .ok [get u ["prompt_tokens", "input_tokens"], get pd ["cached_tokens"], get pd ["cache_write_tokens"],
      get u ["completion_tokens", "output_tokens"],
      get (get u ["completion_tokens_details", "output_tokens_details"]) ["reasoning_tokens"]]
  | .gemini => do
    let audio ← modalityCounts py "AUDIO" (get u ["promptTokensDetails", "prompt_tokens_details"])
    let cachedAudio ← modalityCounts py "AUDIO" (get u ["cacheTokensDetails", "cache_tokens_details"])
    return geminiCounts u audio cachedAudio
  | .ollama => .ok [get u ["prompt_eval_count"], get u ["eval_count"]]

/-- The value is null, or `int` takes it. -/
def Convertible (v : Value) : Prop := ∃ n, int py v = .ok n

def Readable (shape : ClientShape) (u : Value) : Prop :=
  ∃ counts, countsRead py shape u = .ok counts ∧ ∀ v ∈ counts, Convertible py v

variable {py}

theorem returns_nil {β : Type} {b : β} : (∃ b', (pure b : Except Fault β) = .ok b') ↔ ∀ v ∈ [], Convertible py v :=
  iff_of_true ⟨b, rfl⟩ nofun

/-- One conversion and the rest. -/
theorem returns_cons {β : Type} {v : Value} {vs : List Value} {f : Option Int → Except Fault β}
    (hf : ∀ n, int py v = .ok n → ((∃ b, f n = .ok b) ↔ ∀ w ∈ vs, Convertible py w)) :
    (∃ b, (int py v >>= f) = .ok b) ↔ ∀ w ∈ v :: vs, Convertible py w := by
  rw [List.forall_mem_cons]
  constructor
  · intro h
    obtain ⟨b, h⟩ := h
    obtain ⟨n, hn, hb⟩ := Fallible.bind_ok.mp h
    exact ⟨⟨n, hn⟩, (hf n hn).mp ⟨b, hb⟩⟩
  · intro h
    obtain ⟨⟨n, hn⟩, hrest⟩ := h
    exact Fallible.bind_returns hn ((hf n hn).mpr hrest)

theorem readable_iff {shape : ClientShape} {u : Value} {counts : List Value} (h : countsRead py shape u = .ok counts) :
    Readable py shape u ↔ ∀ v ∈ counts, Convertible py v := by
  unfold Readable
  rw [h]
  constructor
  · intro h
    obtain ⟨_, heq, hall⟩ := h
    rwa [← Except.ok.inj heq] at hall
  · exact fun hall => ⟨counts, rfl, hall⟩

theorem sumCounts_returns {β : Type} {vs ws : List Value} {f : Int → Except Fault β}
    (hf : ∀ n, (∃ b, f n = .ok b) ↔ ∀ w ∈ ws, Convertible py w) (total : Int) :
    (∃ b, (sumCounts py total vs >>= f) = .ok b) ↔ ∀ w ∈ vs ++ ws, Convertible py w := by
  induction vs generalizing total with
  | nil => exact hf total
  | cons v vs ih =>
    rw [List.cons_append]
    have hassoc : (sumCounts py total (v :: vs) >>= f) =
        int py v >>= fun n => sumCounts py (total + n.getD 0) vs >>= f := by
      rw [sumCounts]
      exact bind_assoc _ _ _
    rw [hassoc]
    exact returns_cons fun n _ => ih (total + n.getD 0)

theorem normalizeOpenai_returns (u : Value) : (∃ t, normalizeOpenai py u = .ok t) ↔ Readable py .openai u :=
  Iff.trans (returns_cons fun _ _ => returns_cons fun _ _ => returns_cons fun _ _ => returns_cons fun _ _ =>
    returns_cons fun _ _ => returns_nil) (readable_iff rfl).symm

theorem normalizeOllama_returns (u : Value) : (∃ t, normalizeOllama py u = .ok t) ↔ Readable py .ollama u :=
  Iff.trans (returns_cons fun _ _ => returns_cons fun _ _ => returns_nil) (readable_iff rfl).symm

theorem normalizeLangchain_returns (u : Value) : (∃ t, normalizeLangchain py u = .ok t) ↔ Readable py .langchain u :=
  Iff.trans (returns_cons fun _ _ => returns_cons fun _ _ => returns_cons fun _ _ => returns_cons fun _ _ =>
    returns_cons fun _ _ => returns_cons fun _ _ => returns_nil) (readable_iff rfl).symm

/-- Only null converts to nothing. -/
theorem isSome_of_int {v : Value} {n : Option Int} (h : int py v = .ok n) : n.isSome = !v.isNull := by
  unfold int at h
  split at h
  · cases h; rfl
  · cases h; rfl
  · cases h; rfl
  · rename_i repr
    cases hwhole : py.intOfFloat repr with
    | error fault => rw [hwhole] at h; cases h
    | ok m => rw [hwhole] at h; cases h; rfl
  · split at h <;> cases h
    rfl
  · cases h; rfl
  · cases h

theorem normalizeAnthropic_returns (u : Value) :
    (∃ t, normalizeAnthropic py u = .ok t) ↔ Readable py (clientShape .anthropic u) u := by
  unfold normalizeAnthropic clientShape
  split
  · refine Iff.trans (returns_cons fun _ _ => returns_cons fun noCache hnoCache => ?_) (readable_iff rfl).symm
    -- what stands alone is read only without the remainder
    have halone : (get (get u ["inputTokenDetails"]) ["noCacheTokens"]).isNull = !noCache.isSome := by
      rw [isSome_of_int hnoCache, Bool.not_not]
    rw [halone]
    cases noCache with
    | none =>
      exact returns_cons fun _ _ => returns_cons fun _ _ => returns_cons fun _ _ => returns_cons fun _ _ => returns_nil
    | some n =>
      have hnull : Convertible py .null := ⟨none, rfl⟩
      simp only [Option.isSome_some, Bool.not_true, Bool.false_eq_true, if_false]
      refine Iff.trans ?_ (List.forall_mem_cons.trans (and_iff_right hnull)).symm
      exact returns_cons fun _ _ => returns_cons fun _ _ => returns_cons fun _ _ => returns_nil
  · exact Iff.trans (returns_cons fun _ _ => returns_cons fun _ _ => returns_cons fun _ _ => returns_cons fun _ _ =>
      returns_cons fun _ _ => returns_cons fun _ _ => returns_cons fun _ _ => returns_nil) (readable_iff rfl).symm

theorem modalityCount_eq {details : Value} {counts : List Value} (h : modalityCounts py "AUDIO" details = .ok counts) :
    modalityCount py details "AUDIO" = sumCounts py 0 counts := by
  unfold modalityCount
  rw [h]
  rfl

/-- A gemini usage is read where the details can be iterated over. -/
theorem countsRead_gemini {u : Value} {counts : List Value} :
    countsRead py .gemini u = .ok counts ↔
      ∃ audio cachedAudio,
        modalityCounts py "AUDIO" (get u ["promptTokensDetails", "prompt_tokens_details"]) = .ok audio ∧
        modalityCounts py "AUDIO" (get u ["cacheTokensDetails", "cache_tokens_details"]) = .ok cachedAudio ∧
        counts = geminiCounts u audio cachedAudio := by
  constructor
  · intro h
    obtain ⟨audio, haudio, h⟩ := Fallible.bind_ok.mp h
    obtain ⟨cachedAudio, hcached, h⟩ := Fallible.bind_ok.mp h
    exact ⟨audio, cachedAudio, haudio, hcached, (Except.ok.inj h).symm⟩
  · intro ⟨audio, cachedAudio, haudio, hcached, hcounts⟩
    rw [hcounts]
    exact Fallible.bind_ok.mpr ⟨audio, haudio, Fallible.bind_ok.mpr ⟨cachedAudio, hcached, rfl⟩⟩

theorem normalizeGemini_returns (u : Value) : (∃ t, normalizeGemini py u = .ok t) ↔ Readable py .gemini u := by
  by_cases hdetails : ∃ counts, countsRead py .gemini u = .ok counts
  · obtain ⟨counts, hread⟩ := hdetails
    obtain ⟨audio, cachedAudio, haudio, hcached, rfl⟩ := countsRead_gemini.mp hread
    refine Iff.trans ?_ (readable_iff hread).symm
    unfold normalizeGemini
    rw [modalityCount_eq haudio, modalityCount_eq hcached]
    exact returns_cons fun _ _ => returns_cons fun _ _ => sumCounts_returns (fun _ => sumCounts_returns (fun _ =>
      returns_cons fun _ _ => returns_cons fun _ _ => returns_cons fun _ _ => returns_nil) 0) 0
  · refine iff_of_false (fun h => hdetails ?_) (fun h => hdetails ?_)
    · obtain ⟨t, h⟩ := h
      obtain ⟨_, -, h⟩ := Fallible.bind_ok.mp h
      obtain ⟨_, -, h⟩ := Fallible.bind_ok.mp h
      obtain ⟨_, haudioCount, h⟩ := Fallible.bind_ok.mp h
      obtain ⟨_, hcachedCount, -⟩ := Fallible.bind_ok.mp h
      obtain ⟨audio, haudio, -⟩ := Fallible.bind_ok.mp haudioCount
      obtain ⟨cachedAudio, hcached, -⟩ := Fallible.bind_ok.mp hcachedCount
      exact ⟨_, countsRead_gemini.mpr ⟨audio, cachedAudio, haudio, hcached, rfl⟩⟩
    · obtain ⟨counts, hread, -⟩ := h
      exact ⟨counts, hread⟩

/-- A normalizer comes through just when everything it reads converts. -/
theorem normalizer_returns_iff (spelling : Spelling) (u : Value) :
    (∃ t, normalizer py spelling u = .ok t) ↔ Readable py (clientShape spelling u) u := by
  cases spelling with
  | langchain => exact normalizeLangchain_returns u
  | anthropic => exact normalizeAnthropic_returns u
  | openai => exact normalizeOpenai_returns u
  | gemini => exact normalizeGemini_returns u
  | ollama => exact normalizeOllama_returns u

def plainPython : Python where
  intOfText s := (PyText.Unicode.ascii.int s.toList).map Int.ofNat
  intOfFloat _ := .error "ValueError"
  str
    | .str s => s
    | _ => ""
  upper := id
  lower := id

end CoreHeartbeat.Ledger
