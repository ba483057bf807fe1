/-
  CoreHeartbeat.Ledger.Conservation — whether the token fields of a row add up to what the
  provider counted.

  A client reports counts as non-negative integers or not at all (`Counted`). The input fields
  that are billed have to sum up to the prompt's tokens, the billed output to the output's, and
  no field may be negative (`Conserves`).

  What a report means is the provider's: `promptTotal` and `billedOutput` say, for each of the
  six shapes, what the whole prompt and the billed output are, from the keys that the provider
  documents. The normalizers are those of `Ledger.Usage`; they tell the cached tokens apart
  where a shape counts them into the prompt, and never check the parts against a total. The
  condition is on the report alone: the parts that are told apart fit into the whole (`Splits`),
  and a usage of Anthropic is spelled in one way (`SpelledAlone`).

  Proved:
  - `openai_yields`, `gemini_yields`, `anthropic_yields`, `sdk_yields`: the fields that come of
    counts, shape by shape; `normalizer_yields` is all of them.
  - `conserved_iff`: which of the six shapes conserve, and when. It fails a consistent usage in
    one of them only, where the AI SDK reports cached tokens without the uncached remainder, or
    an output without its input.
  - `a_cached_prompt_is_counted_twice`: 40 cached tokens, billed as read and as uncached.
-/

import CoreHeartbeat.Ledger.Usage
import Mathlib.Algebra.GroupWithZero.Nat

namespace CoreHeartbeat.Ledger

/-! ## Counts -/

def IsCount (v : Value) : Prop := v = .null ∨ ∃ n : Nat, v = .int n

def countOf : Value → Option Nat
  | .int n => if 0 ≤ n then some n.toNat else none
  | _ => none

def tokens (v : Value) : Nat := (countOf v).getD 0

def reported (v : Value) : Option Int := (countOf v).map Int.ofNat

variable {py : Python}

theorem int_count {v : Value} (h : IsCount v) : int py v = .ok (reported v) := by
  rcases h with rfl | ⟨n, rfl⟩
  · rfl
  · simp [int, reported, countOf]

theorem int_bind {β : Type} {v : Value} (h : IsCount v) (f : Option Int → Except Fault β) :
    (int py v >>= f) = f (reported v) := by
  rw [int_count h]
  rfl

@[simp] theorem reported_getD (v : Value) : (reported v).getD 0 = tokens v := by
  unfold reported tokens
  cases countOf v <;> rfl

theorem reported_cases (v : Value) : (reported v = none ∧ tokens v = 0) ∨ reported v = some (tokens v : Int) := by
  unfold reported tokens
  cases countOf v with
  | none => exact Or.inl ⟨rfl, rfl⟩
  | some n => exact Or.inr rfl

@[simp] theorem reported_null : reported .null = none := rfl

@[simp] theorem tokens_null : tokens .null = 0 := rfl

theorem sumCounts_count {vs : List Value} (h : ∀ v ∈ vs, IsCount v) (total : Int) :
    sumCounts py total vs = .ok (total + ((vs.map tokens).sum : Nat)) := by
  induction vs generalizing total with
  | nil => simp [sumCounts]
  | cons v vs ih =>
    obtain ⟨hv, hvs⟩ := List.forall_mem_cons.mp h
    rw [sumCounts, int_bind hv, ih hvs, reported_getD, List.map_cons, List.sum_cons]
    congr 1
    omega

variable (py)

def modalityTokens (modality : String) (details : Value) : Nat :=
  match modalityCounts py modality details with
  | .ok counts => (counts.map tokens).sum
  | .error _ => 0

/-! ## What a provider counts -/

def cacheWritten (u : Value) : Nat :=
  let breakdown := get u ["cache_creation"]
  if (get u ["cache_creation_input_tokens"]).isNull then
    tokens (get breakdown ["ephemeral_5m_input_tokens"]) + tokens (get breakdown ["ephemeral_1h_input_tokens"])
  else tokens (get u ["cache_creation_input_tokens"])

/-- The parts of the input that the AI SDK tells apart. -/
def sdkParts (u : Value) : Nat :=
  let d := get u ["inputTokenDetails"]
  tokens (get d ["noCacheTokens"]) + tokens (get d ["cacheReadTokens"]) + tokens (get d ["cacheWriteTokens"])

/-- The tokens of the whole prompt, as the provider documents them. -/
def promptTotal (shape : ClientShape) (u : Value) : Nat :=
  match shape with
  | .anthropicRaw => tokens (get u ["input_tokens"]) + cacheWritten u + tokens (get u ["cache_read_input_tokens"])
  | .aiSdk => if (get u ["inputTokens"]).isNull then sdkParts u else tokens (get u ["inputTokens"])
  | .openai => tokens (get u ["prompt_tokens", "input_tokens"])
  | .gemini => tokens (get u ["promptTokenCount", "prompt_token_count"])
  | .langchain => tokens (get u ["input_tokens"])
  | .ollama => tokens (get u ["prompt_eval_count"])

/-- The output tokens that are billed, thinking among them. -/
def billedOutput (shape : ClientShape) (u : Value) : Nat :=
  match shape with
  | .anthropicRaw => tokens (get u ["output_tokens"])
  | .aiSdk => tokens (get u ["outputTokens"])
  | .openai => tokens (get u ["completion_tokens", "output_tokens"])
  | .gemini =>
    tokens (get u ["candidatesTokenCount", "candidates_token_count"]) +
      tokens (get u ["thoughtsTokenCount", "thoughts_token_count"])
  | .langchain => tokens (get u ["output_tokens"])
  | .ollama => tokens (get u ["eval_count"])

/-- The usage is spelled in one way: a raw one not as the AI SDK does, and the other way round. -/
def SpelledAlone (shape : ClientShape) (u : Value) : Prop :=
  match shape with
  | .anthropicRaw => get u ["inputTokens"] = .null
  | .aiSdk =>
    IsCount (get u ["inputTokens"]) ∧ get u ["cache_creation"] = .null ∧ get u ["server_tool_use"] = .null ∧
      ∀ name ∈ ["cache_creation_input_tokens", "input_tokens", "cache_read_input_tokens", "output_tokens"],
        get u [name] = .null
  | _ => True

structure Counted (shape : ClientShape) (u : Value) : Prop where
  given : u.isNull = false
  counts : ∃ counts, countsRead py shape u = .ok counts ∧ ∀ v ∈ counts, IsCount v
  spelled : SpelledAlone shape u

/-! ## Conservation -/

def Tokens.fields (t : Tokens) : List (Option Int) :=
  [t.inputUncached, t.inputAudio, t.cacheWrite5m, t.cacheWrite1h, t.cacheRead, t.outputBillable, t.thinkingTokens,
    t.toolUsePromptTokens, t.webSearchRequests]

def Tokens.billedInput (t : Tokens) : Int :=
  t.inputUncached.getD 0 + t.inputAudio.getD 0 + t.cacheWrite5m.getD 0 + t.cacheWrite1h.getD 0 + t.cacheRead.getD 0

def NonNeg (field : Option Int) : Prop := ∀ n ∈ field, 0 ≤ n

structure Conserves (t : Tokens) (prompt output : Nat) : Prop where
  nonneg : ∀ field ∈ t.fields, NonNeg field
  input : t.billedInput = prompt
  output : t.outputBillable.getD 0 = output

/-- The parts that are told apart fit into the whole: those that a shape takes off the prompt
    are no more than it, those that it adds up are all of it. -/
def Splits (shape : ClientShape) (u : Value) : Prop :=
  match shape with
  | .anthropicRaw =>
    let breakdown := get u ["cache_creation"]
    (get u ["cache_creation_input_tokens"]).isNull = true ∨ breakdown.isNull = true ∨
      tokens (get breakdown ["ephemeral_5m_input_tokens"]) + tokens (get breakdown ["ephemeral_1h_input_tokens"]) =
        tokens (get u ["cache_creation_input_tokens"])
  | .aiSdk =>
    let d := get u ["inputTokenDetails"]
    if (get u ["inputTokens"]).isNull then sdkParts u = 0 ∧ tokens (get u ["outputTokens"]) = 0
    else if (get d ["noCacheTokens"]).isNull then
      tokens (get d ["cacheReadTokens"]) = 0 ∧ tokens (get d ["cacheWriteTokens"]) = 0
    else sdkParts u = tokens (get u ["inputTokens"])
  | .openai =>
    let pd := get u ["prompt_tokens_details", "input_tokens_details"]
    tokens (get pd ["cached_tokens"]) + tokens (get pd ["cache_write_tokens"]) ≤ promptTotal .openai u
  | .gemini =>
    let audio := modalityTokens py "AUDIO" (get u ["promptTokensDetails", "prompt_tokens_details"])
    let cachedAudio := modalityTokens py "AUDIO" (get u ["cacheTokensDetails", "cache_tokens_details"])
    let cached := tokens (get u ["cachedContentTokenCount", "cached_content_token_count"])
    cachedAudio ≤ audio ∧ cached + (audio - cachedAudio) ≤ promptTotal .gemini u
  | .langchain =>
    let d := orEmpty (get u ["input_token_details"])
    tokens (get d ["cache_read"]) + tokens (get d ["cache_creation"]) + tokens (get d ["audio"]) ≤
      promptTotal .langchain u
  | .ollama => True

variable {py}

@[simp] theorem nonNeg_none : NonNeg none := nofun

@[simp] theorem nonNeg_some {n : Int} : NonNeg (some n) ↔ 0 ≤ n := by simp [NonNeg]

@[simp] theorem nonNeg_reported (v : Value) : NonNeg (reported v) := by
  intro x hx
  obtain ⟨n, -, rfl⟩ := Option.mem_map.mp hx
  exact Int.natCast_nonneg n

@[simp] theorem nonNeg_zero (field : Option Int) : NonNeg (field.map fun _ => 0) := by
  cases field <;> simp

@[simp] theorem getD_zero (field : Option Int) : (field.map fun _ => (0 : Int)).getD 0 = 0 := by
  cases field <;> rfl

theorem conserves_iff {t : Tokens} {prompt output : Nat} :
    Conserves t prompt output ↔
      (∀ field ∈ [t.inputUncached, t.inputAudio, t.cacheWrite5m, t.cacheWrite1h, t.cacheRead, t.outputBillable,
        t.thinkingTokens, t.toolUsePromptTokens, t.webSearchRequests], NonNeg field) ∧
      t.inputUncached.getD 0 + t.inputAudio.getD 0 + t.cacheWrite5m.getD 0 + t.cacheWrite1h.getD 0 +
        t.cacheRead.getD 0 = prompt ∧
      t.outputBillable.getD 0 = output :=
  ⟨fun h => ⟨h.nonneg, h.input, h.output⟩, fun h => ⟨h.1, h.2.1, h.2.2⟩⟩

theorem counted_of {shape : ClientShape} {u : Value} {counts : List Value} (h : Counted py shape u)
    (hread : countsRead py shape u = .ok counts) : ∀ v ∈ counts, IsCount v := by
  obtain ⟨counts', hread', hall⟩ := h.counts
  rwa [Except.ok.inj (hread.symm.trans hread')]

def Yields (py : Python) (result : Except Fault Tokens) (shape : ClientShape) (u : Value) : Prop :=
  ∃ t, result = .ok t ∧ (Conserves t (promptTotal shape u) (billedOutput shape u) ↔ Splits py shape u)

theorem yields_pure {t : Tokens} {shape : ClientShape} {u : Value} :
    Yields py (pure t) shape u ↔
      (Conserves t (promptTotal shape u) (billedOutput shape u) ↔ Splits py shape u) := by
  constructor
  · intro ⟨t', ht, h⟩
    rwa [Except.ok.inj ht]
  · exact fun h => ⟨t, rfl, h⟩

theorem openai_yields {u : Value} (h : Counted py .openai u) : Yields py (normalizeOpenai py u) .openai u := by
  have hall := counted_of h rfl
  simp only [List.forall_mem_cons] at hall
  obtain ⟨hprompt, hcached, hwrite, houtput, hthinking, -⟩ := hall
  simp only [normalizeOpenai, int_bind hprompt, int_bind hcached, int_bind hwrite, int_bind houtput,
    int_bind hthinking, yields_pure]
  simp [conserves_iff, Splits, promptTotal, billedOutput]
  omega

theorem ollama_yields {u : Value} (h : Counted py .ollama u) : Yields py (normalizeOllama py u) .ollama u := by
  have hall := counted_of h rfl
  simp only [List.forall_mem_cons] at hall
  obtain ⟨hprompt, houtput, -⟩ := hall
  simp only [normalizeOllama, int_bind hprompt, int_bind houtput, yields_pure]
  simp [conserves_iff, Splits, promptTotal, billedOutput]

theorem langchain_yields {u : Value} (h : Counted py .langchain u) :
    Yields py (normalizeLangchain py u) .langchain u := by
  have hall := counted_of h rfl
  simp only [List.forall_mem_cons] at hall
  obtain ⟨hread, hwrite, haudio, hprompt, houtput, hthinking, -⟩ := hall
  simp only [normalizeLangchain, int_bind hread, int_bind hwrite, int_bind haudio, int_bind hprompt,
    int_bind houtput, int_bind hthinking, yields_pure]
  rcases reported_cases (get u ["input_tokens"]) with ⟨hnone, hzero⟩ | hsome
  · simp [conserves_iff, Splits, promptTotal, billedOutput, hnone, hzero]
    omega
  · simp [conserves_iff, Splits, promptTotal, billedOutput, hsome]
    omega

theorem modalityCount_bind {β : Type} {details : Value} {counts : List Value}
    (hread : modalityCounts py "AUDIO" details = .ok counts) (h : ∀ v ∈ counts, IsCount v) (f : Int → Except Fault β) :
    (modalityCount py details "AUDIO" >>= f) = f (modalityTokens py "AUDIO" details) := by
  rw [modalityCount_eq hread, sumCounts_count h, modalityTokens, hread, Int.zero_add]
  rfl

theorem gemini_yields {u : Value} (h : Counted py .gemini u) : Yields py (normalizeGemini py u) .gemini u := by
  obtain ⟨counts, hread, hall⟩ := h.counts
  obtain ⟨audio, cachedAudio, haudio, hcachedAudio, rfl⟩ := countsRead_gemini.mp hread
  simp only [geminiCounts, List.forall_mem_cons, List.forall_mem_append] at hall
  obtain ⟨hprompt, hcached, hin, hout, hcandidates, hthoughts, htool, -⟩ := hall
  simp only [normalizeGemini, int_bind hprompt, int_bind hcached, int_bind hcandidates, int_bind hthoughts,
    int_bind htool, modalityCount_bind haudio hin, modalityCount_bind hcachedAudio hout, yields_pure]
  generalize hA : modalityTokens py "AUDIO" (get u ["promptTokensDetails", "prompt_tokens_details"]) = A
  generalize hC : modalityTokens py "AUDIO" (get u ["cacheTokensDetails", "cache_tokens_details"]) = C
  by_cases hnone : A = 0
  · simp [conserves_iff, Splits, promptTotal, billedOutput, hA, hC, hnone]
    omega
  · simp [conserves_iff, Splits, promptTotal, billedOutput, hA, hC, hnone]
    omega

@[simp] theorem isNull_null : Value.null.isNull = true := rfl

@[simp] theorem isNull_int (n : Int) : (Value.int n).isNull = false := rfl

theorem null_bind {β : Type} (f : Option Int → Except Fault β) : (int py .null >>= f) = f none := rfl

theorem number_bind {β : Type} (n : Int) (f : Option Int → Except Fault β) : (int py (.int n) >>= f) = f (some n) := rfl

theorem get_null (names : List String) : get .null names = .null := by
  induction names with
  | nil => rfl
  | cons name names ih => exact ih

@[simp] theorem reported_int (n : Nat) : reported (.int n) = some (n : Int) := by simp [reported, countOf]

@[simp] theorem tokens_int (n : Nat) : tokens (.int n) = n := by simp [tokens, countOf]

theorem anthropic_yields {u : Value} (h : Counted py .anthropicRaw u) :
    Yields py (normalizeAnthropic py u) .anthropicRaw u := by
  have hall := counted_of h rfl
  simp only [List.forall_mem_cons] at hall
  obtain ⟨hcreated, h5, h1, hinput, hread, houtput, hweb, -⟩ := hall
  have hsdk : spelledBySdk u = false := by
    rw [spelledBySdk, show get u ["inputTokens"] = .null from h.spelled]; exact Bool.and_false _
  simp only [normalizeAnthropic, hsdk, Bool.false_eq_true, if_false, int_bind hcreated, int_bind h5, int_bind h1,
    int_bind hinput, int_bind hread, int_bind houtput, int_bind hweb, yields_pure]
  rcases hcreated with hcreated | ⟨n, hcreated⟩
  · -- what was written is told by the breakdown, or not at all
    simp [conserves_iff, Splits, promptTotal, billedOutput, cacheWritten, hcreated]
    omega
  · by_cases hbreakdown : (get u ["cache_creation"]).isNull = true
    · simp [conserves_iff, Splits, promptTotal, billedOutput, cacheWritten, hcreated, hbreakdown]
    · simp [conserves_iff, Splits, promptTotal, billedOutput, cacheWritten, hcreated, hbreakdown]
      omega

theorem sdk_yields {u : Value} (h : Counted py .aiSdk u) : Yields py (normalizeAnthropic py u) .aiSdk u := by
  have hall := counted_of h rfl
  simp only [List.forall_mem_cons] at hall
  obtain ⟨hwrite, hnoCache, -, hread, houtput, hthinking, -⟩ := hall
  obtain ⟨hinput, hbreakdown, hserver, hraw⟩ := h.spelled
  simp only [List.forall_mem_cons] at hraw
  obtain ⟨hcreated, hrawInput, hrawRead, hrawOutput, -⟩ := hraw
  rcases hinput with hnull | ⟨n, hinput⟩
  · -- the raw spelling is read, and has nothing
    have hsdk : spelledBySdk u = false := by rw [spelledBySdk, hnull]; exact Bool.and_false _
    simp only [normalizeAnthropic, hsdk, Bool.false_eq_true, if_false, hcreated, hbreakdown, hserver, hrawInput,
      hrawRead, hrawOutput, get_null, null_bind, yields_pure]
    simp [conserves_iff, Splits, promptTotal, billedOutput, hnull]
    omega
  · have hsdk : spelledBySdk u = true := by rw [spelledBySdk, hrawInput, hinput]; rfl
    rcases hnoCache with hnoCache | ⟨m, hnoCache⟩
    · simp only [normalizeAnthropic, hsdk, if_true, hinput, hnoCache, int_bind hwrite, int_bind hread,
        int_bind houtput, int_bind hthinking, null_bind, number_bind, Option.isSome_none, Bool.false_eq_true,
        if_false, yields_pure]
      simp [conserves_iff, Splits, promptTotal, billedOutput, hinput, hnoCache]
      omega
    · simp only [normalizeAnthropic, hsdk, if_true, hnoCache, int_bind hwrite, int_bind hread, int_bind houtput,
        int_bind hthinking, number_bind, pure_bind, Option.isSome_some, yields_pure]
      simp [conserves_iff, Splits, promptTotal, billedOutput, sdkParts, hinput, hnoCache]
      omega

theorem normalizer_yields {shape : ClientShape} {u : Value} (h : Counted py shape u) :
    Yields py (normalizer py shape.spelling u) shape u := by
  cases shape with
  | anthropicRaw => exact anthropic_yields h
  | aiSdk => exact sdk_yields h
  | openai => exact openai_yields h
  | gemini => exact gemini_yields h
  | langchain => exact langchain_yields h
  | ollama => exact ollama_yields h

/-- **For every usage of counts, in each of the shapes: the row's fields are not negative, its
    billed input is the provider's prompt and its billed output the provider's, if and only
    if the parts that the shape tells apart fit into the whole.** -/
theorem conserved_iff {provider : Provider} {arg : Option Spelling} {shape : ClientShape} {u : Value}
    (hspelling : spellingOf provider arg = shape.spelling) (h : Counted py shape u) :
    (∃ t, normalize py provider u arg = .ok (some t) ∧ Conserves t (promptTotal shape u) (billedOutput shape u)) ↔
      Splits py shape u := by
  obtain ⟨t, ht, hconserves⟩ := normalizer_yields h
  have hnormalize : normalize py provider u arg = .ok (some t) := by
    rw [normalize, h.given, if_neg Bool.false_ne_true, hspelling, ht]
    rfl
  rw [← hconserves, hnormalize]
  constructor
  · intro h
    obtain ⟨t', heq, hall⟩ := h
    rwa [Option.some.inj (Except.ok.inj heq)]
  · exact fun hall => ⟨t, rfl, hall⟩

/-! ## Two usages -/

/-- Openai's usage of a prompt of which 40 tokens were cached. -/
def cachedPrompt : Value :=
  .map [("prompt_tokens", .int 100), ("prompt_tokens_details", .map [("cached_tokens", .int 40)]),
    ("completion_tokens", .int 10)]

theorem conserved_iff_cached :
    (∃ t, normalize plainPython .openai cachedPrompt none = .ok (some t) ∧
      Conserves t (promptTotal .openai cachedPrompt) (billedOutput .openai cachedPrompt)) ↔
        Splits plainPython .openai cachedPrompt :=
  conserved_iff (show spellingOf .openai none = ClientShape.openai.spelling from rfl)
    ⟨rfl, ⟨_, rfl, by
      simp only [List.forall_mem_cons]
      exact ⟨Or.inr ⟨100, rfl⟩, Or.inr ⟨40, rfl⟩, Or.inl rfl, Or.inr ⟨10, rfl⟩, Or.inl rfl, nofun⟩⟩, trivial⟩

/-- The same prompt as the AI SDK reports it, without the uncached remainder. -/
def sdkCachedPrompt : Value :=
  .map [("inputTokens", .int 100), ("inputTokenDetails", .map [("cacheReadTokens", .int 40)]), ("outputTokens", .int 10)]

/-- The 40 cached tokens are billed twice: once as read, once as uncached. -/
theorem a_cached_prompt_is_counted_twice :
    Counted plainPython .aiSdk sdkCachedPrompt ∧ promptTotal .aiSdk sdkCachedPrompt = 100 ∧
      (normalize plainPython .anthropic sdkCachedPrompt none).toOption.join.map Tokens.billedInput = some 140 ∧
      ¬ ∃ t, normalize plainPython .anthropic sdkCachedPrompt none = .ok (some t) ∧
        Conserves t (promptTotal .aiSdk sdkCachedPrompt) (billedOutput .aiSdk sdkCachedPrompt) := by
  have hcounted : Counted plainPython .aiSdk sdkCachedPrompt := by
    refine ⟨rfl, ⟨_, rfl, ?_⟩, Or.inr ⟨100, rfl⟩, rfl, rfl, ?_⟩
    · simp only [List.forall_mem_cons]
      exact ⟨Or.inl rfl, Or.inl rfl, Or.inr ⟨100, rfl⟩, Or.inr ⟨40, rfl⟩, Or.inr ⟨10, rfl⟩, Or.inl rfl, nofun⟩
    · simp only [List.forall_mem_cons]
      exact ⟨rfl, rfl, rfl, rfl, nofun⟩
  have hbilled : (normalize plainPython .anthropic sdkCachedPrompt none).toOption.join.map Tokens.billedInput = some 140 := by
    decide +kernel
  refine ⟨hcounted, by decide +kernel, hbilled, fun h => ?_⟩
  obtain ⟨t, ht, hconserves⟩ := h
  rw [ht] at hbilled
  have hsum := Option.some.inj hbilled
  rw [hconserves.input] at hsum
  exact absurd hsum (by decide +kernel)

end CoreHeartbeat.Ledger
