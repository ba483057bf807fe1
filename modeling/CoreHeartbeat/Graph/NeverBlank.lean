/-
  CoreHeartbeat.Graph.NeverBlank — whether a turn that composes sends the client a text
  (`astream_run` over `local_llm`).

  Every token that a generator hands on is a text, and so are the canned reply and the failure
  notice. Blank is only the reply of a model whose stream ends as it should and had no text in
  it, which neither generator counts as a failure: the local model may answer with response
  fields that are empty, and the cloud model with a chunk that carries nothing but usage. The
  comment in `astream_run` says that a completed run never reaches the client with an empty
  body, and the fallback there, which sends the recorded message, skips one that is blank.

  The models are those of `Compose`, chunk by chunk, and a run is the streamed one. A condition
  on steps is judged by the one composition of the run (`Streaming.Judges`): `Speaks` says of
  the step that composes that the model whose answer is taken is not silent, and says nothing of
  any other step.

  Proved:
  - `generateLocal_blank_iff`: which local answers are blank.
  - `never_blank_iff`: over every run that does not raise, a turn in which `local_llm` executes
    sends a token with a text before its status, in exactly the runs where the model that
    composes is not silent.
  - `a_silent_model_sends_nothing`: the turn completes, and the client has nothing to read.
-/

import CoreHeartbeat.Graph.Streaming

namespace CoreHeartbeat.Graph

variable {σ : Type}

/-- The stream was answered and ends as it should, with response fields but no text. -/
def OllamaStream.EndsSilent (stream : OllamaStream) : Prop :=
  (∃ status, stream.opened = .ok status ∧ status / 100 = 2) ∧ stream.breaks = none ∧
    (∃ line ∈ stream.lines, line.sawResponse = true) ∧ stream.heard = []

/-- Where `local_llm` composes, the model that it takes the answer of is not silent: the local
    one (by configuration, or after the cloud model failed), or the cloud model. -/
def Speaks (st : Settings) (c : Conf σ) (e : ModelEnv σ) : Prop :=
  c.place = .at .localLlm → c.st.cannedReply.filter (· ≠ "") = none →
    ((st.localCompose = true ∨ ∃ client, e.client = .ok client ∧ cloudFails client e.cloud = true) →
      c.st.documentImages = [] → ¬ e.ollama.EndsSilent) ∧
    (st.localCompose = false → ∀ client, e.client = .ok client → cloudFails client e.cloud = false →
      e.cloud.pieces ≠ [])

/-- A token with a text comes before the terminal status. -/
def SendsText (sent : List ClientEvent) : Prop :=
  ∃ before status, sent = before ++ [.status status] ∧ ∃ text ∈ tokens before, text ≠ ""

/-! ## What a generator says -/

theorem heard_texts (stream : OllamaStream) : ∀ part ∈ stream.heard, part ≠ "" := by
  intro part hpart
  simpa using (List.mem_filter.mp hpart).2

theorem pieces_texts (stream : CloudStream) : ∀ piece ∈ stream.pieces, piece ≠ "" := by
  intro piece hpiece
  obtain ⟨chunk, -, htext⟩ := List.mem_filterMap.mp hpiece
  simpa using (Option.filter_eq_some_iff.mp htext).2

theorem notice_ne_empty (category : String) : "local inference failure: " ++ category ≠ "" := by
  intro h
  have hlen := congrArg String.length h
  simp at hlen

/-- The local model's answer is blank exactly where its stream ends without a text: any other
    end is a notice. -/
theorem generateLocal_blank_iff (s : GraphState) (stream : OllamaStream) {parts : List String}
    {result : Except WorkerFailure String} {usage : TokenUsage} (h : generateLocal s stream = (parts, result, usage)) :
    (∀ part ∈ parts, part ≠ "") ∧ ((parts = [] ∧ spoken result = "") ↔ s.documentImages = [] ∧ stream.EndsSilent) := by
  have hnotice : ∀ failure : WorkerFailure, spoken (.error failure) ≠ "" := fun failure => notice_ne_empty _
  rcases generateLocal_cases s stream with ⟨himages, hgen⟩ | ⟨-, hanswered, failure, hgen⟩ | ⟨himages, hanswered, hend⟩
  · obtain ⟨rfl, rfl, -⟩ : [] = parts ∧ .ok noVision = result ∧ _ = usage := by simpa [hgen] using h
    exact ⟨by simp, iff_of_false (fun hblank => absurd hblank.2 (by decide)) fun hsilent => himages hsilent.1⟩
  · obtain ⟨rfl, rfl, -⟩ : [] = parts ∧ .error failure = result ∧ _ = usage := by simpa [hgen] using h
    exact ⟨by simp, iff_of_false (fun hblank => hnotice _ hblank.2) fun hsilent => hanswered hsilent.2.1⟩
  rcases hend with ⟨failure, hbreaks, hgen⟩ | ⟨-, hsaw, failure, hgen⟩ | ⟨hbreaks, hsaw, usage', -, hgen⟩
  · obtain ⟨rfl, rfl, -⟩ : stream.heard = parts ∧ .error failure = result ∧ _ = usage := by simpa [hgen] using h
    refine ⟨heard_texts stream, iff_of_false (fun hblank => hnotice _ hblank.2) fun hsilent => ?_⟩
    have hends : stream.breaks = none := hsilent.2.2.1
    rw [hbreaks] at hends
    cases hends
  · obtain ⟨rfl, rfl, -⟩ : [] = parts ∧ .error failure = result ∧ _ = usage := by simpa [hgen] using h
    refine ⟨by simp, iff_of_false (fun hblank => hnotice _ hblank.2) fun hsilent => ?_⟩
    have hany := List.any_eq_true.mpr hsilent.2.2.2.1
    rw [hsaw] at hany
    cases hany
  · obtain ⟨rfl, rfl, -⟩ : stream.heard = parts ∧ .ok (String.join stream.heard) = result ∧ usage'.getD {} = usage := by
      simpa [hgen] using h
    refine ⟨heard_texts stream, ?_⟩
    constructor
    · intro hblank
      exact ⟨himages, hanswered, hbreaks, List.any_eq_true.mp hsaw, hblank.1⟩
    · intro hsilent
      have hnone : stream.heard = [] := hsilent.2.2.2.2
      rw [hnone]
      exact ⟨rfl, rfl⟩

/-! ## What the client is sent -/

/-- Of tokens that are all texts, none is sent when there is none and the reply is blank. -/
theorem sentFor_text_iff {st : Settings} {c : Conf σ} {e : ModelEnv σ} (text : String)
    (h : ∀ part ∈ emitted st e c.st, part ≠ "") :
    (∃ part ∈ sentFor st c e text, part ≠ "") ↔ ¬ (emitted st e c.st = [] ∧ text = "") := by
  unfold sentFor
  cases hemitted : emitted st e c.st with
  | nil => by_cases htext : text = "" <;> simp [htext]
  | cons part parts =>
    rw [if_neg (List.cons_ne_nil _ _)]
    exact iff_of_true ⟨part, List.mem_cons_self, h part (hemitted ▸ List.mem_cons_self)⟩ fun h => by cases h.1

/-- What `local_llm` hands to `_emit` are texts, and with the reply blank exactly where the
    model that composes is silent. -/
theorem localLlm_speaks (st : Settings) (c : Conf σ) (e : ModelEnv σ) (hp : c.place = .at .localLlm) :
    (∃ fault, localLlm st (e.seen c.st) c.st = .error fault ∧ Speaks st c e) ∨
      ∃ text usage, localLlm st (e.seen c.st) c.st = .ok (replied c.st text usage) ∧
        (∀ part ∈ emitted st e c.st, part ≠ "") ∧ (¬ (emitted st e c.st = [] ∧ text = "") ↔ Speaks st c e) := by
  unfold Speaks
  rcases localLlm_cases st e c.st with ⟨canned, hcanned, hemitted, hnode⟩ |
    ⟨hcanned, ⟨hlc, fault, hclient, -, hnode⟩ | ⟨hlc, client, usage, hclient, hworks, hemitted, hnode⟩ |
      ⟨hasked, parts, result, reported, usage, hgen, hemitted, hnode⟩⟩
  · have hne : canned ≠ "" := by simpa using (Option.filter_eq_some_iff.mp hcanned).2
    refine Or.inr ⟨canned, {}, hnode, ?_⟩
    rw [hemitted, hcanned]
    exact ⟨by simpa using hne, iff_of_true (fun h => by cases h.1) fun _ h => by cases h⟩
  · refine Or.inl ⟨fault, hnode, fun _ _ => ?_⟩
    simp [hlc, hclient]
  · refine Or.inr ⟨_, usage, hnode, ?_⟩
    rw [hemitted]
    refine ⟨pieces_texts e.cloud, ?_⟩
    have hjoin : e.cloud.pieces = [] ∧ String.join e.cloud.pieces = "" ↔ e.cloud.pieces = [] :=
      and_iff_left_of_imp fun h => by rw [h]; rfl
    rw [hjoin]
    constructor
    · intro hne _ _
      exact ⟨fun hasked => absurd hasked (not_asked_of_works hlc hclient hworks), fun _ _ _ _ => hne⟩
    · intro hspeaks
      exact (hspeaks hp hcanned).2 hlc client hclient hworks
  · obtain ⟨hparts, hblank⟩ := generateLocal_blank_iff c.st e.ollama hgen
    refine Or.inr ⟨_, usage, hnode, ?_⟩
    rw [hemitted]
    refine ⟨hparts, ?_⟩
    have hcloud : st.localCompose = false → ∀ client, e.client = .ok client → cloudFails client e.cloud = false →
        e.cloud.pieces ≠ [] :=
      fun hlc _ hclient hworks => absurd hasked (not_asked_of_works hlc hclient hworks)
    rw [hblank, not_and]
    simp only [hp, hcanned, hasked, forall_const]
    exact (and_iff_left hcloud).symm

/-- A text is sent for the composition of a model that speaks. -/
theorem judges_text (st : Settings) :
    Judges st (fun sent _ => ∃ text ∈ sent, text ≠ "") (Speaks st : Conf σ → ModelEnv σ → Prop) := by
  refine judges_of_reply (fun _ _ hp h => absurd h hp) fun c e hp => ?_
  rcases localLlm_speaks st c e hp with hfault | ⟨text, usage, hnode, htexts, hspeaks⟩
  · exact Or.inl hfault
  · refine Or.inr ⟨text, usage, hnode, ?_⟩
    rw [sentFor_text_iff text htexts, hspeaks]

/-- A turn that does not raise ends with its status, after its tokens. -/
theorem sendsText_iff {st : Settings} {c : Conf σ} {envs : List (ModelEnv σ)}
    (h : ∀ fault, (Machine.final (modelStep st) c envs).place ≠ .raised fault) :
    SendsText (astreamRun st c envs) ↔ ∃ text ∈ sentTokens st c envs, text ≠ "" := by
  obtain ⟨status, hrun⟩ : ∃ status, astreamRun st c envs =
      (Machine.outs watch {} (Machine.outs (streamStep st) c envs).flatten).flatten ++ [.status status] := by
    unfold astreamRun
    rw [streamRun_final]
    cases hplace : (Machine.final (modelStep st) c envs).place with
    | raised fault => exact absurd hplace (h fault)
    | finished => exact ⟨_, rfl⟩
    | «at» n => exact ⟨_, rfl⟩
  unfold SendsText
  constructor
  · intro hsends
    obtain ⟨before, status', hsplit, htext⟩ := hsends
    rw [hrun] at hsplit
    obtain ⟨rfl, -⟩ := List.append_inj' hsplit rfl
    exact htext
  · intro htext
    exact ⟨_, status, hrun, htext⟩

/-- Over every run that does not raise: if `local_llm` executes, a token with a text is sent
    before the status, if and only if the model that composes, where one does, is not silent. -/
theorem never_blank_iff (st : Settings) (t : Turn) (db : σ) (envs : List (ModelEnv σ))
    (h : ∀ fault, (Machine.final (modelStep st) (start t db) envs).place ≠ .raised fault) :
    (.localLlm ∈ (Machine.final (modelStep st) (start t db) envs).st.visited →
        SendsText (astreamRun st (start t db) envs)) ↔
      Machine.Meets (modelStep st) (Speaks st) (start t db) envs := by
  rw [sendsText_iff h]
  rcases told_run (judges_text st) t db envs with ⟨hnot, -, -, hspeaks⟩ | ⟨hvisited, m, -, hspeaks⟩
  · exact iff_of_true (fun hvisited => absurd hvisited hnot) hspeaks
  · rw [← hspeaks]
    exact forall_prop_of_true hvisited

/-- A turn that the cloud model answers. -/
theorem never_blank_iff_answered :
    .localLlm ∈ (Machine.final (modelStep cloudSettings) (start calendarQuestion emptyDb)
        (List.replicate 3 (answering "Two games."))).st.visited ∧
      SendsText (astreamRun cloudSettings (start calendarQuestion emptyDb) (List.replicate 3 (answering "Two games."))) := by
  have hplace : (Machine.final (modelStep cloudSettings) (start calendarQuestion emptyDb)
      (List.replicate 3 (answering "Two games."))).place = .finished := by decide +kernel
  have hvisited : .localLlm ∈ (Machine.final (modelStep cloudSettings) (start calendarQuestion emptyDb)
      (List.replicate 3 (answering "Two games."))).st.visited := by decide +kernel
  refine ⟨hvisited, (never_blank_iff cloudSettings calendarQuestion emptyDb _ fun fault h => ?_).mpr ?_ hvisited⟩
  · rw [hplace] at h
    cases h
  · refine Machine.meets_of_ops _ fun e he c _ _ => ?_
    obtain rfl := List.eq_of_mem_replicate he
    exact ⟨fun hlocal => by simp [cloudSettings, answering, cloudFails] at hlocal, fun _ _ _ _ => by decide⟩

/-- A step whose cloud model ends its stream without a word. -/
def wordless : ModelEnv (Plans.Key → Plans.Slot (List Call)) :=
  { answering "" with cloud := ⟨[{ usage := some ⟨12, 0, 12⟩ }], none⟩ }

/-- The turn completes, and the client has been sent nothing to read. -/
theorem a_silent_model_sends_nothing :
    (Machine.final (modelStep cloudSettings) (start calendarQuestion emptyDb) (List.replicate 3 wordless)).place =
        .finished ∧
      .localLlm ∈ (Machine.final (modelStep cloudSettings) (start calendarQuestion emptyDb)
        (List.replicate 3 wordless)).st.visited ∧
      ¬ SendsText (astreamRun cloudSettings (start calendarQuestion emptyDb) (List.replicate 3 wordless)) := by
  have hplace : (Machine.final (modelStep cloudSettings) (start calendarQuestion emptyDb)
      (List.replicate 3 wordless)).place = .finished := by decide +kernel
  have hnothing : sentTokens cloudSettings (start calendarQuestion emptyDb) (List.replicate 3 wordless) = [] := by
    decide +kernel
  have hended : ∀ fault, (Machine.final (modelStep cloudSettings) (start calendarQuestion emptyDb)
      (List.replicate 3 wordless)).place ≠ .raised fault := by
    rw [hplace]
    rintro fault ⟨⟩
  refine ⟨hplace, by decide +kernel, ?_⟩
  rw [sendsText_iff hended, hnothing]
  rintro ⟨text, htext, -⟩
  cases htext

end CoreHeartbeat.Graph
