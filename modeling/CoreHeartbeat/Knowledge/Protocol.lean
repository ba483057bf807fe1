/-
  CoreHeartbeat.Knowledge.Protocol — the events of a turn and its citations.

  A turn makes at most MAX_ROUNDS + 1 requests; it ends with its one status event, after one
  sources event when it completes; every source carries a number that the text cites and
  describes the passage numbered so; and the numbers are 1, 2, …, each for one passage, the same
  for the rest of the turn, in whatever order the calls of a round end (`Protocol`).

  The docstring of `run` says that it never raises. It reads the library before the first round
  and the sources after the last one; both readings may raise, and nothing in `run` catches it.
  Whether they do is a condition on what the library and the answer are (`LibraryReadable`,
  `EndReadable`), stated without the functions that read them.

  The contexts of a turn rise (`Rising`): each comes after the one before, so the last one knows
  every number of the turn. The events fit the state between rounds (`InStep`).

  Proved:
  - `rising_order`: also when calls of a round end in any order.
  - `cited_runRounds`: the sources of a turn are passages that its text cites.
  - `prepare_ok_iff`: the turn gets to its rounds just when the library can be read.
  - `protocol_iff`: over every turn the protocol holds unless reading raises, at one of two
    places: a library whose documents are not dicts with text titles, before the first round;
    and at the end a citation whose number `int` refuses, or an excerpt that is no text. What is
    raised there leaves `run`, and no status follows.
  - `a_control_character_ends_the_stream`: `\s` takes a separator that `int` refuses.
-/

import CoreHeartbeat.Knowledge.Grounding

namespace CoreHeartbeat.Knowledge

open CoreHeartbeat.Graph (Json Args)
open TurnContext (Grows)

/-! ## The protocol -/

def Event.statusOf : Event → Option Status
  | .status s => some s
  | _ => none

def Event.entriesOf : Event → Option (List SourceEntry)
  | .sources entries => some entries
  | _ => none

def statuses (events : List Event) : List Status := events.filterMap Event.statusOf

def sourceLists (events : List Event) : List (List SourceEntry) := events.filterMap Event.entriesOf

/-- The events end with the one status; a completed turn has one sources event before it, another
    turn none. -/
def StatusLast (events : List Event) : Prop :=
  ∃ before s, events = before ++ [.status s] ∧ statuses before = [] ∧
    (sourceLists before).length = if s = .completed then 1 else 0

/-- The entry describes the passage that had its number in the turn. -/
def DescribesNumbered (contexts : List TurnContext) (e : SourceEntry) : Prop :=
  ∃ p, Describes e p ∧ (∃ ctx ∈ contexts, ctx.denotes e.n = some p) ∧
    ∀ ctx ∈ contexts, ∀ q, ctx.denotes e.n = some q → q = p

structure Protocol (st : Settings) (t : Transcript) : Prop where
  requests : t.requests.length ≤ (st.maxRounds + 1).toNat
  status : StatusLast t.events
  cited : ∀ entries ∈ sourceLists t.events, ∀ e ∈ entries,
    Cites st.unicode (spoken t) e.n ∧ DescribesNumbered t.contexts e
  numbered : ∀ ctx ∈ t.contexts, ctx.passages.map (·.n) = List.range' 1 ctx.passages.length ∧
    (ctx.passages.map (·.key)).Nodup
  stable : t.contexts.Pairwise fun ctx later => ∀ n p, ctx.denotes n = some p → later.denotes n = some p

/-! ## When reading raises -/

def Titled (d : Json) : Prop := ∃ fields, d = .obj fields ∧ Cuttable ((fields.lookup "title").getD .null)

/-- The documents are a list of dicts, each without a title or with a text for one. -/
def LibraryReadable (docs : Option Json) : Prop :=
  ∀ v, docs = some v → ∃ vs, v = .arr vs ∧ ∀ d ∈ vs, Titled d

def EndReadable (st : Settings) (req : KnowledgeChatRequest) (env : TurnEnv) : Prop :=
  ∀ system ctx, Opens st req env system ctx →
    (lastState st req env system ctx).phase ≠ .failed → answerOf (lastState st req env system ctx) ≠ "" →
      SourcesReadable st.unicode (answerOf (lastState st req env system ctx)) (lastState st req env system ctx).ctx

variable {st : Settings} {req : KnowledgeChatRequest}

theorem stripped_ok_iff {v : Json} : (∃ text, stripped v = .ok text) ↔ isStr v = true := by
  cases v <;> simp [stripped, isStr]

theorem orUntitled_ok_iff {v : Json} : (∃ text, orUntitled v = .ok text) ↔ Cuttable v := by
  rw [orUntitled, stripped_ok_iff, orElse, Cuttable]
  cases truthy v <;> simp [isStr]

theorem get_ok_iff {v w : Json} {key : String} :
    get v key = .ok w ↔ ∃ fields, v = .obj fields ∧ (fields.lookup key).getD .null = w := by
  cases v <;> simp [get]

/-- Iterating over a text or a dict yields texts, no dicts. -/
theorem arr_of_titled {v : Json} {vs : List Json} (htruthy : truthy v = true) (hitems : items v = .ok vs)
    (htitled : ∀ d ∈ vs, Titled d) : ∃ vs, v = .arr vs := by
  have hno : ∀ {s : String}, .str s ∉ vs := fun hs => by
    obtain ⟨fields, h, -⟩ := htitled _ hs
    cases h
  cases v with
  | arr vs => exact ⟨vs, rfl⟩
  | str s =>
    obtain rfl := Except.ok.inj hitems
    cases hs : s.toList with
    | nil =>
      rw [truthy, bne_iff_ne] at htruthy
      exact absurd (String.toList_eq_nil_iff.mp hs) htruthy
    | cons c cs => exact absurd (by rw [hs]; exact List.mem_cons_self) (hno (s := String.ofList [c]))
  | obj fields =>
    obtain rfl := Except.ok.inj hitems
    cases fields with
    | nil => cases htruthy
    | cons f fields => exact absurd List.mem_cons_self (hno (s := f.1))
  | null | bool | int | float => cases hitems

/-- What `prepare` takes for the library is a list, or not falsy. -/
theorem libraryOf_cases {env : TurnEnv} {v : Json} (h : libraryOf env = some v) : truthy v = true ∨ v = .arr [] := by
  unfold libraryOf at h
  split at h
  · rename_i docs _
    rw [Option.some.injEq, orElse] at h
    split at h
    · rename_i htruthy; exact Or.inl (h ▸ htruthy)
    · exact Or.inr h.symm
  · cases h

theorem summaryOf_ok_iff {d : Json} : (∃ entries, summaryOf d = .ok entries) ↔ Titled d := by
  unfold Titled
  constructor
  · intro ⟨entries, h⟩
    obtain ⟨title, hget, h⟩ := Fallible.bind_ok.mp h
    obtain ⟨fields, rfl, rfl⟩ := get_ok_iff.mp hget
    refine ⟨fields, rfl, fun htruthy => ?_⟩
    rw [if_pos htruthy] at h
    obtain ⟨text, htext, -⟩ := Fallible.bind_ok.mp h
    exact stripped_ok_iff.mp ⟨text, htext⟩
  · intro ⟨fields, hd, htitle⟩
    rw [hd]
    by_cases htruthy : truthy ((fields.lookup "title").getD .null) = true
    · obtain ⟨text, htext⟩ := stripped_ok_iff.mpr (htitle htruthy)
      exact ⟨[(text, orElse ((fields.lookup "summary").getD .null) (.str ""))], by simp [summaryOf, get, htruthy, htext,
        bind, Except.bind, pure, Except.pure]⟩
    · exact ⟨[], by simp [summaryOf, get, htruthy, bind, Except.bind, pure, Except.pure]⟩

theorem libraryLine_ok (st : Settings) {d : Json} (h : Titled d) : ∃ line, libraryLine st d = .ok line := by
  obtain ⟨fields, rfl, htitle⟩ := h
  obtain ⟨title, htitle⟩ := orUntitled_ok_iff.mpr htitle
  exact ⟨_, by simp only [libraryLine, get, bind, Except.bind, htitle]; rfl⟩

theorem summariesOf_ok_iff {v : Json} (hv : truthy v = true ∨ v = .arr []) :
    (∃ summaries, summariesOf (some v) = .ok summaries) ↔ ∃ vs, v = .arr vs ∧ ∀ d ∈ vs, Titled d := by
  constructor
  · intro ⟨summaries, h⟩
    obtain ⟨vs, hitems, h⟩ := Fallible.bind_ok.mp h
    obtain ⟨entries, hentries, -⟩ := Fallible.bind_ok.mp h
    have htitled : ∀ d ∈ vs, Titled d := fun d hd =>
      summaryOf_ok_iff.mp (Fallible.mapM_comesThrough.mp ⟨entries, hentries⟩ d hd)
    obtain ⟨vs', rfl⟩ : ∃ vs', v = .arr vs' := by
      rcases hv with htruthy | rfl
      · exact arr_of_titled htruthy hitems htitled
      · exact ⟨[], rfl⟩
    obtain rfl := Except.ok.inj hitems
    exact ⟨vs', rfl, htitled⟩
  · intro ⟨vs, hvs, htitled⟩
    rw [hvs]
    obtain ⟨entries, hentries⟩ := Fallible.mapM_comesThrough.mpr fun d hd => summaryOf_ok_iff.mpr (htitled d hd)
    exact ⟨entries.flatten, by simp only [summariesOf, Option.getD_some, items, hentries, bind, Except.bind]; rfl⟩

theorem libraryBlock_ok (st : Settings) {vs : List Json} (h : ∀ d ∈ vs, Titled d) :
    ∃ block, libraryBlock st (some (.arr vs)) = .ok block := by
  obtain ⟨lines, hlines⟩ := Fallible.mapM_comesThrough.mpr fun d hd =>
    libraryLine_ok st (h d (List.mem_of_mem_take (i := libraryTitles) hd))
  by_cases htruthy : truthy (.arr vs) = true
  · exact ⟨_, by simp only [libraryBlock, htruthy, lenOf, firstItems, hlines, bind, Except.bind]; rfl⟩
  · exact ⟨_, by simp only [libraryBlock, Bool.eq_false_iff.mpr htruthy]; rfl⟩

/-- The turn gets to its rounds just when the library can be read. -/
theorem prepare_ok_iff (st : Settings) (req : KnowledgeChatRequest) {env : TurnEnv} :
    (∃ opened, prepare st req env = .ok opened) ↔ LibraryReadable (libraryOf env) := by
  unfold prepare LibraryReadable
  cases hlibrary : libraryOf env with
  | none => exact iff_of_true ⟨_, rfl⟩ nofun
  | some v =>
    have hsummaries := summariesOf_ok_iff (libraryOf_cases hlibrary)
    simp only [Option.some.injEq, forall_eq', ← hsummaries]
    constructor
    · intro ⟨opened, h⟩
      obtain ⟨library, -, h⟩ := Fallible.bind_ok.mp h
      obtain ⟨summaries, h, -⟩ := Fallible.bind_ok.mp h
      exact ⟨summaries, h⟩
    · intro ⟨summaries, h⟩
      obtain ⟨vs, rfl, htitled⟩ := hsummaries.mp ⟨summaries, h⟩
      obtain ⟨block, hblock⟩ := libraryBlock_ok st htitled
      exact ⟨_, by simp only [hblock, h, bind, Except.bind]; rfl⟩

/-! ## The requests -/

theorem requests_length (st : Settings) (req : KnowledgeChatRequest) (system : String) (s : TurnState)
    (rounds : List RoundEnv) :
    ((Machine.outs (round st req system) s rounds).flatMap (·.requests)).length ≤ rounds.length := by
  induction rounds generalizing s with
  | nil => exact Nat.le_refl _
  | cons e rounds ih =>
    have hrest := ih (round st req system s e).1
    have hone : (round st req system s e).2.requests.length ≤ 1 := by
      by_cases hrunning : s.phase = .running
      · obtain ⟨s', events, contexts, heq, -⟩ := round_spec st req system e hrunning
        rw [heq]
        exact Nat.le_refl _
      · rw [round_idle e hrunning]
        exact Nat.zero_le _
    rw [Machine.outs_cons, List.flatMap_cons, List.length_append, List.length_cons]
    omega

/-! ## The events -/

@[simp] theorem statuses_append (l m : List Event) : statuses (l ++ m) = statuses l ++ statuses m :=
  List.filterMap_append ..

@[simp] theorem sourceLists_append (l m : List Event) : sourceLists (l ++ m) = sourceLists l ++ sourceLists m :=
  List.filterMap_append ..

/-- Only tokens and announced calls. -/
def Plain (events : List Event) : Prop := statuses events = [] ∧ sourceLists events = []

theorem Plain.append {l m : List Event} (h : Plain l) (h' : Plain m) : Plain (l ++ m) :=
  ⟨by rw [statuses_append, h.1, h'.1]; rfl, by rw [sourceLists_append, h.2, h'.2]; rfl⟩

theorem plain_tokens (texts : List String) : Plain (texts.map .token) := by
  induction texts with
  | nil => exact ⟨rfl, rfl⟩
  | cons text texts ih => exact ih

theorem plain_calls (calls : List FunctionCall) : Plain (calls.map fun c => .toolCall c.name c.args) := by
  induction calls with
  | nil => exact ⟨rfl, rfl⟩
  | cons c calls ih => exact ih

theorem tokens_calls (calls : List FunctionCall) : tokens (calls.map fun c => .toolCall c.name c.args) = [] := by
  induction calls with
  | nil => rfl
  | cons c calls ih => exact ih

/-- How the events and the state of a turn fit: the tokens are the answer so far, or the turn
    has failed and said so. -/
def InStep (s : TurnState) (events : List Event) : Prop :=
  (s.phase ≠ .failed ∧ Plain events ∧ tokens events = s.answerParts) ∨
    (s.phase = .failed ∧ ∃ before, events = before ++ [.status .error] ∧ Plain before)

theorem inStep_round (st : Settings) (req : KnowledgeChatRequest) (system : String) {s : TurnState}
    {events : List Event} (e : RoundEnv) (h : InStep s events) :
    InStep (round st req system s e).1 (events ++ (round st req system s e).2.events) := by
  by_cases hrunning : s.phase = .running
  · obtain ⟨-, hplain, htokens⟩ := h.resolve_right fun hfailed => by rw [hrunning] at hfailed; cases hfailed.1
    obtain ⟨s', new, contexts, heq, hout⟩ := round_spec st req system e hrunning
    rw [heq]
    have hstreamed := plain_tokens (s.streamed st e.response)
    cases hout with
    | broken | closed | cut =>
      exact Or.inl ⟨nofun, hplain.append hstreamed, by rw [tokens_append, htokens, tokens_map]⟩
    | failed =>
      refine Or.inr ⟨rfl, events ++ [.token couldNotReach], ?_, hplain.append ⟨rfl, rfl⟩⟩
      rw [List.append_assoc]; rfl
    | nudged =>
      refine Or.inl ⟨by rw [hrunning]; decide, ?_, ?_⟩
      · rwa [List.append_nil]
      · rwa [List.append_nil]
    | answered => exact Or.inl ⟨nofun, hplain.append ⟨rfl, rfl⟩, by rw [tokens_append, htokens]; rfl⟩
    | called calls ended ctx gap =>
      refine Or.inl ⟨by rw [hrunning]; decide,
        hplain.append (hstreamed.append ((plain_calls calls).append (plain_tokens gap))), ?_⟩
      rw [tokens_append, tokens_append, tokens_append, htokens, tokens_map, tokens_calls, tokens_map, List.nil_append,
        List.append_assoc]
  · rw [round_idle e hrunning]
    show InStep s (events ++ [])
    rwa [List.append_nil]

theorem inStep_run (st : Settings) (req : KnowledgeChatRequest) (system : String) (ctx : TurnContext)
    (rounds : List RoundEnv) :
    InStep (Machine.final (round st req system) (start st req ctx) rounds)
      ((Machine.outs (round st req system) (start st req ctx) rounds).flatMap (·.events)) := by
  induction rounds using List.reverseRecOn with
  | nil => exact Or.inl ⟨nofun, ⟨rfl, rfl⟩, rfl⟩
  | append_singleton rounds e ih =>
    have hround := inStep_round st req system e ih
    rw [Machine.final_snoc, Machine.outs_append, List.flatMap_append]
    simpa using hround

/-! ## The numbers -/

structure Rising (ctx : TurnContext) (contexts : List TurnContext) (last : TurnContext) : Prop where
  pairwise : (ctx :: contexts).Pairwise Grows
  below : ∀ c ∈ ctx :: contexts, Grows c last
  ends : last ∈ ctx :: contexts

theorem Rising.refl (ctx : TurnContext) : Rising ctx [] ctx :=
  ⟨List.pairwise_singleton _ _, fun c hc => by rw [List.mem_singleton.mp hc]; exact Grows.refl ctx,
    List.mem_singleton_self _⟩

theorem Rising.append {a b c : TurnContext} {l m : List TurnContext} (h : Rising a l b) (h' : Rising b m c) :
    Rising a (l ++ m) c := by
  have hm := List.pairwise_cons.mp h'.pairwise
  have hbc := h'.below b List.mem_cons_self
  refine ⟨?_, ?_, ?_⟩
  · rw [← List.cons_append, List.pairwise_append]
    exact ⟨h.pairwise, hm.2, fun x hx y hy => (h.below x hx).trans (hm.1 y hy)⟩
  · intro x hx
    rw [← List.cons_append, List.mem_append] at hx
    rcases hx with hx | hx
    · exact (h.below x hx).trans hbc
    · exact h'.below x (List.mem_cons_of_mem _ hx)
  · rw [← List.cons_append, List.mem_append]
    rcases List.mem_cons.mp h'.ends with hc | hc
    · rw [hc]; exact Or.inl h.ends
    · exact Or.inr hc

theorem rising_endCall (kb : Nat → Kb) (calls : List FunctionCall) (ctx : TurnContext) (i : Nat) :
    Rising ctx ((endCall st kb calls ctx i).2.map (·.ctx)) (endCall st kb calls ctx i).1 := by
  unfold endCall
  cases calls[i]? with
  | none => exact Rising.refl ctx
  | some c =>
    have hgrows := runTool_grows st (kb i) ctx (c.name.getD "") c.args
    refine ⟨List.pairwise_pair.mpr hgrows, fun d hd => ?_, List.mem_cons_of_mem _ (List.mem_singleton_self _)⟩
    rcases List.mem_cons.mp hd with rfl | hd
    · exact hgrows
    · rw [List.mem_singleton.mp hd]; exact Grows.refl _

/-- Calls that end in any order. -/
theorem rising_order (kb : Nat → Kb) (calls : List FunctionCall) (ctx : TurnContext) (order : List Nat) :
    Rising ctx ((Machine.outs (endCall st kb calls) ctx order).flatten.map (·.ctx))
      (Machine.final (endCall st kb calls) ctx order) := by
  induction order generalizing ctx with
  | nil => exact Rising.refl ctx
  | cons i order ih =>
    rw [Machine.outs_cons, List.flatten_cons, List.map_append]
    exact (rising_endCall kb calls ctx i).append (ih _)

theorem rising_round (st : Settings) (req : KnowledgeChatRequest) (system : String) (s : TurnState) (e : RoundEnv) :
    Rising s.ctx (round st req system s e).2.contexts (round st req system s e).1.ctx := by
  by_cases hrunning : s.phase = .running
  · obtain ⟨s', events, contexts, heq, hout⟩ := round_spec st req system e hrunning
    rw [heq]
    cases hout with
    | broken | failed | nudged | answered | closed | cut => exact Rising.refl s.ctx
    | called calls ended ctx gap _ _ _ _ hcalls _ =>
      obtain ⟨rfl, rfl⟩ := Prod.mk.inj hcalls
      exact rising_order e.kb calls s.ctx _
  · rw [round_idle e hrunning]
    exact Rising.refl s.ctx

theorem rising_run (st : Settings) (req : KnowledgeChatRequest) (system : String) (s : TurnState)
    (rounds : List RoundEnv) :
    Rising s.ctx ((Machine.outs (round st req system) s rounds).flatMap (·.contexts))
      (Machine.final (round st req system) s rounds).ctx := by
  induction rounds generalizing s with
  | nil => exact Rising.refl s.ctx
  | cons e rounds ih =>
    rw [Machine.outs_cons, List.flatMap_cons]
    exact (rising_round st req system s e).append (ih _)

/-- A passage of the last context is the one its number denotes all along. -/
theorem Rising.numbered {ctx last : TurnContext} {contexts : List TurnContext} (h : Rising ctx contexts last)
    {e : SourceEntry} {p : Passage} (hp : p ∈ last.passages) (hdescribes : Describes e p) :
    DescribesNumbered (ctx :: contexts) e := by
  have hlast : last.denotes e.n = some p := TurnContext.denotes_eq_some_iff.mpr ⟨hp, hdescribes.1.symm⟩
  refine ⟨p, hdescribes, ⟨last, h.ends, hlast⟩, fun c hc q hq => ?_⟩
  exact Option.some.inj (((h.below c hc).denotes hq).symm.trans hlast)

/-! ## Whole turns -/

theorem not_statusLast_of_plain {events : List Event} (h : Plain events) : ¬ StatusLast events := by
  rintro ⟨before, s, rfl, -, -⟩
  have := h.1
  rw [statuses_append] at this
  exact absurd (List.append_eq_nil_iff.mp this).2 (List.cons_ne_nil _ _)

/-- The end of a turn that did not fail, after its events. -/
theorem finish_cases (st : Settings) (s : TurnState) :
    (answerOf s = "" ∧ finish st s = ([.token noAnswer, .sources [], .status .completed], none)) ∨
      (answerOf s ≠ "" ∧ (∃ entries, citedSources st.unicode (answerOf s) s.ctx = .ok entries ∧
        finish st s = ([.sources entries, .status .completed], none))) ∨
      (answerOf s ≠ "" ∧ ∃ fault, citedSources st.unicode (answerOf s) s.ctx = .error fault ∧
        finish st s = ([], some fault)) := by
  unfold finish
  by_cases hanswer : answerOf s = ""
  · rw [if_pos hanswer]; exact Or.inl ⟨hanswer, rfl⟩
  · rw [if_neg hanswer]
    cases hcited : citedSources st.unicode (answerOf s) s.ctx with
    | ok entries => exact Or.inr (Or.inl ⟨hanswer, entries, rfl, rfl⟩)
    | error fault => exact Or.inr (Or.inr ⟨hanswer, fault, rfl, rfl⟩)

theorem statusLast_runRounds_iff {env : TurnEnv} {system : String} {ctx : TurnContext} :
    StatusLast (runRounds st req env system ctx).events ↔
      ((lastState st req env system ctx).phase ≠ .failed → answerOf (lastState st req env system ctx) ≠ "" →
        SourcesReadable st.unicode (answerOf (lastState st req env system ctx)) (lastState st req env system ctx).ctx) := by
  have hstep := inStep_run st req system ctx (roundsOf st env)
  simp only [runRounds]
  rw [← lastState] at hstep
  generalize lastState st req env system ctx = s at hstep ⊢
  generalize (Machine.outs (round st req system) (start st req ctx) (roundsOf st env)).flatMap (·.events) = events
    at hstep ⊢
  rw [← citedSources_ok_iff]
  rcases hstep with ⟨hphase, hplain, htokens⟩ | ⟨hfailed, before, hevents, hplain⟩
  · rw [if_neg hphase]
    rcases finish_cases st s with ⟨hanswer, hfinish⟩ | ⟨hanswer, entries, hcited, hfinish⟩ |
      ⟨hanswer, fault, hcited, hfinish⟩
    · rw [hfinish]
      refine iff_of_true ⟨events ++ [.token noAnswer, .sources []], .completed, by simp, ?_, ?_⟩
        fun _ h => absurd hanswer h
      · rw [statuses_append, hplain.1]; rfl
      · rw [sourceLists_append, hplain.2]; rfl
    · rw [hfinish]
      refine iff_of_true ⟨events ++ [.sources entries], .completed, by simp, ?_, ?_⟩ fun _ _ => ⟨entries, hcited⟩
      · rw [statuses_append, hplain.1]; rfl
      · rw [sourceLists_append, hplain.2]; rfl
    · rw [hfinish, List.append_nil]
      refine iff_of_false (not_statusLast_of_plain hplain) fun h => ?_
      obtain ⟨entries, h⟩ := h hphase hanswer
      rw [hcited] at h; cases h
  · rw [if_pos hfailed, List.append_nil, hevents]
    exact iff_of_true ⟨before, .error, rfl, hplain.1, by rw [hplain.2]; rfl⟩ fun h => absurd hfailed h

/-- The sources of a turn are passages that its text cites. -/
theorem cited_runRounds {env : TurnEnv} {system : String} {ctx : TurnContext} :
    ∀ entries ∈ sourceLists (runRounds st req env system ctx).events, ∀ e ∈ entries,
      Cites st.unicode (spoken (runRounds st req env system ctx)) e.n ∧
        DescribesNumbered (runRounds st req env system ctx).contexts e := by
  have hstep := inStep_run st req system ctx (roundsOf st env)
  have hrising := rising_run st req system (start st req ctx) (roundsOf st env)
  simp only [runRounds, spoken]
  rw [← lastState] at hstep hrising
  generalize lastState st req env system ctx = s at hstep hrising ⊢
  rcases hstep with ⟨hphase, hplain, htokens⟩ | ⟨hfailed, before, hevents, hplain⟩
  · rw [if_neg hphase]
    rcases finish_cases st s with ⟨-, hfinish⟩ | ⟨-, entries, hcited, hfinish⟩ | ⟨-, fault, -, hfinish⟩
    · rw [hfinish, sourceLists_append, hplain.2]
      intro entries hentries e he
      rw [List.mem_singleton.mp hentries] at he
      cases he
    · rw [hfinish, sourceLists_append, hplain.2, tokens_append, htokens]
      intro entries' hentries e he
      rw [List.mem_singleton.mp hentries] at he
      obtain ⟨hcites, p, hp, hdescribes⟩ := citedSources_sound hcited e he
      refine ⟨?_, hrising.numbered hp hdescribes⟩
      have : s.answerParts ++ tokens [.sources entries, .status .completed] = s.answerParts := List.append_nil _
      rw [this]
      exact hcites.of_strip
    · rw [hfinish, List.append_nil, hplain.2]
      intro entries hentries; cases hentries
  · rw [if_pos hfailed, List.append_nil, hevents, sourceLists_append, hplain.2]
    intro entries hentries; cases hentries

theorem protocol_runRounds_iff {env : TurnEnv} {system : String} {ctx : TurnContext} :
    Protocol st (runRounds st req env system ctx) ↔
      ((lastState st req env system ctx).phase ≠ .failed → answerOf (lastState st req env system ctx) ≠ "" →
        SourcesReadable st.unicode (answerOf (lastState st req env system ctx)) (lastState st req env system ctx).ctx) := by
  rw [← statusLast_runRounds_iff]
  refine ⟨fun h => h.status, fun hstatus => ⟨?_, hstatus, cited_runRounds, fun c _ => ⟨c.numbered, c.distinct⟩, ?_⟩⟩
  · have := requests_length st req system (start st req ctx) (roundsOf st env)
    simpa [runRounds, roundsOf] using this
  · have hrising := rising_run st req system (start st req ctx) (roundsOf st env)
    refine hrising.pairwise.imp ?_
    intro c later hgrows n p hp
    exact hgrows.denotes hp

/-- Over every turn: the events keep to the protocol and the citations are sound if and only if the
    library, when there is a model, and the sources of the answer can be read. -/
theorem protocol_iff (st : Settings) (req : KnowledgeChatRequest) (env : TurnEnv) :
    Protocol st (run st req env) ↔
      (env.client = true → LibraryReadable (libraryOf env)) ∧ EndReadable st req env := by
  rw [← prepare_ok_iff st req]
  rcases run_cases st req env with ⟨hclient, hrun⟩ | ⟨hclient, fault, hprepare, hrun⟩ | ⟨system, ctx, hopens, hrun⟩
  · rw [hrun]
    have hstatus : StatusLast [.token notConfigured, .status .error] := ⟨[.token notConfigured], .error, rfl, rfl, rfl⟩
    refine iff_of_true
      ⟨Nat.zero_le _, hstatus, fun _ h => absurd h List.not_mem_nil, fun _ h => absurd h List.not_mem_nil,
        List.Pairwise.nil⟩ ⟨fun h => ?_, fun system ctx hopens => ?_⟩
    · rw [hclient] at h; cases h
    · rw [hopens.1] at hclient; cases hclient
  · rw [hrun]
    refine iff_of_false (fun h => not_statusLast_of_plain ⟨rfl, rfl⟩ h.status) fun h => ?_
    obtain ⟨opened, h⟩ := h.1 hclient
    rw [hprepare] at h; cases h
  · rw [hrun, protocol_runRounds_iff]
    constructor
    · intro h
      refine ⟨fun _ => ⟨_, hopens.2⟩, fun system' ctx' hopens' => ?_⟩
      obtain ⟨rfl, rfl⟩ := hopens.unique hopens'
      exact h
    · intro h; exact h.2 system ctx hopens

/-! ## A control character in a citation -/

/-- `\d` and `\s` take what `int` refuses: the answer is out, and no status follows. -/
theorem a_control_character_ends_the_stream :
    tokens (run (plainSettings 4) question (streaming [[listCall], [.fromText "Spreads widened [1,\x1c2]."]])).events =
        ["Spreads widened [1,\x1c2]."] ∧
      (run (plainSettings 4) question (streaming [[listCall], [.fromText "Spreads widened [1,\x1c2]."]])).raised =
        some "ValueError" ∧
      ¬ Protocol (plainSettings 4)
        (run (plainSettings 4) question (streaming [[listCall], [.fromText "Spreads widened [1,\x1c2]."]])) := by
  have hstatuses : statuses (run (plainSettings 4) question
      (streaming [[listCall], [.fromText "Spreads widened [1,\x1c2]."]])).events = [] := by decide +kernel
  refine ⟨by decide +kernel, by decide +kernel, fun h => ?_⟩
  obtain ⟨before, s, hevents, -, -⟩ := h.status
  rw [hevents, statuses_append] at hstatuses
  exact absurd (List.append_eq_nil_iff.mp hstatuses).2 (List.cons_ne_nil _ _)

end CoreHeartbeat.Knowledge
