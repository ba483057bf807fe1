/-
  CoreHeartbeat.Knowledge.Grounding — what a turn without retrieval says.

  Until a tool has run, the text of a round is held back, and an answer from memory
  (`_ungrounded`: it cites, or is a long answer to a follow-up) is discarded: the next round
  must call a tool. The provider honours the mode it is asked for (`Honours`): no call where
  tools are off, a call where one is forced. The comment over the loop says that such an answer
  must never reach the user.

  What the reader gets is the text that the turn emits (`spoken`), whatever the rounds held
  back. The rounds may stream anything within their mode, break off anywhere, and there may be
  any number of them.

  Proved:
  - `held_round`, `open_round`: what a round makes of a text, held back or not.
  - `grounded_after_nudge`: after the first answer was discarded, the last round speaks freely
    and any other is forced to call a tool.
  - `grounded_iff`: over every turn that runs no tool, what the reader gets is one of the
    module's notices or not from memory, except in two kinds of turns. With MAX_ROUNDS = 1 the
    round after a discarded answer has no tools and is not held back
    (`the_last_round_speaks_from_memory`). And an answer that is only whitespace is emitted
    before the notice that there is no answer.
  - `grounded_iff_thanks`: a reply to thanks is not from memory.
-/

import CoreHeartbeat.Knowledge.Conversation

namespace CoreHeartbeat.Knowledge

def notices : List String := [notConfigured, couldNotReach, noAnswer]

/-- What the reader gets is a notice, or not from memory. -/
def Grounded (st : Settings) (req : KnowledgeChatRequest) (t : Transcript) : Prop :=
  spoken t ∈ notices ∨ ungrounded st (spoken t) req = false

def NoToolRun (t : Transcript) : Prop := ∀ name args, .toolCall name args ∉ t.events

/-- The provider's answer honours the mode: no call without tools, a call where one is forced. -/
structure Honours (mode : Mode) (r : Response) : Prop where
  withoutTools : mode = .none → r.calls = []
  forced : mode = .any → r.failure = none → r.calls ≠ []

def HonoursModes (st : Settings) (req : KnowledgeChatRequest) (env : TurnEnv) : Prop :=
  ∀ system ctx, Opens st req env system ctx →
    Machine.Meets (round st req system) (fun s e => s.phase = .running → Honours (s.mode st) e.response)
      (start st req ctx) (roundsOf st env)

/-- What the model writes in a round, counted from 0. -/
def draft (env : TurnEnv) (i : Nat) : String := String.join (env.rounds i).response.texts

def Toolless (env : TurnEnv) (i : Nat) : Prop :=
  (env.rounds i).response.failure = none ∧ (env.rounds i).response.calls = []

/-- A text that would be from memory at the end of a turn. -/
def FromMemory (st : Settings) (req : KnowledgeChatRequest) (text : String) : Prop :=
  (strip text ≠ "" ∧ ungrounded st text req = true ∧ text ∉ notices) ∨
    (text ≠ "" ∧ strip text = "" ∧ req.history ≠ [])

def RoundsSlip (st : Settings) (req : KnowledgeChatRequest) (env : TurnEnv) : Prop :=
  Toolless env 0 ∧
    ((ungrounded st (draft env 0) req = true ∧ st.maxRounds = 1 ∧ FromMemory st req (draft env 1)) ∨
      (ungrounded st (draft env 0) req = false ∧ draft env 0 ≠ "" ∧ strip (draft env 0) = "" ∧ req.history ≠ []))

def SlipsThrough (st : Settings) (req : KnowledgeChatRequest) (env : TurnEnv) : Prop :=
  (∃ system ctx, Opens st req env system ctx) ∧ RoundsSlip st req env

/-! ## The text at the end of a turn -/

variable {st : Settings} {req : KnowledgeChatRequest}

theorem strip_eq_empty_iff {text : String} : strip text = "" ↔ ∀ c ∈ text.toList, PyText.isSpace c = true := by
  rw [strip, ← PyText.strip_eq_nil_iff]
  constructor
  · intro h
    have := congrArg String.toList h
    rwa [String.toList_ofList] at this
  · intro h; rw [h]

theorem citations_of_no_bracket {text : List Char} (h : '[' ∉ text) : citations st.unicode text = [] := by
  refine List.eq_nil_iff_forall_not_mem.mpr fun body hbody => ?_
  obtain ⟨before, post, rfl, -⟩ := mem_citations_iff.mp hbody
  exact h (List.mem_append_right _ List.mem_cons_self)

def closing (text : String) : String := text ++ if strip text = "" then noAnswer else ""

theorem length_noAnswer : noAnswer.length = 87 := by decide

theorem noBracket_noAnswer : '[' ∉ noAnswer.toList := by decide

theorem length_notice : ∀ notice ∈ notices, notice.length ≤ 87 := by decide

theorem closing_grounded_iff (text : String) :
    (closing text ∈ notices ∨ ungrounded st (closing text) req = false) ↔ ¬ FromMemory st req text := by
  unfold closing FromMemory
  by_cases hblank : strip text = ""
  · simp only [hblank, if_true, ne_eq, not_true_eq_false, false_and, false_or, true_and, not_and, not_not]
    by_cases hempty : text = ""
    · refine iff_of_true (Or.inl ?_) fun h => absurd hempty h
      rw [hempty, String.empty_append]
      exact List.mem_cons_of_mem _ (List.mem_cons_of_mem _ List.mem_cons_self)
    · -- the notice after whitespace: no citation, and longer than any notice
      have hlength : 0 < text.length := Nat.pos_of_ne_zero fun h => hempty (String.length_eq_zero_iff.mp h)
      have hlong : 88 ≤ (text ++ noAnswer).length := by rw [String.length_append, length_noAnswer]; omega
      have hnotice : text ++ noAnswer ∉ notices := by
        intro h
        have hshort := length_notice _ h
        omega
      have hcites : citations st.unicode (text ++ noAnswer).toList = [] := by
        refine citations_of_no_bracket ?_
        rw [String.toList_append, List.mem_append, not_or]
        exact ⟨fun h => absurd (strip_eq_empty_iff.mp hblank _ h) (by decide), noBracket_noAnswer⟩
      have hungrounded : ungrounded st (text ++ noAnswer) req = !req.history.isEmpty := by
        have hspeaks : memoryAnswerChars < (text ++ noAnswer).length := by rw [memoryAnswerChars]; omega
        rw [ungrounded, hcites, decide_eq_true hspeaks]
        simp
      rw [hungrounded]
      simp [hnotice, hempty]
  · simp only [hblank, if_false, String.append_empty, ne_eq, not_false_eq_true, true_and, false_and, and_false,
      or_false, not_and, not_not]
    cases ungrounded st text req <;> simp

/-- What the reader has when the turn left the loop after its first rounds. -/
theorem spoken_of_left {env : TurnEnv} {system : String} {ctx : TurnContext} {l m : List RoundEnv} {s : TurnState}
    (hrounds : roundsOf st env = l ++ m) (hs : Machine.final (round st req system) (start st req ctx) l = s)
    (hleft : s.phase ≠ .running) {said : List String}
    (hsaid : tokens ((Machine.outs (round st req system) (start st req ctx) l).flatMap (·.events)) = said) :
    spoken (runRounds st req env system ctx) =
      String.join said ++ if s.phase = .failed ∨ answerOf s ≠ "" then "" else noAnswer := by
  rw [spoken, events_of_left hrounds hs hleft, tokens_append, String.join_append, hsaid]
  congr 1
  by_cases hfailed : s.phase = .failed
  · simp [hfailed]
  · rw [if_neg hfailed, tokens_finish]
    by_cases hanswer : answerOf s = "" <;> simp [hfailed, hanswer]

/-- A turn that ended, having said its answer. -/
theorem spoken_of_ended {env : TurnEnv} {system : String} {ctx : TurnContext} {l m : List RoundEnv} {s : TurnState}
    (hrounds : roundsOf st env = l ++ m) (hs : Machine.final (round st req system) (start st req ctx) l = s)
    (hended : s.phase = .ended)
    (hsaid : tokens ((Machine.outs (round st req system) (start st req ctx) l).flatMap (·.events)) = s.answerParts) :
    spoken (runRounds st req env system ctx) = closing (String.join s.answerParts) := by
  rw [spoken_of_left hrounds hs (by rw [hended]; decide) hsaid, closing, answerOf, hended]
  by_cases hanswer : strip (String.join s.answerParts) = "" <;> simp [hanswer]

/-! ## The rounds of a turn without tools -/

theorem roundsOf_eq (env : TurnEnv) (h : 1 ≤ st.maxRounds) :
    ∃ rest, roundsOf st env = env.rounds 0 :: env.rounds 1 :: rest := by
  obtain ⟨k, hk⟩ : ∃ k, (st.maxRounds + 1).toNat = k + 2 := ⟨(st.maxRounds - 1).toNat, by omega⟩
  exact ⟨_, by rw [roundsOf, hk, List.range_succ_eq_map, List.range_succ_eq_map]; rfl⟩

/-- The calls of a round are announced. -/
theorem toolCall_of_called {calls : List FunctionCall} (h : calls ≠ []) (before after : List Event) :
    ∃ name args, Event.toolCall name args ∈
      before ++ ((calls.take maxCallsPerRound).map (fun c => .toolCall c.name c.args) ++ after) := by
  cases calls with
  | nil => exact absurd rfl h
  | cons c calls =>
    exact ⟨c.name, c.args, List.mem_append_right _ (List.mem_append_left _ List.mem_cons_self)⟩

def nudged (s : TurnState) (text : String) : TurnState :=
  { s with
    roundNo := s.roundNo + 1
    contents := s.contents ++ [⟨.model, [.fromText text]⟩, ⟨.user, [.fromText groundNudge]⟩]
    forceTools := true }

/-- A round that holds the text back: the model fails, calls a tool, answers from memory, or
    its text is the answer. -/
theorem held_round (st : Settings) (req : KnowledgeChatRequest) (system : String) {s : TurnState}
    (e : RoundEnv) (hrunning : s.phase = .running) (hbuffering : s.buffering st = true)
    (hnothing : s.answerParts = []) :
    ((round st req system s e).1.phase = .failed ∧
        tokens (round st req system s e).2.events = [couldNotReach] ∧ e.response.failure.isSome) ∨
      (e.response.calls ≠ [] ∧ ∃ name args, .toolCall name args ∈ (round st req system s e).2.events) ∨
      (e.response.failure = none ∧ e.response.calls = [] ∧
        ((s.forceTools = false ∧ ungrounded st (String.join e.response.texts) req = true ∧
            (round st req system s e).1 = nudged s (String.join e.response.texts) ∧
            (round st req system s e).2.events = []) ∨
          ((s.forceTools = true ∨ ungrounded st (String.join e.response.texts) req = false) ∧
            (round st req system s e).1.phase = .ended ∧
            String.join (round st req system s e).1.answerParts = String.join e.response.texts ∧
            tokens (round st req system s e).2.events = (round st req system s e).1.answerParts))) := by
  obtain ⟨s', events, contexts, heq, hout⟩ := round_spec st req system e hrunning
  have hstreamed := streamed_of_buffering (r := e.response) hbuffering
  rw [heq]
  cases hout with
  | broken _ hparts => rw [hnothing, hstreamed] at hparts; exact absurd rfl hparts
  | failed hfail _ _ => exact Or.inl ⟨rfl, rfl, hfail⟩
  | nudged hnone hcalls _ hforce hmemory =>
    exact Or.inr (Or.inr ⟨hnone, hcalls, Or.inl ⟨hforce, hmemory, rfl, rfl⟩⟩)
  | answered hnone hcalls _ hgrounded _ =>
    refine Or.inr (Or.inr ⟨hnone, hcalls, Or.inr ⟨hgrounded, rfl, ?_, ?_⟩⟩)
    · rw [hnothing, List.nil_append, String.join_cons, String.join_nil, String.append_empty]
    · rw [hnothing]; rfl
  | closed hnone hcalls hempty =>
    refine Or.inr (Or.inr ⟨hnone, hcalls, Or.inr ⟨Or.inr ?_, rfl, ?_, ?_⟩⟩)
    · rw [hempty hbuffering]; exact ungrounded_empty
    · rw [hnothing, hstreamed, hempty hbuffering]; rfl
    · rw [hnothing, hstreamed]; rfl
  | cut _ _ henabled =>
    rw [TurnState.buffering, henabled, Bool.and_false] at hbuffering
    cases hbuffering
  | called calls ended ctx gap _ hcalls _ htake _ _ =>
    rw [htake]
    exact Or.inr (Or.inl ⟨hcalls, toolCall_of_called hcalls _ _⟩)

/-- A round without tools, in which the model calls none: its text is emitted as it comes. -/
theorem open_round (st : Settings) (req : KnowledgeChatRequest) (system : String) {s : TurnState}
    (e : RoundEnv) (hrunning : s.phase = .running) (henabled : s.toolsEnabled st = false)
    (hnothing : s.answerParts = []) (hcalls : e.response.calls = []) :
    ((round st req system s e).1.phase = .failed ∧ e.response.texts = [] ∧
        tokens (round st req system s e).2.events = [couldNotReach]) ∨
      ((round st req system s e).1.phase = .ended ∧ (round st req system s e).1.answerParts = e.response.texts ∧
        tokens (round st req system s e).2.events = e.response.texts) := by
  obtain ⟨s', events, contexts, heq, hout⟩ := round_spec st req system e hrunning
  have hbuffering : s.buffering st = false := by rw [TurnState.buffering, henabled, Bool.and_false]
  have hstreamed : s.streamed st e.response = e.response.texts := by rw [TurnState.streamed, hbuffering]; rfl
  rw [heq]
  cases hout with
  | broken | closed | cut =>
    rw [hnothing, hstreamed]
    exact Or.inr ⟨rfl, rfl, tokens_map _⟩
  | failed _ _ hsilent => exact Or.inl ⟨rfl, hstreamed.symm.trans hsilent, rfl⟩
  | nudged _ _ h _ _ | answered _ _ h _ _ => rw [hbuffering] at h; cases h
  | called _ _ _ _ _ hsome _ _ _ _ => exact absurd hcalls hsome

/-! ## Whole turns -/

theorem mem_events_of_round {env : TurnEnv} {system : String} {ctx : TurnContext} {l m : List RoundEnv} {e : RoundEnv}
    (hrounds : roundsOf st env = l ++ e :: m) {ev : Event}
    (hev : ev ∈ (round st req system (Machine.final (round st req system) (start st req ctx) l) e).2.events) :
    ev ∈ (runRounds st req env system ctx).events := by
  simp only [runRounds, hrounds, Machine.outs_append, Machine.outs_cons, List.flatMap_append, List.flatMap_cons]
  exact List.mem_append_left _ (List.mem_append_right _ (List.mem_append_left _ hev))

/-- A failed turn says so. -/
theorem grounded_of_failed {env : TurnEnv} {system : String} {ctx : TurnContext} {l m : List RoundEnv} {s : TurnState}
    (hrounds : roundsOf st env = l ++ m) (hs : Machine.final (round st req system) (start st req ctx) l = s)
    (hfailed : s.phase = .failed)
    (hsaid : tokens ((Machine.outs (round st req system) (start st req ctx) l).flatMap (·.events)) = [couldNotReach]) :
    Grounded st req (runRounds st req env system ctx) := by
  rw [Grounded, spoken_of_left hrounds hs (by rw [hfailed]; decide) hsaid, if_pos (Or.inl hfailed)]
  exact Or.inl (by decide)

/-- After the first answer was discarded: the last round speaks freely, another one is forced to
    call a tool. -/
theorem grounded_after_nudge {env : TurnEnv} {system : String} {ctx : TurnContext} {rest : List RoundEnv}
    {s : TurnState} {text : String} (hR : 1 ≤ st.maxRounds)
    (hrounds : roundsOf st env = env.rounds 0 :: env.rounds 1 :: rest)
    (hs : nudged (start st req ctx) text = s)
    (hfirst : (round st req system (start st req ctx) (env.rounds 0)).1 = s)
    (hsilent : (round st req system (start st req ctx) (env.rounds 0)).2.events = [])
    (hhonours : Honours (s.mode st) (env.rounds 1).response) (hnone : NoToolRun (runRounds st req env system ctx)) :
    Grounded st req (runRounds st req env system ctx) ↔ ¬ (st.maxRounds = 1 ∧ FromMemory st req (draft env 1)) := by
  have hrunning : s.phase = .running := by rw [← hs]; rfl
  have hnothing : s.answerParts = [] := by rw [← hs]; rfl
  have hfinal : Machine.final (round st req system) (start st req ctx) [env.rounds 0, env.rounds 1] =
      (round st req system s (env.rounds 1)).1 := by
    rw [Machine.final_cons, hfirst]; rfl
  have hsaid : ∀ said, tokens (round st req system s (env.rounds 1)).2.events = said →
      tokens ((Machine.outs (round st req system) (start st req ctx) [env.rounds 0, env.rounds 1]).flatMap (·.events)) =
        said := by
    intro said h
    simp [hsilent, hfirst, h]
  by_cases hlast : st.maxRounds = 1
  · have henabled : s.toolsEnabled st = false := by
      rw [← hs, TurnState.toolsEnabled, hlast]; rfl
    have hcalls := hhonours.withoutTools (by rw [TurnState.mode, henabled]; rfl)
    rw [and_iff_right hlast]
    rcases open_round st req system (env.rounds 1) hrunning henabled hnothing hcalls with
      ⟨hfailed, htexts, hround⟩ | ⟨hended, hanswer, hround⟩
    · refine iff_of_true
        (grounded_of_failed (l := [env.rounds 0, env.rounds 1]) hrounds hfinal hfailed (hsaid _ hround)) ?_
      unfold FromMemory draft
      rw [htexts]
      rintro (⟨hblank, -⟩ | ⟨hempty, -⟩)
      · exact hblank rfl
      · exact hempty rfl
    · rw [Grounded, spoken_of_ended (l := [env.rounds 0, env.rounds 1]) hrounds hfinal hended
        (by rw [hsaid _ hround, hanswer]), hanswer]
      exact closing_grounded_iff _
  · have henabled : s.toolsEnabled st = true := by
      rw [← hs, TurnState.toolsEnabled, decide_eq_true_eq]
      show ((1 + 1 : Nat) : Int) ≤ st.maxRounds
      omega
    have hbuffering : s.buffering st = true := by rw [TurnState.buffering, henabled, ← hs]; rfl
    have hforced : s.mode st = .any := by rw [TurnState.mode, henabled, ← hs]; rfl
    refine iff_of_true ?_ fun hslips => hlast hslips.1
    rcases held_round st req system (env.rounds 1) hrunning hbuffering hnothing with
      ⟨hfailed, hround, -⟩ | ⟨-, name, args, hcall⟩ | ⟨hcompletes, hcalls, -⟩
    · exact grounded_of_failed (l := [env.rounds 0, env.rounds 1]) hrounds hfinal hfailed (hsaid _ hround)
    · rw [← hfirst] at hcall
      exact absurd (mem_events_of_round (l := [env.rounds 0]) hrounds hcall) (hnone name args)
    · exact absurd hcalls (hhonours.forced hforced hcompletes)

theorem grounded_rounds_iff {env : TurnEnv} {system : String} {ctx : TurnContext} (hR : 1 ≤ st.maxRounds)
    (hhonours : Machine.Meets (round st req system) (fun s e => s.phase = .running → Honours (s.mode st) e.response)
      (start st req ctx) (roundsOf st env))
    (hnone : NoToolRun (runRounds st req env system ctx)) :
    Grounded st req (runRounds st req env system ctx) ↔ ¬ RoundsSlip st req env := by
  obtain ⟨rest, hrounds⟩ := roundsOf_eq env hR
  have hbuffering : (start st req ctx).buffering st = true := by
    simp only [TurnState.buffering, TurnState.toolsEnabled, start, Bool.not_false, Bool.true_and]
    exact decide_eq_true hR
  rcases held_round st req system (env.rounds 0) (rfl : (start st req ctx).phase = .running) hbuffering rfl with
    ⟨hfailed, hsaid, hfailure⟩ | ⟨-, name, args, hcall⟩ |
    ⟨hcompletes, hcalls, ⟨-, hmemory, hfirst, hsilent⟩ | ⟨hgrounded, hended, hanswer, hsaid⟩⟩
  · refine iff_of_true (grounded_of_failed (l := [env.rounds 0]) hrounds rfl hfailed ?_) fun hslips => ?_
    · simpa using hsaid
    · rw [hslips.1.1] at hfailure; cases hfailure
  · exact absurd (mem_events_of_round (l := []) hrounds hcall) (hnone name args)
  · -- the first answer is discarded
    have hslips : RoundsSlip st req env ↔ st.maxRounds = 1 ∧ FromMemory st req (draft env 1) := by
      unfold RoundsSlip Toolless draft
      simp [hcompletes, hcalls, hmemory]
    rw [hrounds, Machine.meets_cons, Machine.meets_cons, hfirst] at hhonours
    rw [hslips]
    exact grounded_after_nudge hR hrounds rfl hfirst hsilent (hhonours.2.1 rfl) hnone
  · -- the first text is the answer
    have hkept : ungrounded st (draft env 0) req = false := hgrounded.resolve_left (by simp [start])
    have hfinal : String.join (Machine.final (round st req system) (start st req ctx) [env.rounds 0]).answerParts =
        draft env 0 := hanswer
    rw [Grounded, spoken_of_ended (l := [env.rounds 0]) hrounds rfl hended (by simpa using hsaid), hfinal,
      closing_grounded_iff]
    unfold RoundsSlip FromMemory Toolless
    simp [hcompletes, hcalls, hkept]

/-- Over every turn that runs no tool, with at least one round of tools and a provider that
    honours the modes: what the reader gets is a notice or not from memory, unless the turn
    slips through. -/
theorem grounded_iff (st : Settings) (req : KnowledgeChatRequest) (env : TurnEnv) (hR : 1 ≤ st.maxRounds)
    (hhonours : HonoursModes st req env) (hnone : NoToolRun (run st req env)) :
    Grounded st req (run st req env) ↔ ¬ SlipsThrough st req env := by
  rcases run_cases st req env with ⟨hclient, hrun⟩ | ⟨-, fault, hprepare, hrun⟩ | ⟨system, ctx, hopens, hrun⟩
  · rw [hrun]
    refine iff_of_true (Or.inl (by decide)) fun ⟨⟨system, ctx, hopens⟩, _⟩ => ?_
    rw [hopens.1] at hclient; cases hclient
  · rw [hrun]
    refine iff_of_true (Or.inr ungrounded_empty) fun ⟨⟨system, ctx, hopens⟩, _⟩ => ?_
    rw [hopens.2] at hprepare; cases hprepare
  · rw [hrun] at hnone ⊢
    rw [grounded_rounds_iff hR (hhonours system ctx hopens) hnone, SlipsThrough, and_iff_right ⟨system, ctx, hopens⟩]

/-! ## Two turns -/

instance (mode : Mode) (r : Response) : Decidable (Honours mode r) :=
  decidable_of_iff ((mode = .none → r.calls = []) ∧ (mode = .any → r.failure = none → r.calls ≠ []))
    ⟨fun h => ⟨h.1, h.2⟩, fun h => ⟨h.1, h.2⟩⟩

def Event.isCall : Event → Bool
  | .toolCall _ _ => true
  | _ => false

theorem noToolRun_of_all {t : Transcript} (h : t.events.all (fun ev => !ev.isCall) = true) : NoToolRun t := by
  intro name args hmem
  simpa [Event.isCall] using List.all_eq_true.mp h _ hmem

theorem opens_streaming (st : Settings) (req : KnowledgeChatRequest) (rounds : List (List Part)) :
    Opens st req (streaming rounds)
      ("The knowledge base is EMPTY — there are no documents to answer from.\n" ++ discussedBlock st req) (.empty []) :=
  ⟨rfl, rfl⟩

def thanks : KnowledgeChatRequest where
  text := "Thanks!"
  history := [⟨.user, "What do my reports say about CMBS?", []⟩, ⟨.assistant, "Spreads widened [1].", []⟩]

/-- A reply to thanks is not from memory. -/
theorem grounded_iff_thanks :
    ¬ SlipsThrough (plainSettings 4) thanks (streaming [[.fromText "You're welcome."]]) := by
  refine (grounded_iff (plainSettings 4) thanks (streaming [[.fromText "You're welcome."]]) (by decide) ?_
    (noToolRun_of_all (by decide +kernel))).mp (Or.inr (by decide +kernel))
  intro system ctx hopens
  obtain ⟨rfl, rfl⟩ := (opens_streaming _ _ _).unique hopens
  unfold Machine.Meets
  decide +kernel

/-- With one round of tools, the discarded answer comes back in the round without. -/
theorem the_last_round_speaks_from_memory :
    HonoursModes (plainSettings 1) question (streaming (List.replicate 2 [.fromText "CMBS spreads widened [1]."])) ∧
      NoToolRun (run (plainSettings 1) question (streaming (List.replicate 2 [.fromText "CMBS spreads widened [1]."]))) ∧
      spoken (run (plainSettings 1) question (streaming (List.replicate 2 [.fromText "CMBS spreads widened [1]."]))) =
        "CMBS spreads widened [1]." ∧
      ¬ Grounded (plainSettings 1) question
        (run (plainSettings 1) question (streaming (List.replicate 2 [.fromText "CMBS spreads widened [1]."]))) := by
  have hspoken : spoken (run (plainSettings 1) question
      (streaming (List.replicate 2 [.fromText "CMBS spreads widened [1]."]))) = "CMBS spreads widened [1]." := by
    decide +kernel
  refine ⟨fun system ctx hopens => ?_, noToolRun_of_all (by decide +kernel), hspoken, ?_⟩
  · obtain ⟨rfl, rfl⟩ := (opens_streaming _ _ _).unique hopens
    unfold Machine.Meets
    decide +kernel
  · rw [Grounded, hspoken]
    rintro (hnotice | hgrounded)
    · exact absurd hnotice (by decide)
    · exact absurd hgrounded (by decide +kernel)

end CoreHeartbeat.Knowledge
