/-
  CoreHeartbeat.Knowledge.Conversation — the requests of a turn as tool conversations.

  A conversation is well formed when its roles alternate from `user` to `user` and every model
  content with calls is followed by their responses, one for each, in order and under the same
  names (`WellFormed`). The API refuses any other.

  The history of the request may contain anything, and so may what the model streams: parts with
  texts, with calls, with calls without a name, in any number of candidates. A round appends the
  model's content and, when it called tools, one content with the results; the next round sends
  the whole again. So a request is a state of the turn, and a turn keeps well formed what it has
  (`Ready`) round by round.

  Proved:
  - `wellFormed_question`: the history and the question are a conversation.
  - `cut_names_iff`: what is echoed back has its responses just when the calls were not cut.
  - `requests_wellFormed_iff`: every request of a turn is well formed in exactly the turns whose
    model never makes more than MAX_CALLS_PER_ROUND calls in a round that it completes with
    tools.
  - `seven_calls_six_responses`: what is echoed back is not cut where the calls are, and the
    next request has seven calls and six responses.
-/

import CoreHeartbeat.Knowledge.Turn
import Mathlib.Data.List.Chain

namespace CoreHeartbeat.Knowledge

/-! ## Well-formed conversations -/

/-- The names of the calls, as the responses carry them. -/
def Content.callNames (c : Content) : List String := c.calls.map fun call => call.name.getD ""

def Content.responseNames (c : Content) : List String := c.responses.map (·.1)

/-- The content after a content: the other role, and the responses to a model's calls. -/
structure Follows (c d : Content) : Prop where
  other : c.role ≠ d.role
  responses : c.role = .model → c.calls ≠ [] → d.responseNames = c.callNames

structure WellFormed (contents : List Content) : Prop where
  starts : contents.head?.map (·.role) = some .user
  ends : contents.getLast?.map (·.role) = some .user
  follows : contents.IsChain Follows

/-- Every model content with calls has its responses. -/
theorem WellFormed.answered (before : List Content) {after : List Content} {c : Content}
    (h : WellFormed (before ++ c :: after)) (hmodel : c.role = .model) (hcalls : c.calls ≠ []) :
    ∃ d rest, after = d :: rest ∧ d.role = .user ∧ d.responseNames = c.callNames := by
  cases after with
  | nil =>
    have hends := h.ends
    rw [List.getLast?_concat, Option.map_some, Option.some.injEq, hmodel] at hends
    cases hends
  | cons d rest =>
    have hfollows := (List.isChain_append_cons_cons.mp h.follows).2.1
    refine ⟨d, rest, rfl, ?_, hfollows.responses hmodel hcalls⟩
    cases hd : d.role with
    | user => rfl
    | model => exact absurd (hmodel.trans hd.symm) hfollows.other

/-- A model content and a user content at the end. -/
theorem wellFormed_append {contents : List Content} (h : WellFormed contents) {m d : Content} (hm : m.role = .model)
    (hd : d.role = .user) :
    WellFormed (contents ++ [m, d]) ↔ (m.calls ≠ [] → d.responseNames = m.callNames) := by
  obtain ⟨last, hlast, hrole⟩ : ∃ last, contents.getLast? = some last ∧ last.role = .user := by
    simpa [Option.map_eq_some_iff] using h.ends
  constructor
  · intro hnew hcalls
    obtain ⟨d', rest, hrest, -, hnames⟩ := hnew.answered contents hm hcalls
    obtain ⟨rfl, -⟩ := List.cons.inj hrest
    exact hnames
  · intro hresponses
    refine ⟨?_, ?_, ?_⟩
    · rw [List.head?_append]
      cases hhead : contents.head? with
      | none => rw [List.head?_eq_none_iff.mp hhead] at hlast; cases hlast
      | some c => have := h.starts; rw [hhead] at this; exact this
    · rw [List.getLast?_append]
      simp [hd]
    · rw [List.isChain_append]
      refine ⟨h.follows, List.isChain_pair.mpr ⟨by rw [hm, hd]; decide, fun _ => hresponses⟩, fun c hc d' hd' => ?_⟩
      rw [hlast] at hc
      obtain rfl := Option.some.inj hc
      obtain rfl := Option.some.inj hd'
      exact ⟨by rw [hrole, hm]; decide, fun hmodel => absurd (hrole.symm.trans hmodel) (by decide)⟩

/-! ## The history -/

def Alternates (roles : List Role) : Prop := roles.IsChain (· ≠ ·)

theorem say_roles (turns : List (Role × String)) (role : Role) (text : String) :
    (say turns role text).map (·.1) =
      if (turns.map (·.1)).getLast? = some role then turns.map (·.1) else turns.map (·.1) ++ [role] := by
  unfold say
  rw [List.getLast?_map]
  cases hlast : turns.getLast? with
  | none =>
    rw [List.getLast?_eq_none_iff.mp hlast]
    rfl
  | some t =>
    obtain ⟨r, said⟩ := t
    have hturns := List.dropLast_append_getLast? _ hlast
    simp only [Option.map_some, Option.some.injEq]
    split
    · rw [List.map_append, ← List.map_append, ← hturns]
      simp
    · rw [List.map_append]; rfl

theorem alternates_say {turns : List (Role × String)} (h : Alternates (turns.map (·.1))) (role : Role) (text : String) :
    Alternates ((say turns role text).map (·.1)) := by
  rw [say_roles]
  split
  · exact h
  · rename_i hlast
    refine List.isChain_append.mpr ⟨h, List.isChain_singleton role, fun r hr r' hr' => ?_⟩
    obtain rfl := Option.some.inj hr'
    rintro rfl
    exact hlast hr

theorem alternates_history (turns : List (Role × String)) (history : List KnowledgeTurn)
    (h : Alternates (turns.map (·.1))) : Alternates ((history.foldl addTurn turns).map (·.1)) := by
  induction history generalizing turns with
  | nil => exact h
  | cons t history ih =>
    refine ih (addTurn turns t) ?_
    unfold addTurn
    split
    · exact h
    · exact alternates_say h _ _

/-- The turns that a question of the user ends, as contents. -/
theorem wellFormed_question {turns : List (Role × String)} (halternates : Alternates (turns.map (·.1)))
    (hstarts : ∀ r ∈ (turns.map (·.1)).head?, r = .user) (text : String) :
    WellFormed ((say turns .user text).map fun t => ⟨t.1, [.fromText t.2]⟩) := by
  have hroles := say_roles turns .user text
  have hmap : ((say turns .user text).map fun t => (⟨t.1, [.fromText t.2]⟩ : Content)).map (·.role) =
      (say turns .user text).map (·.1) := by
    rw [List.map_map]; rfl
  refine ⟨?_, ?_, ?_⟩
  · rw [← List.head?_map, hmap, hroles]
    cases hturns : turns.map (·.1) with
    | nil => rfl
    | cons r rest =>
      have hr := hstarts r (by rw [hturns]; rfl)
      split <;> simp [hr]
  · rw [← List.getLast?_map, hmap, hroles]
    split
    · assumption
    · simp
  · have hsaid : ((say turns .user text).map (·.1)).IsChain (· ≠ ·) := alternates_say halternates .user text
    rw [List.isChain_map] at hsaid ⊢
    exact hsaid.imp fun t t' hne => ⟨hne, fun _ hcalls => absurd rfl hcalls⟩

theorem wellFormed_history (st : Settings) (req : KnowledgeChatRequest) : WellFormed (historyContents st req) := by
  have halternates := alternates_history [] (lastOf st.historyTurns req.history) List.isChain_nil
  refine wellFormed_question ?_ ?_ _
  · exact halternates.suffix ((List.dropWhile_suffix _).map _)
  · intro r hr
    have := List.head?_dropWhile_not (fun t : Role × String => decide (t.1 ≠ .user))
      ((lastOf st.historyTurns req.history).foldl addTurn [])
    rw [List.head?_map, Option.mem_map] at hr
    obtain ⟨t, ht, rfl⟩ := hr
    rw [Option.mem_def.mp ht] at this
    simpa using this

/-! ## The rounds -/

section Rounds

variable {st : Settings} {req : KnowledgeChatRequest}

/-- A round with tools that the model completes stays below the cap. -/
def WithinCap (st : Settings) (s : TurnState) (e : RoundEnv) : Prop :=
  s.phase = .running → s.toolsEnabled st = true → e.response.failure = none →
    e.response.calls.length ≤ maxCallsPerRound

theorem responseNames_of_results (calls : List FunctionCall) (results : List String)
    (h : results.length = calls.length) :
    Content.responseNames ⟨.user, (calls.zip results).map fun c => .fromFunctionResponse (c.1.name.getD "") c.2⟩ =
      calls.map fun call => call.name.getD "" := by
  unfold Content.responseNames Content.responses
  rw [List.filterMap_map]
  show ((calls.zip results).filterMap fun c => some (c.1.name.getD "", c.2)).map (·.1) = _
  rw [List.filterMap_eq_map', List.map_map]
  show (calls.zip results).map ((fun call => call.name.getD "") ∘ Prod.fst) = _
  rw [← List.map_map, List.map_fst_zip (by omega)]

/-- What is echoed back has its responses just when the calls were not cut. -/
theorem cut_names_iff (calls : List FunctionCall) :
    (calls.take maxCallsPerRound).map (fun call => call.name.getD "") = calls.map (fun call => call.name.getD "") ↔
      calls.length ≤ maxCallsPerRound := by
  constructor
  · intro h
    have := congrArg List.length h
    simp only [List.length_map, List.length_take] at this
    omega
  · intro h
    rw [List.take_of_length_le h]

def Ready (s : TurnState) : Prop := s.phase = .running → WellFormed s.contents

theorem ready_round {system : String} {s : TurnState} (e : RoundEnv) (h : Ready s) :
    Ready (round st req system s e).1 ↔ WithinCap st s e := by
  by_cases hrunning : s.phase = .running
  · have hready := h hrunning
    obtain ⟨s', events, contexts, heq, hout⟩ := round_spec st req system e hrunning
    rw [heq]
    cases hout with
    | broken hfail _ | failed hfail _ _ =>
      refine iff_of_true nofun fun _ _ hnone => ?_
      rw [hnone] at hfail; cases hfail
    | answered _ hcalls _ _ _ | closed _ hcalls _ =>
      exact iff_of_true nofun fun _ _ _ => by rw [hcalls]; exact Nat.zero_le _
    | nudged _ hcalls _ _ _ =>
      refine iff_of_true (fun _ => ?_) fun _ _ _ => by rw [hcalls]; exact Nat.zero_le _
      exact (wellFormed_append hready rfl rfl).mpr fun hnone => absurd rfl hnone
    | cut _ _ henabled =>
      refine iff_of_true nofun fun _ htools => ?_
      rw [henabled] at htools; cases htools
    | called calls ended ctx gap hnone hcalls henabled htake _ _ =>
      have hnames := responseNames_of_results calls (resultsOf ended calls.length) (by simp [resultsOf])
      have hstep : WellFormed (s.contents ++ [⟨.model, e.response.parts⟩, ⟨.user,
          (calls.zip (resultsOf ended calls.length)).map fun c => .fromFunctionResponse (c.1.name.getD "") c.2⟩]) ↔
          e.response.calls.length ≤ maxCallsPerRound := by
        rw [wellFormed_append hready rfl rfl, hnames, htake, ← cut_names_iff e.response.calls]
        exact ⟨fun h => h hcalls, fun h _ => h⟩
      constructor
      · intro hafter _ _ _; exact hstep.mp (hafter hrunning)
      · intro hcap _; exact hstep.mpr (hcap hrunning henabled hnone)
  · rw [round_idle e hrunning]
    exact iff_of_true h fun hr => absurd hr hrunning

/-- The requests of a run: one from every running state that a round meets. -/
theorem mem_requests {system : String} {s : TurnState} {rounds : List RoundEnv} {r : ModelRequest} :
    r ∈ (Machine.outs (round st req system) s rounds).flatMap (·.requests) ↔
      ∃ l e m, rounds = l ++ e :: m ∧ (Machine.final (round st req system) s l).phase = .running ∧
        r = ⟨system, (Machine.final (round st req system) s l).contents,
          (Machine.final (round st req system) s l).mode st⟩ := by
  simp only [Machine.outs, List.mem_flatMap, List.mem_map, exists_exists_and_eq_and, Machine.mem_trace]
  constructor
  · rintro ⟨ev, ⟨l, m, hrounds, hpre, hout⟩, hr⟩
    by_cases hrunning : (Machine.final (round st req system) s l).phase = .running
    · obtain ⟨s', events, contexts, heq, -⟩ := round_spec st req system ev.op hrunning
      rw [hout, heq] at hr
      exact ⟨l, ev.op, m, hrounds, hrunning, List.mem_singleton.mp hr⟩
    · rw [hout, round_idle ev.op hrunning] at hr
      cases hr
  · rintro ⟨l, e, m, hrounds, hrunning, hr⟩
    obtain ⟨s', events, contexts, heq, -⟩ := round_spec st req system e hrunning
    refine ⟨⟨Machine.final (round st req system) s l, e,
        (round st req system (Machine.final (round st req system) s l) e).2⟩,
      ⟨l, m, hrounds, rfl, rfl⟩, ?_⟩
    rw [heq, hr]
    exact List.mem_singleton_self _

/-- The requests are well formed just when the turn is ready after every number of rounds. -/
theorem requests_ready_iff {env : TurnEnv} {system : String} {ctx : TurnContext} :
    (∀ r ∈ (runRounds st req env system ctx).requests, WellFormed r.contents) ↔
      ∀ l m, roundsOf st env = l ++ m → Ready (Machine.final (round st req system) (start st req ctx) l) := by
  constructor
  · intro h l m hrounds hrunning
    cases m with
    | nil =>
      -- no request follows the last round: it leaves the loop, unless there is none
      rw [List.append_nil] at hrounds
      by_cases hnone : 0 ≤ st.maxRounds
      · exact absurd (hrounds ▸ hrunning) (loop_left hnone)
      · have hnil : l = [] := by
          rw [← hrounds, roundsOf, show (st.maxRounds + 1).toNat = 0 by omega]
          rfl
        rw [hnil]
        exact wellFormed_history st req
    | cons e m => exact h _ (mem_requests.mpr ⟨l, e, m, hrounds, hrunning, rfl⟩)
  · intro h r hr
    obtain ⟨l, e, m, hrounds, hrunning, rfl⟩ := mem_requests.mp hr
    exact h l (e :: m) hrounds hrunning

end Rounds

/-- Over every turn: every request is a well-formed tool conversation if and only if the model
    makes at most MAX_CALLS_PER_ROUND calls in each round with tools that it completes. -/
theorem requests_wellFormed_iff (st : Settings) (req : KnowledgeChatRequest) (env : TurnEnv) :
    (∀ r ∈ (run st req env).requests, WellFormed r.contents) ↔
      ∀ system ctx, Opens st req env system ctx →
        Machine.Meets (round st req system) (WithinCap st) (start st req ctx) (roundsOf st env) := by
  rcases run_cases st req env with ⟨hclient, hrun⟩ | ⟨-, fault, hprepare, hrun⟩ | ⟨system, ctx, hopens, hrun⟩
  · rw [hrun]
    refine iff_of_true (fun r hr => by cases hr) fun system ctx hopens => ?_
    rw [hopens.1] at hclient; cases hclient
  · rw [hrun]
    refine iff_of_true (fun r hr => by cases hr) fun system ctx hopens => ?_
    rw [hopens.2] at hprepare; cases hprepare
  · have hmeets : (∀ l m, roundsOf st env = l ++ m → Ready (Machine.final (round st req system) (start st req ctx) l)) ↔
        Machine.Meets (round st req system) (WithinCap st) (start st req ctx) (roundsOf st env) :=
      Machine.always_iff_meets (I := fun _ => True) (fun _ _ _ => trivial) (fun s e _ h => ready_round e h) trivial
        (fun _ => wellFormed_history st req) _
    rw [hrun, requests_ready_iff, hmeets]
    constructor
    · intro h system' ctx' hopens'
      obtain ⟨rfl, rfl⟩ := hopens.unique hopens'
      exact h
    · intro h; exact h system ctx hopens

/-! ## Seven calls -/

/-- ASCII texts, and the default settings but for the rounds. -/
def plainSettings (maxRounds : Int) : Settings where
  maxRounds := maxRounds
  belowMinScore
    | .int n => .ok (n < 0)
    | _ => .ok false
  repr
    | .null => "None"
    | .bool b => if b then "True" else "False"
    | .int n => toString n
    | .float r => r
    | .str s => "'" ++ s ++ "'"
    | _ => "…"
  unicode := .ascii

def emptyLibrary : Graph.Json := .obj [("documents", .arr [])]

def emptyKb : Kb where
  search _ _ _ _ := .ok (.obj [("chunks", .arr [])])
  searchRank := id
  readDocument _ _ _ := .error (.notFound (.obj []))
  listDocuments := .ok emptyLibrary

/-- A turn over an empty library in which the model streams these parts. -/
def streaming (rounds : List (List Part)) : TurnEnv where
  listDocuments := .ok emptyLibrary
  frame library discussed := library ++ discussed
  rounds i := { response := ⟨[[rounds.getD i []]], none⟩, kb := fun _ => emptyKb }

def question : KnowledgeChatRequest := { text := "What do my reports say about CMBS?" }

def listCall : Part := { functionCall := some ⟨some "list_documents", []⟩ }

def shape (c : Content) : Role × Nat × Nat := (c.role, c.calls.length, c.responses.length)

theorem seven_calls_six_responses :
    (run (plainSettings 1) question (streaming [List.replicate 7 listCall])).requests.map (·.contents.map shape) =
        [[(.user, 0, 0)], [(.user, 0, 0), (.model, 7, 0), (.user, 0, 6)]] ∧
      ¬ ∀ r ∈ (run (plainSettings 1) question (streaming [List.replicate 7 listCall])).requests,
        WellFormed r.contents := by
  have hshapes : (run (plainSettings 1) question (streaming [List.replicate 7 listCall])).requests.map
      (·.contents.map shape) = [[(.user, 0, 0)], [(.user, 0, 0), (.model, 7, 0), (.user, 0, 6)]] := by decide +kernel
  refine ⟨hshapes, fun h => ?_⟩
  obtain ⟨r, hr, hshape⟩ : ∃ r ∈ (run (plainSettings 1) question (streaming [List.replicate 7 listCall])).requests,
      r.contents.map shape = [(.user, 0, 0), (.model, 7, 0), (.user, 0, 6)] := by
    rw [← List.mem_map, hshapes]
    exact List.mem_cons_of_mem _ List.mem_cons_self
  obtain ⟨c₀, rest, hcontents, -, hrest⟩ := List.map_eq_cons_iff.mp hshape
  obtain ⟨c₁, rest, rfl, hmodel, hrest⟩ := List.map_eq_cons_iff.mp hrest
  obtain ⟨c₂, rest, rfl, huser, -⟩ := List.map_eq_cons_iff.mp hrest
  have hr := h r hr
  rw [hcontents] at hr
  simp only [shape, Prod.mk.injEq] at hmodel huser
  obtain ⟨d, rest', hd, -, hnames⟩ := hr.answered [c₀] hmodel.1 (by
    intro hnil; rw [hnil] at hmodel; simp at hmodel)
  obtain ⟨rfl, -⟩ := List.cons.inj hd
  have hlength := congrArg List.length hnames
  simp only [Content.responseNames, Content.callNames, List.length_map, hmodel.2.1, huser.2.2] at hlength
  omega

end CoreHeartbeat.Knowledge
