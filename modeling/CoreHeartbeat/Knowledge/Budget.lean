/-
  CoreHeartbeat.Knowledge.Budget — the passage text that one turn of the knowledge chat puts in
  front of the model (`TurnContext.add`, `_tool_search`, `_tool_read` of `knowledge_chat.py`).

  `add` counts a passage when it is numbered and hands it out again, uncounted, whenever its key
  comes back; a tool result prints it every time (`printed`). It refuses a passage that would
  take the count over the budget, and the loop over the chunks stops there. So the count stays
  within the budget, and the question is what was printed and not counted.

  The knowledge base may answer anything, the calls of a round may end in any order, and the
  model may call the tools in any pattern over the rounds; a call that raises prints nothing.
  What a turn prints is a list of passages (`turnShows`), and `inOrder_shownBy` ties it to the
  texts that the model is handed: the passages of a call stand in its result, one after the
  other.

  Proved:
  - `addChunks_chars`, `shownBy_chars`, `round_chars`: what is printed for the first time is
    what is counted, for the loop, a call and a round.
  - `within_budget`: a turn in which no loop comes to a key already numbered prints no more text
    than the budget (`within_budget_two_searches`: two searches that find different passages).
  - `a_passage_is_printed_twice`: the service answers two searches with the same passage, and
    the turn goes over the budget.
-/

import CoreHeartbeat.Lib.Replace
import CoreHeartbeat.Knowledge.Conversation

namespace CoreHeartbeat.Knowledge

open CoreHeartbeat.Graph (Json Args)
open TurnContext (Row)
open Replace (InOrder)

def textTotal (passages : List Passage) : Nat := (passages.map (·.text.length)).sum

/-! ## The loop over the chunks -/

section Loop

variable (cap : Int) (row : Json → Except Fault (Row × (Passage → String)))

/-- The passages that the loop of `addChunks` prints. -/
def printed : TurnContext → List Json → List Passage
  | _, [] => []
  | ctx, c :: cs =>
    match row c with
    | .error _ => []
    | .ok (r, _) =>
      match ctx.add cap r with
      | (none, _) => []
      | (some p, ctx) => p :: printed ctx cs

/-- The loop comes to a chunk whose key is already numbered. -/
def comesBack : TurnContext → List Json → Bool
  | _, [] => false
  | ctx, c :: cs =>
    match row c with
    | .error _ => false
    | .ok (r, _) =>
      (ctx.byKey.lookup r.key).isSome ||
        match ctx.add cap r with
        | (none, _) => false
        | (some _, ctx) => comesBack ctx cs

variable {cap row}

/-- What is printed for the first time is what is counted. -/
theorem addChunks_chars {ctx : TurnContext} {cs : List Json} (h : comesBack cap row ctx cs = false) :
    (addChunks cap row ctx cs).2.chars = ctx.chars + textTotal (printed cap row ctx cs) := by
  induction cs generalizing ctx with
  | nil => rfl
  | cons c cs ih =>
    unfold comesBack at h
    unfold addChunks printed
    cases hrow : row c with
    | error fault => rfl
    | ok found =>
      obtain ⟨r, line⟩ := found
      rw [hrow] at h
      obtain ⟨hnew, hrest⟩ := Bool.or_eq_false_iff.mp h
      rcases ctx.add_cases cap r with ⟨p, hp, hkey, hadd⟩ | ⟨-, hadd⟩ | ⟨-, ctx', hadd, -, hchars, -⟩
      · have hlookup : ctx.byKey.lookup r.key = none := by simpa using hnew
        exact absurd (hkey ▸ List.mem_map_of_mem hp) (ctx.fresh_of_lookup hlookup)
      · simp only [hadd]
        rfl
      · simp only [hadd] at hrest ⊢
        have htail := ih hrest
        have hsum : ctx.chars + textTotal (r.passage (ctx.passages.length + 1) :: printed cap row ctx' cs) =
            ctx'.chars + textTotal (printed cap row ctx' cs) := by
          rw [hchars]
          simp only [textTotal, List.map_cons, List.sum_cons, Row.passage]
          omega
        rw [hsum, ← htail]
        split <;> rename_i hloop <;> rw [hloop]

theorem add_within {ctx : TurnContext} {r : Row} (h : (ctx.chars : Int) ≤ cap) :
    ((ctx.add cap r).2.chars : Int) ≤ cap := by
  rcases ctx.add_cases cap r with ⟨p, -, -, hadd⟩ | ⟨-, hadd⟩ | ⟨hroom, ctx', hadd, -, hchars, -⟩
  · rwa [hadd]
  · rwa [hadd]
  · rw [hadd, hchars]
    exact_mod_cast hroom

/-- The lines of the loop are those of the passages it prints. -/
theorem addChunks_printed {ctx ctx' : TurnContext} {cs : List Json} {lines : List String} {full : Bool}
    (h : addChunks cap row ctx cs = (.ok (lines, full), ctx')) :
    List.Forall₂ (fun p text => ∃ c r line, row c = .ok (r, line) ∧ text = line p) (printed cap row ctx cs) lines := by
  induction cs generalizing ctx lines full with
  | nil =>
    simp only [addChunks, Prod.mk.injEq, Except.ok.injEq] at h
    obtain ⟨⟨rfl, -⟩, -⟩ := h
    exact .nil
  | cons c cs ih =>
    simp only [addChunks] at h
    split at h
    · simp at h
    · rename_i r line hrow
      split at h
      · rename_i ctx₁ hadd
        simp only [Prod.mk.injEq, Except.ok.injEq] at h
        obtain ⟨⟨rfl, -⟩, -⟩ := h
        have hprinted : printed cap row ctx (c :: cs) = [] := by simp only [printed, hrow, hadd]
        rw [hprinted]
        exact .nil
      · rename_i p ctx₁ hadd
        split at h
        · rename_i lines' full' ctx₂ hloop
          simp only [Prod.mk.injEq, Except.ok.injEq] at h
          obtain ⟨⟨rfl, rfl⟩, rfl⟩ := h
          have hprinted : printed cap row ctx (c :: cs) = p :: printed cap row ctx₁ cs := by
            simp only [printed, hrow, hadd]
          rw [hprinted]
          exact .cons ⟨c, r, line, hrow, rfl⟩ (ih hloop)
        · simp at h

end Loop

/-! ## A call -/

section Call

variable (st : Settings) (kb : Kb) (ctx : TurnContext) (name : String) (args : Args)

def loopOf : Option ((Json → Except Fault (Row × (Passage → String))) × List Json) :=
  match name with
  | "search_knowledge" =>
    match searchFindings st kb ctx args with
    | .ok (.inr (_, chunks)) => some (searchRow st, chunks)
    | _ => none
  | "read_document" =>
    match readFindings st kb args with
    | .ok (.inr (found, chunks)) => some (readRow st found.doc found.title, chunks)
    | _ => none
  | _ => none

/-- The passages that the result of a call prints; one that raises prints none. -/
def shownBy : List Passage :=
  match (callTool st kb ctx name args).1, loopOf st kb ctx name args with
  | .ok _, some (row, chunks) => printed st.contextChars row ctx chunks
  | _, _ => []

/-- The call returns a passage that is already numbered. -/
def repeats : Bool :=
  match (callTool st kb ctx name args).1, loopOf st kb ctx name args with
  | .ok _, some (row, chunks) => comesBack st.contextChars row ctx chunks
  | _, _ => false

variable {st kb ctx name args}

theorem callTool_ctx :
    (callTool st kb ctx name args).2 =
      match loopOf st kb ctx name args with
      | some (row, chunks) => (addChunks st.contextChars row ctx chunks).2
      | none => ctx := by
  unfold callTool loopOf
  split
  · unfold toolSearch
    split
    · simp_all
    · simp_all
    · rename_i hfound
      simp only [hfound]
      split <;> rename_i hloop <;> rw [hloop]
  · unfold toolRead
    split
    · simp_all
    · simp_all
    · rename_i hfound
      simp only [hfound]
      split <;> rename_i hloop <;> rw [hloop]
  · rfl
  · simp_all

/-- A call that returns nothing numbered before pays for all it prints. -/
theorem shownBy_chars (h : repeats st kb ctx name args = false) :
    ctx.chars + textTotal (shownBy st kb ctx name args) ≤ (callTool st kb ctx name args).2.chars := by
  have hgrows : ctx.chars ≤ (callTool st kb ctx name args).2.chars := by
    apply callTool_inv (I := fun c => ctx.chars ≤ c.chars) _ kb (Nat.le_refl _)
    intro c r hc
    rcases c.add_cases st.contextChars r with ⟨p, -, -, hadd⟩ | ⟨-, hadd⟩ | ⟨-, c', hadd, -, hchars, -⟩
    · rwa [hadd]
    · rwa [hadd]
    · rw [hadd, hchars]
      omega
  unfold repeats at h
  unfold shownBy
  split at h
  · rename_i row chunks hok hloop
    rw [callTool_ctx, hloop]
    exact (addChunks_chars h).ge
  · simpa [textTotal] using hgrows

theorem searchRow_line {c : Json} {r : Row} {line : Passage → String} (h : searchRow st c = .ok (r, line)) (p : Passage) :
    p.text.toList <:+: (line p).toList := by
  simp only [searchRow, Fallible.bind_ok] at h
  obtain ⟨_, -, _, -, _, -, _, -, _, -, _, -, _, -, _, -, _, -, _, -, h⟩ := h
  obtain ⟨-, rfl⟩ := Prod.mk.inj (Except.ok.inj h)
  rw [String.toList_append]
  exact List.infix_append_right

theorem readRow_line {doc c : Json} {title : String} {r : Row} {line : Passage → String}
    (h : readRow st doc title c = .ok (r, line)) (p : Passage) : p.text.toList <:+: (line p).toList := by
  simp only [readRow, Fallible.bind_ok] at h
  obtain ⟨_, -, _, -, _, -, _, -, h⟩ := h
  obtain ⟨-, rfl⟩ := Prod.mk.inj (Except.ok.inj h)
  rw [String.toList_append]
  exact List.infix_append_right

theorem inOrder_lines {row : Json → Except Fault (Row × (Passage → String))}
    (hrow : ∀ c r line, row c = .ok (r, line) → ∀ p : Passage, p.text.toList <:+: (line p).toList) {cap : Int}
    {ctx' : TurnContext} {chunks : List Json} {lines all : List String} {full : Bool}
    (h : addChunks cap row ctx chunks = (.ok (lines, full), ctx')) (hall : lines.Sublist all) (sep : String) :
    InOrder ((printed cap row ctx chunks).map (·.text.toList)) (sep.intercalate all).toList := by
  rw [String.toList_intercalate]
  apply Replace.inOrder_intercalate _ _ (hall.map String.toList)
  rw [List.forall₂_map_left_iff, List.forall₂_map_right_iff]
  refine (addChunks_printed h).imp fun p text hline => ?_
  obtain ⟨c, r, line, hc, rfl⟩ := hline
  exact hrow c r line hc p

theorem sublist_middle {α : Type} (before l after : List α) : l.Sublist (before ++ l ++ after) :=
  (List.sublist_append_right before l).trans (List.sublist_append_left _ after)

theorem toolSearch_prints {summaries : List String} {chunks : List Json} {text : String}
    (hfound : searchFindings st kb ctx args = .ok (.inr (summaries, chunks)))
    (h : (toolSearch st kb ctx args).1 = .ok text) :
    InOrder ((printed st.contextChars (searchRow st) ctx chunks).map (·.text.toList)) text.toList := by
  unfold toolSearch at h
  simp only [hfound] at h
  split at h
  · cases h
  · rename_i lines full ctx' hloop
    have hrow : ∀ c r line, searchRow st c = .ok (r, line) → ∀ p : Passage, p.text.toList <:+: (line p).toList :=
      fun _ _ _ hc p => searchRow_line hc p
    have hall := sublist_middle summaries lines (if full then [contextFull] else [])
    by_cases hnone : summaries ++ lines ++ (if full then [contextFull] else []) = []
    · have hlines : lines = [] := by simp_all
      have hprinted := addChunks_printed hloop
      rw [hlines, List.forall₂_nil_right_iff] at hprinted
      rw [hprinted]
      trivial
    · rw [if_neg hnone] at h
      rw [← Except.ok.inj h]
      exact inOrder_lines hrow hloop hall "\n\n"

theorem toolRead_prints {found : Document} {chunks : List Json} {text : String}
    (hfound : readFindings st kb args = .ok (.inr (found, chunks))) (h : (toolRead st kb ctx args).1 = .ok text) :
    InOrder ((printed st.contextChars (readRow st found.doc found.title) ctx chunks).map (·.text.toList)) text.toList := by
  unfold toolRead at h
  simp only [hfound] at h
  split at h
  · cases h
  · rename_i lines full ctx' hloop
    have hrow : ∀ c r line, readRow st found.doc found.title c = .ok (r, line) →
        ∀ p : Passage, p.text.toList <:+: (line p).toList := fun _ _ _ hc p => readRow_line hc p
    obtain ⟨_, -, h⟩ := Fallible.bind_ok.mp h
    obtain ⟨alts, -, h⟩ := Fallible.bind_ok.mp h
    obtain ⟨others, h⟩ : ∃ others, "\n\n".intercalate ([found.head] ++ lines ++
        (if lines = [] then ["No readable passages are stored for this document."] else []) ++
        (if full then [contextFull] else []) ++ others) = text := by
      split at h
      · exact ⟨_, Except.ok.inj h⟩
      · obtain ⟨others, -, h⟩ := Fallible.bind_ok.mp h
        exact ⟨_, Except.ok.inj h⟩
    rw [← h]
    apply inOrder_lines hrow hloop
    simp only [List.append_assoc]
    exact (List.sublist_append_left lines _).trans (List.sublist_append_right [found.head] _)

/-- The passages that a call prints stand in its result, one after the other. -/
theorem inOrder_shownBy {text : String} (h : (callTool st kb ctx name args).1 = .ok text) :
    InOrder ((shownBy st kb ctx name args).map (·.text.toList)) text.toList := by
  unfold shownBy
  rw [h]
  unfold callTool at h
  unfold loopOf
  split at h
  · cases hfound : searchFindings st kb ctx args with
    | error fault => trivial
    | ok found =>
      cases found with
      | inl text => trivial
      | inr found => exact toolSearch_prints hfound h
  · cases hfound : readFindings st kb args with
    | error fault => trivial
    | ok found =>
      cases found with
      | inl text => trivial
      | inr found => exact toolRead_prints hfound h
  · trivial
  · simp_all [InOrder]

end Call

/-! ## A turn -/

section Turn

variable (st : Settings) (req : KnowledgeChatRequest)

def toolCalls (s : TurnState) (e : RoundEnv) : List FunctionCall :=
  if s.phase = .running ∧ e.response.failure = none ∧ s.toolsEnabled st = true then
    e.response.calls.take maxCallsPerRound
  else []

def callShows (e : RoundEnv) (calls : List FunctionCall) (ctx : TurnContext) (i : Nat) : List Passage :=
  match calls[i]? with
  | none => []
  | some c => shownBy st (e.kb i) ctx (c.name.getD "") c.args

def callRepeats (e : RoundEnv) (calls : List FunctionCall) (ctx : TurnContext) (i : Nat) : Bool :=
  match calls[i]? with
  | none => false
  | some c => repeats st (e.kb i) ctx (c.name.getD "") c.args

/-- What a round prints, in the order in which its calls end. -/
def roundShows (s : TurnState) (e : RoundEnv) : List Passage :=
  (Machine.trace (endCall st e.kb (toolCalls st s e)) s.ctx (completionOrder e.rank (toolCalls st s e).length)).flatMap
    fun ev => callShows st e (toolCalls st s e) ev.pre ev.op

def NoRepeat (s : TurnState) (e : RoundEnv) : Prop :=
  Machine.Meets (endCall st e.kb (toolCalls st s e)) (fun ctx i => callRepeats st e (toolCalls st s e) ctx i = false) s.ctx
    (completionOrder e.rank (toolCalls st s e).length)

def turnShows (env : TurnEnv) : List Passage :=
  if env.client then
    match prepare st req env with
    | .error _ => []
    | .ok (system, ctx) =>
      (Machine.trace (round st req system) (start st req ctx) (roundsOf st env)).flatMap fun ev =>
        roundShows st ev.pre ev.op
  else []

variable {st req}

theorem textTotal_flatMap {β : Type} (l : List β) (f : β → List Passage) :
    textTotal (l.flatMap f) = (l.map fun b => textTotal (f b)).sum := by
  induction l with
  | nil => rfl
  | cons b l ih =>
    rw [List.map_cons, List.sum_cons, ← ih]
    simp [textTotal]

theorem endCall_chars {e : RoundEnv} {calls : List FunctionCall} {ctx : TurnContext} {i : Nat}
    (h : callRepeats st e calls ctx i = false) :
    ctx.chars + textTotal (callShows st e calls ctx i) ≤ (endCall st e.kb calls ctx i).1.chars := by
  unfold callRepeats at h
  unfold callShows endCall
  cases hcall : calls[i]? with
  | none => exact Nat.le_refl _
  | some c =>
    rw [hcall] at h
    exact shownBy_chars h

theorem endCall_within {e : RoundEnv} {calls : List FunctionCall} {ctx : TurnContext}
    (h : (ctx.chars : Int) ≤ st.contextChars) (i : Nat) :
    ((endCall st e.kb calls ctx i).1.chars : Int) ≤ st.contextChars := by
  unfold endCall
  cases calls[i]? with
  | none => exact h
  | some c =>
    exact callTool_inv (I := fun ctx => (ctx.chars : Int) ≤ st.contextChars) (fun _ _ => add_within) (e.kb i) h
      (c.name.getD "") c.args

/-- A round leaves the context that its calls leave. -/
theorem round_ctx (system : String) (s : TurnState) (e : RoundEnv) :
    (round st req system s e).1.ctx =
      Machine.final (endCall st e.kb (toolCalls st s e)) s.ctx (completionOrder e.rank (toolCalls st s e).length) := by
  have hidle : toolCalls st s e = [] →
      Machine.final (endCall st e.kb (toolCalls st s e)) s.ctx (completionOrder e.rank (toolCalls st s e).length) = s.ctx := by
    intro hnil
    rw [hnil]
    rfl
  by_cases hrunning : s.phase = .running
  · obtain ⟨s', events, contexts, hround, hout⟩ := round_spec st req system e hrunning
    rw [hround]
    cases hout with
    | called calls ended ctx gap hfail hcalls henabled hcut hrun hgap =>
      have htools : toolCalls st s e = calls := by
        rw [toolCalls, if_pos ⟨hrunning, hfail, henabled⟩, hcut]
      rw [htools]
      exact (congrArg Prod.snd hrun).symm
    | broken hfail _ => exact (hidle (by simp [toolCalls, Option.isSome_iff_ne_none.mp hfail])).symm
    | failed hfail _ _ => exact (hidle (by simp [toolCalls, Option.isSome_iff_ne_none.mp hfail])).symm
    | nudged _ hcalls _ _ _ => exact (hidle (by simp [toolCalls, hcalls])).symm
    | answered _ hcalls _ _ _ => exact (hidle (by simp [toolCalls, hcalls])).symm
    | closed _ hcalls _ => exact (hidle (by simp [toolCalls, hcalls])).symm
    | cut _ _ hoff => exact (hidle (by simp [toolCalls, hoff])).symm
  · rw [round_idle e hrunning]
    exact (hidle (by simp [toolCalls, hrunning])).symm

theorem round_chars (system : String) {s : TurnState} {e : RoundEnv} (h : NoRepeat st s e) :
    s.ctx.chars + textTotal (roundShows st s e) ≤ (round st req system s e).1.ctx.chars := by
  rw [round_ctx, roundShows, textTotal_flatMap]
  exact Machine.sum_trace_le (fun _ _ => endCall_chars) h

theorem round_within (system : String) {s : TurnState} (e : RoundEnv) (h : (s.ctx.chars : Int) ≤ st.contextChars) :
    ((round st req system s e).1.ctx.chars : Int) ≤ st.contextChars := by
  rw [round_ctx]
  exact Machine.final_inv_of_step (I := fun ctx : TurnContext => (ctx.chars : Int) ≤ st.contextChars)
    (fun _ i hctx => endCall_within hctx i) h _

theorem opens_empty {env : TurnEnv} {system : String} {ctx : TurnContext} (h : prepare st req env = .ok (system, ctx)) :
    ctx.chars = 0 := by
  simp only [prepare, Fallible.bind_ok] at h
  obtain ⟨_, -, _, -, h⟩ := h
  obtain ⟨-, rfl⟩ := Prod.mk.inj (Except.ok.inj h)
  rfl

/-- **A turn whose calls return no passage already numbered prints no more text than its
    budget.** -/
theorem within_budget (st : Settings) (req : KnowledgeChatRequest) (env : TurnEnv) (hbudget : 0 ≤ st.contextChars)
    (hfresh : ∀ system ctx, Opens st req env system ctx →
      Machine.Meets (round st req system) (NoRepeat st) (start st req ctx) (roundsOf st env)) :
    (textTotal (turnShows st req env) : Int) ≤ st.contextChars := by
  unfold turnShows
  cases hclient : env.client with
  | false => simpa [textTotal] using hbudget
  | true =>
    cases hprepare : prepare st req env with
    | error fault => simpa [textTotal] using hbudget
    | ok opened =>
      obtain ⟨system, ctx⟩ := opened
      have hmeets := hfresh system ctx ⟨hclient, hprepare⟩
      have hstart : (ctx.chars : Int) ≤ st.contextChars := by
        rw [opens_empty hprepare]
        exact hbudget
      have htaken := Machine.sum_trace_le (fun _ _ => round_chars system) hmeets
      have hend : ((Machine.final (round st req system) (start st req ctx) (roundsOf st env)).ctx.chars : Int) ≤
          st.contextChars :=
        Machine.final_inv_of_step (I := fun s : TurnState => (s.ctx.chars : Int) ≤ st.contextChars)
          (fun _ e hs => round_within system e hs) hstart _
      simp only [if_true, textTotal_flatMap]
      omega

end Turn

/-! ## The same passage twice -/

def onePassageKb : Kb :=
  { emptyKb with
    search := fun _ _ _ _ => .ok (.obj [("chunks", .arr [.obj
      [("id", .int 7), ("title", .str "CMBS"), ("content", .str "Spreads widened.")]])]) }

/-- The service of a user with two passages, of which a search finds one. -/
def twoPassagesKb : Kb :=
  { emptyKb with
    search := fun i query topK titles =>
      if query = "CLO" then
        .ok (.obj [("chunks", .arr [.obj [("id", .int 8), ("title", .str "CLO"), ("content", .str "Up.")]])])
      else onePassageKb.search i query topK titles }

def searchFor (query : String) : Part := { functionCall := some ⟨some "search_knowledge", [("query", .str query)]⟩ }

def searchCall : Part := searchFor "CMBS"

def searchingIn (kb : Kb) (rounds : List (List Part)) : TurnEnv :=
  { streaming rounds with
    rounds := fun i => { response := ⟨[[rounds.getD i []]], none⟩, kb := fun _ => kb } }

def searching : List (List Part) → TurnEnv := searchingIn onePassageKb

def tightSettings : Settings := { plainSettings 4 with contextChars := 20 }

/-- A turn that searches twice, for different passages. -/
def twoSearches : TurnEnv := searchingIn twoPassagesKb [[searchCall], [searchFor "CLO"]]

theorem within_budget_two_searches :
    (turnShows tightSettings question twoSearches).map (·.text) = ["Spreads widened.", "Up."] ∧
      (textTotal (turnShows tightSettings question twoSearches) : Int) ≤ tightSettings.contextChars := by
  refine ⟨by decide +kernel, within_budget tightSettings question twoSearches (by decide) ?_⟩
  intro system ctx hopens
  have hopened : Opens tightSettings question twoSearches
      ("The knowledge base is EMPTY — there are no documents to answer from.\n" ++ discussedBlock tightSettings question)
      (.empty []) := ⟨rfl, rfl⟩
  obtain ⟨rfl, rfl⟩ := hopened.unique hopens
  unfold Machine.Meets NoRepeat Machine.Meets
  decide +kernel

theorem a_passage_is_printed_twice :
    ((run tightSettings question (searching [[searchCall], [searchCall]])).requests.getLast?.map fun r =>
        (r.contents.flatMap (·.responses)).map (·.2)) =
        some ["[1] CMBS\nSpreads widened.", "[1] CMBS\nSpreads widened."] ∧
      ¬ ∀ (st : Settings) (req : KnowledgeChatRequest) (env : TurnEnv), 0 ≤ st.contextChars →
        (textTotal (turnShows st req env) : Int) ≤ st.contextChars := by
  have htotal : textTotal (turnShows tightSettings question (searching [[searchCall], [searchCall]])) = 32 := by
    decide +kernel
  refine ⟨by decide +kernel, ?_⟩
  intro h
  have hover := h tightSettings question (searching [[searchCall], [searchCall]]) (by decide)
  rw [htotal] at hover
  exact absurd hover (by decide)

end CoreHeartbeat.Knowledge
