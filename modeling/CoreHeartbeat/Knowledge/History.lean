/-
  CoreHeartbeat.Knowledge.History — what of the history a turn tells the model
  (`history_contents` of `knowledge_chat.py`).

  A history is a list of turns of two roles with texts; a blank turn is skipped. Turns of one
  role that follow each other are joined, and leading answers are dropped, since the API wants a
  conversation that starts with the user. The question comes last and is joined to a question
  right before it.

  So the conversation is made of groups, and what is said in it, group by group, is what was
  said in the history. `Tells` states it without the algorithm: a conversation from user to user
  in which the roles alternate, that ends with the question and in which these sayings are said,
  in order and each in its own role.

  Proved:
  - `joins_history`: the joined turns are the sayings of the history.
  - `joins_dropWhile`: dropping the leading groups of answers is dropping the leading answers.
  - `history_kept`: the history is told without losing a word of it, but for blank turns and for
    the answers that no question with a text comes before.
  - `an_answer_to_a_blank_is_dropped`: a blank question does not save the answer after it.
-/

import CoreHeartbeat.Knowledge.Conversation

namespace CoreHeartbeat.Knowledge

abbrev Sayings := List (Role × String)

def KnowledgeTurn.saying (t : KnowledgeTurn) : Role × String :=
  (if t.role = .user then .user else .model, strip t.content)

/-- The turns of the history that have a text. -/
def sayings (st : Settings) (req : KnowledgeChatRequest) : Sayings :=
  ((lastOf st.historyTurns req.history).map KnowledgeTurn.saying).filter (·.2 ≠ "")

/-- From the first question on. -/
def keptSayings (st : Settings) (req : KnowledgeChatRequest) : Sayings := (sayings st req).dropWhile (·.1 ≠ .user)

/-! ## Groups -/

def joinedGroup (g : Role × List String) : Role × String := (g.1, "\n\n".intercalate g.2)

def groupSayings (g : Role × List String) : Sayings := g.2.map fun text => (g.1, text)

/-- The turns are the sayings, some that follow each other joined. -/
def Joins (turns said : Sayings) : Prop :=
  ∃ groups : List (Role × List String), (∀ g ∈ groups, g.2 ≠ []) ∧ turns = groups.map joinedGroup ∧
    said = groups.flatMap groupSayings

theorem joins_nil : Joins [] [] := ⟨[], by simp, rfl, rfl⟩

theorem joins_say {turns said : Sayings} (h : Joins turns said) (role : Role) (text : String) :
    Joins (say turns role text) (said ++ [(role, text)]) := by
  obtain ⟨groups, hne, rfl, rfl⟩ := h
  have hnew : Joins (groups.map joinedGroup ++ [(role, text)]) (groups.flatMap groupSayings ++ [(role, text)]) := by
    refine ⟨groups ++ [(role, [text])], ?_, by simp [joinedGroup], by simp [groupSayings]⟩
    intro g hg
    rcases List.mem_append.mp hg with hg | hg
    · exact hne g hg
    · rw [List.mem_singleton.mp hg]
      simp
  rcases List.eq_nil_or_concat groups with rfl | ⟨front, g, rfl⟩
  · exact hnew
  · rw [List.concat_eq_append] at hne hnew ⊢
    unfold say
    rw [List.map_append, List.map_singleton, List.getLast?_concat]
    split
    · rename_i r said heq
      obtain ⟨rfl, rfl⟩ := Prod.mk.inj (Option.some.inj heq)
      split
      · rename_i hrole
        refine ⟨front ++ [(g.1, g.2 ++ [text])], ?_, ?_, ?_⟩
        · intro g' hg'
          rcases List.mem_append.mp hg' with hg' | hg'
          · exact hne g' (List.mem_append_left _ hg')
          · rw [List.mem_singleton.mp hg']
            simp
        · have hjoin := String.intercalate_append_of_ne_nil (s := "\n\n") (hne g (by simp)) (List.cons_ne_nil text [])
          rw [String.intercalate_singleton] at hjoin
          simp [joinedGroup, hjoin]
        · simp [groupSayings, ← hrole]
      · rwa [List.map_append] at hnew
    · rename_i heq
      cases heq

theorem joins_history {turns said : Sayings} (h : Joins turns said) (history : List KnowledgeTurn) :
    Joins (history.foldl addTurn turns) (said ++ (history.map KnowledgeTurn.saying).filter (·.2 ≠ "")) := by
  induction history generalizing turns said with
  | nil => simpa using h
  | cons t history ih =>
    rw [List.foldl_cons, List.map_cons]
    by_cases hblank : strip t.content = ""
    · rw [addTurn, if_pos hblank, List.filter_cons_of_neg (by simp [KnowledgeTurn.saying, hblank])]
      exact ih h
    · rw [addTurn, if_neg hblank, List.filter_cons_of_pos (by simp [KnowledgeTurn.saying, hblank])]
      have hnext := ih (joins_say h t.saying.1 t.saying.2)
      rwa [List.append_assoc] at hnext

/-- Leading groups of answers are the leading answers. -/
theorem joins_dropWhile {turns said : Sayings} (h : Joins turns said) :
    Joins (turns.dropWhile (·.1 ≠ .user)) (said.dropWhile (·.1 ≠ .user)) := by
  obtain ⟨groups, hne, rfl, rfl⟩ := h
  induction groups with
  | nil => exact joins_nil
  | cons g groups ih =>
    rw [List.forall_mem_cons] at hne
    by_cases hrole : g.1 = .user
    · obtain ⟨text, texts, htexts⟩ := List.exists_cons_of_ne_nil hne.1
      have hhead : (joinedGroup g).1 = .user := hrole
      rw [List.map_cons, List.flatMap_cons, List.dropWhile_cons_of_neg (by simpa using hhead)]
      have hsaid : groupSayings g ++ groups.flatMap groupSayings =
          (g.1, text) :: (texts.map (fun text => (g.1, text)) ++ groups.flatMap groupSayings) := by
        rw [groupSayings, htexts]
        rfl
      rw [hsaid, List.dropWhile_cons_of_neg (by simpa using hrole), ← hsaid]
      exact ⟨g :: groups, List.forall_mem_cons.mpr hne, rfl, rfl⟩
    · have hall : ∀ saying ∈ groupSayings g, decide (saying.1 ≠ .user) = true := by
        intro saying hs
        obtain ⟨text, -, rfl⟩ := List.mem_map.mp hs
        simpa using hrole
      rw [List.map_cons, List.flatMap_cons, List.dropWhile_cons_of_pos (by simp [joinedGroup, hrole]),
        List.dropWhile_append_of_pos hall]
      exact ih hne.2

/-! ## The conversation -/

/-- A conversation from user to user in which the roles alternate, that ends with the
    question and in which these sayings are said, in order and each in its own role. -/
structure Tells (contents : List Content) (said : Sayings) (question : String) : Prop where
  starts : contents.head?.map (·.role) = some .user
  ends : contents.getLast?.map (·.role) = some .user
  alternates : Alternates (contents.map (·.role))
  asks : ∃ text, contents.getLast?.map (·.parts) = some [.fromText text] ∧ question.toList <:+ text.toList
  keeps : ∃ turns, contents = turns.map (fun t => ⟨t.1, [.fromText t.2]⟩) ∧ Joins turns (said ++ [(.user, question)])

/-- The text that is said last ends the last turn. -/
theorem say_last (turns : Sayings) (role : Role) (text : String) :
    ∃ said, (say turns role text).getLast? = some (role, said) ∧ text.toList <:+ said.toList := by
  unfold say
  split
  · rename_i r said _
    split
    · rename_i hrole
      refine ⟨said ++ "\n\n" ++ text, by rw [List.getLast?_concat, hrole], ?_⟩
      rw [String.toList_append]
      exact List.suffix_append _ _
    · exact ⟨text, by rw [List.getLast?_concat], List.suffix_rfl⟩
  · exact ⟨text, rfl, List.suffix_rfl⟩

/-- **The history is told as a conversation without losing a word of it, but for the answers
    before the first question with a text.** -/
theorem history_kept (st : Settings) (req : KnowledgeChatRequest) :
    Tells (historyContents st req) (keptSayings st req) (strip req.text) := by
  have hformed := wellFormed_history st req
  have hjoins := joins_dropWhile (joins_history joins_nil (lastOf st.historyTurns req.history))
  obtain ⟨text, hlast, hsuffix⟩ :=
    say_last (((lastOf st.historyTurns req.history).foldl addTurn []).dropWhile (·.1 ≠ .user)) .user (strip req.text)
  refine ⟨hformed.starts, hformed.ends, ?_, ⟨text, ?_, hsuffix⟩, _, rfl, joins_say hjoins .user (strip req.text)⟩
  · rw [Alternates, List.isChain_map]
    exact hformed.follows.imp fun c d h => h.other
  · rw [historyContents, List.getLast?_map, hlast]
    rfl

def blankQuestion : KnowledgeChatRequest where
  text := "And Japan?"
  history := [⟨.user, " ", []⟩, ⟨.assistant, "Spreads widened.", []⟩]

theorem an_answer_to_a_blank_is_dropped :
    ¬ ∀ (st : Settings) (req : KnowledgeChatRequest), 1 ≤ st.historyTurns →
      ∀ t ∈ (lastOf st.historyTurns req.history).dropWhile (·.role ≠ .user), strip t.content ≠ "" →
        ∃ c ∈ historyContents st req, c.role = t.saying.1 ∧
          ∃ text, c.parts.map (·.text) = [some text] ∧ (strip t.content).toList <:+: text.toList := by
  intro h
  have hanswer := h (plainSettings 4) blankQuestion (by decide) ⟨.assistant, "Spreads widened.", []⟩
    (by simp [blankQuestion, lastOf, plainSettings]) (by decide +kernel)
  obtain ⟨c, hc, hrole, -⟩ := hanswer
  have hroles : (historyContents (plainSettings 4) blankQuestion).map (·.role) = [.user] := by decide +kernel
  have hmem := List.mem_map_of_mem (f := Content.role) hc
  rw [hroles, List.mem_singleton, hrole] at hmem
  cases hmem

end CoreHeartbeat.Knowledge
