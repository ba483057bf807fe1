/-
  CoreHeartbeat.Knowledge.Citations — the citations of an answer (`_CITE`, `_META`, `_CONTRAST`,
  `_SENTENCES`, `cited_sources` in `knowledge_chat.py`).

  A citation is a bracketed list of numbers. The sources of an answer are the passages it cites,
  unless it cites only in sentences about the knowledge base itself, or in a refusal.

  The regular expressions are readers of the text: `citeBody` for what stands in a bracket,
  `sentences` for the split, with the alternatives tried in the order of the engine, and the
  phrases of `_META` and `_CONTRAST` looked for between word boundaries without regard to case.
  Which characters are digits, whitespace and letters comes from the Unicode tables
  (`PyText.Unicode`), and `int` is Python's: it takes the decimal digits of any script, refuses
  some of the whitespace that `\s` matches, and has a limit of digits.

  Proved:
  - `mem_citations_iff`, `citations_subset_of_infix`: what is cited in a part of a text is cited
    in the text.
  - `citedSources_sound`: every source is the passage of a cited number.
  - `citedSources_ok_iff`: exactly when the filter does not raise: `int` takes the numbers, and
    the excerpts of the passages shown are texts.
-/

import CoreHeartbeat.Lib.Fallible
import CoreHeartbeat.Knowledge.Tools

namespace CoreHeartbeat.Knowledge

open CoreHeartbeat.Graph (Json Args)
open PyText (Unicode)

variable (u : Unicode)

/-! ## `_CITE` -/

/-- `\d+` -/
def isDigits (x : List Char) : Bool := !x.isEmpty && x.all fun c => (u.decimal c).isSome

/-- `\d+(?:\s*,\s*\d+)*` -/
def isNumberList (body : List Char) : Bool :=
  (body.splitOn ',').all (fun x => isDigits u (PyText.strip x)) && !(body.head?.any PyText.isSpace) &&
    !(body.getLast?.any PyText.isSpace)

/-- Group 1 of a match at a `[`, of which `rest` is what follows. -/
def citeBody (rest : List Char) : Option (List Char) :=
  let body := rest.takeWhile (· ≠ ']')
  if body.length < rest.length ∧ isNumberList u body then some body else none

/-- Group 1 of every match of `_CITE`. -/
def citations : List Char → List (List Char)
  | [] => []
  | c :: rest => (if c = '[' then (citeBody u rest).toList else []) ++ citations rest

def Cites (text : String) (n : Nat) : Prop := ∃ body ∈ citations u text.toList, ∃ x ∈ body.splitOn ',', u.int x = some n

/-! ## `cited_sources` -/

def metaPhrases : List (List Char) :=
  ["knowledge base", "my documents", "your documents", "cannot answer", "can't answer", "unable to answer",
    "unable to find", "does not contain", "does not cover", "does not mention", "does not include", "does not discuss",
    "doesn't contain", "doesn't cover", "doesn't mention", "doesn't include", "doesn't discuss", "do not contain",
    "do not cover", "not covered", "no relevant information", "no information"].map (·.toList)

def contrastPhrases : List (List Char) := ["but", "however", "although", "though", "whereas"].map (·.toList)

/-- `_SENTENCES.split(text)`; `sentence` is the sentence being read, reversed, and `between`
    says that a separator is. -/
def sentences (sentence : List Char) (between : Bool) : List Char → List (List Char)
  | [] => [sentence.reverse]
  | c :: cs =>
    if PyText.isSpace c && between then sentences [] true cs
    else if PyText.isSpace c && sentence.head?.any (['.', '!', '?'].contains ·) then
      sentence.reverse :: sentences [] true cs
    else sentences (c :: sentence) false cs

/-- The answer cites only in sentences about the knowledge base, or in a refusal. -/
def citesOnlyAside (answer : List Char) : Bool :=
  let cited := (sentences [] false (PyText.strip answer)).filter fun x => !(citations u x).isEmpty
  !cited.isEmpty && cited.all fun x => u.searchPhrases metaPhrases none x && !u.searchPhrases contrastPhrases none x

structure SourceEntry where
  n : Nat
  documentId : Json
  title : String
  chunkIndex : Json
  excerpt : String
  deriving Repr

def wanted (answer : List Char) : Except Fault (List Nat) :=
  ((citations u answer).flatMap (·.splitOn ',')).mapM fun x =>
    match u.int x with
    | some n => .ok n
    | none => .error "ValueError"

def sourceEntry (p : Passage) : Except Fault SourceEntry :=
  match clip p.excerpt excerptChars with
  | .ok excerpt => .ok ⟨p.n, p.documentId, p.title, p.chunkIndex, excerpt⟩
  | .error fault => .error fault

def citedSources (answer : String) (ctx : TurnContext) : Except Fault (List SourceEntry) := do
  let wanted ← wanted u answer.toList
  if citesOnlyAside u answer.toList then return []
  (ctx.passages.filter fun p => wanted.contains p.n).mapM sourceEntry

/-! ## What a citation is -/

variable {u}

theorem citeBody_eq_some_iff {rest body : List Char} :
    citeBody u rest = some body ↔ (∃ post, rest = body ++ ']' :: post) ∧ ']' ∉ body ∧ isNumberList u body := by
  have hsplit := List.takeWhile_append_dropWhile (p := fun c : Char => decide (c ≠ ']')) (l := rest)
  have hfree : ']' ∉ rest.takeWhile (fun c => decide (c ≠ ']')) := by
    intro h
    simpa using List.mem_takeWhile_imp h
  unfold citeBody
  simp only
  constructor
  · intro h
    split at h
    · rename_i hcond
      obtain rfl := Option.some.inj h
      refine ⟨?_, hfree, hcond.2⟩
      cases hdrop : rest.dropWhile (fun c => decide (c ≠ ']')) with
      | nil =>
        rw [hdrop, List.append_nil] at hsplit
        have hlen := congrArg List.length hsplit
        omega
      | cons c post =>
        have hc : c = ']' := by
          have := List.head?_dropWhile_not (fun c : Char => decide (c ≠ ']')) rest
          rw [hdrop] at this
          simpa using this
        exact ⟨post, by rw [hdrop, hc] at hsplit; exact hsplit.symm⟩
    · cases h
  · intro ⟨⟨post, hrest⟩, hbody, hlist⟩
    have htake : rest.takeWhile (fun c => decide (c ≠ ']')) = body := by
      rw [hrest, List.takeWhile_append_of_pos fun c hc => by
        simp only [decide_eq_true_eq]; rintro rfl; exact hbody hc]
      simp
    rw [htake]
    have hlen : body.length < rest.length := by rw [hrest]; simp
    rw [if_pos ⟨hlen, hlist⟩]

theorem mem_citations_iff {text body : List Char} :
    body ∈ citations u text ↔
      ∃ before post, text = before ++ '[' :: (body ++ ']' :: post) ∧ ']' ∉ body ∧ isNumberList u body := by
  induction text with
  | nil => simp [citations]
  | cons c rest ih =>
    rw [citations, List.mem_append, ih]
    constructor
    · rintro (h | ⟨before, post, rfl, hbody⟩)
      · split at h
        · rename_i hc
          obtain ⟨⟨post, rfl⟩, hbody⟩ := citeBody_eq_some_iff.mp (Option.mem_toList.mp h)
          exact ⟨[], post, by rw [hc]; rfl, hbody⟩
        · cases h
      · exact ⟨c :: before, post, rfl, hbody⟩
    · intro ⟨before, post, htext, hbody⟩
      cases before with
      | nil =>
        obtain ⟨rfl, rfl⟩ := List.cons.inj htext
        rw [if_pos rfl]
        exact Or.inl (Option.mem_toList.mpr (citeBody_eq_some_iff.mpr ⟨⟨post, rfl⟩, hbody⟩))
      | cons d before =>
        obtain ⟨rfl, rfl⟩ := List.cons.inj htext
        exact Or.inr ⟨before, post, rfl, hbody⟩

/-- What is cited in a part of a text is cited in the text. -/
theorem citations_subset_of_infix {text part : List Char} (h : part <:+: text) :
    citations u part ⊆ citations u text := by
  intro body hbody
  obtain ⟨before, post, rfl, hrest⟩ := mem_citations_iff.mp hbody
  obtain ⟨s, t, rfl⟩ := h
  exact mem_citations_iff.mpr ⟨s ++ before, post ++ t, by simp, hrest⟩

theorem strip_isPart (t : List Char) : PyText.strip t <:+: t :=
  (List.rdropWhile_prefix _ _).isInfix.trans (List.dropWhile_suffix _).isInfix

theorem Cites.of_strip {text : String} {n : Nat} (h : Cites u (String.ofList (PyText.strip text.toList)) n) :
    Cites u text n := by
  obtain ⟨body, hbody, hx⟩ := h
  rw [String.toList_ofList] at hbody
  exact ⟨body, citations_subset_of_infix (strip_isPart _) hbody, hx⟩

/-! ## What the filter returns, and when it raises -/

/-- A value that `clip` can cut: a text, or nothing. -/
def Cuttable (v : Json) : Prop := truthy v → isStr v

theorem clip_ok_iff {v : Json} {limit : Int} : (∃ text, clip v limit = .ok text) ↔ Cuttable v := by
  unfold clip orElse Cuttable
  cases htruthy : truthy v with
  | false => simp
  | true => cases v <;> simp [isStr]

def Describes (e : SourceEntry) (p : Passage) : Prop :=
  e.n = p.n ∧ e.documentId = p.documentId ∧ e.title = p.title ∧ e.chunkIndex = p.chunkIndex ∧
    clip p.excerpt excerptChars = .ok e.excerpt

theorem sourceEntry_ok_iff {p : Passage} {e : SourceEntry} : sourceEntry p = .ok e ↔ Describes e p := by
  unfold sourceEntry Describes
  cases hclip : clip p.excerpt excerptChars with
  | error fault => simp
  | ok excerpt =>
    cases e
    simp [eq_comm]

/-- Every number in a citation of the answer is one that `int` takes. -/
def NumbersReadable (u : Unicode) (answer : String) : Prop :=
  ∀ body ∈ citations u answer.toList, ∀ x ∈ body.splitOn ',', (u.int x).isSome

theorem wanted_ok_iff {answer : String} : (∃ ns, wanted u answer.toList = .ok ns) ↔ NumbersReadable u answer := by
  unfold wanted NumbersReadable
  simp only [Fallible.mapM_comesThrough, List.mem_flatMap, forall_exists_index, and_imp]
  constructor
  · intro h body hbody x hx
    obtain ⟨n, hn⟩ := h x body hbody hx
    cases hint : u.int x with
    | none => simp [hint] at hn
    | some m => rfl
  · intro h x body hbody hx
    obtain ⟨n, hn⟩ := Option.isSome_iff_exists.mp (h body hbody x hx)
    exact ⟨n, by rw [hn]⟩

theorem mem_wanted {answer : String} {ns : List Nat} (h : wanted u answer.toList = .ok ns) {n : Nat} :
    n ∈ ns ↔ Cites u answer n := by
  rw [Fallible.mem_mapM_iff h]
  unfold Cites
  constructor
  · intro ⟨x, hx, hn⟩
    obtain ⟨body, hbody, hx⟩ := List.mem_flatMap.mp hx
    refine ⟨body, hbody, x, hx, ?_⟩
    cases hint : u.int x with
    | none => simp [hint] at hn
    | some m => rw [hint] at hn; rw [Except.ok.inj hn]
  · intro ⟨body, hbody, x, hx, hn⟩
    exact ⟨x, List.mem_flatMap.mpr ⟨body, hbody, hx⟩, by rw [hn]⟩

theorem citedSources_sound {answer : String} {ctx : TurnContext} {entries : List SourceEntry}
    (h : citedSources u answer ctx = .ok entries) :
    ∀ e ∈ entries, Cites u answer e.n ∧ ∃ p ∈ ctx.passages, Describes e p := by
  obtain ⟨ns, hns, h⟩ := Fallible.bind_ok.mp h
  intro e he
  split at h
  · obtain rfl := Except.ok.inj h
    cases he
  · obtain ⟨p, hp, hentry⟩ := (Fallible.mem_mapM_iff h).mp he
    obtain ⟨hp, hcited⟩ := List.mem_filter.mp hp
    have hdescribes := sourceEntry_ok_iff.mp hentry
    refine ⟨?_, p, hp, hdescribes⟩
    rw [hdescribes.1]
    exact (mem_wanted hns).mp (by simpa using hcited)

/-- The filter comes through: `int` takes the numbers, and the excerpts of the passages shown
    are texts. -/
structure SourcesReadable (u : Unicode) (answer : String) (ctx : TurnContext) : Prop where
  numbers : NumbersReadable u answer
  excerpts : citesOnlyAside u answer.toList = false → ∀ p ∈ ctx.passages, Cites u answer p.n → Cuttable p.excerpt

theorem citedSources_ok_iff {answer : String} {ctx : TurnContext} :
    (∃ entries, citedSources u answer ctx = .ok entries) ↔ SourcesReadable u answer ctx := by
  unfold citedSources
  simp only [Fallible.bind_ok]
  constructor
  · intro ⟨entries, ns, hns, h⟩
    refine ⟨wanted_ok_iff.mp ⟨ns, hns⟩, fun haside p hp hcited => ?_⟩
    rw [haside] at h
    obtain ⟨e, he⟩ := Fallible.mapM_comesThrough.mp ⟨entries, h⟩ p
      (List.mem_filter.mpr ⟨hp, by simpa using (mem_wanted hns).mpr hcited⟩)
    exact clip_ok_iff.mp ⟨e.excerpt, (sourceEntry_ok_iff.mp he).2.2.2.2⟩
  · intro hreadable
    obtain ⟨ns, hns⟩ := wanted_ok_iff.mpr hreadable.numbers
    cases haside : citesOnlyAside u answer.toList with
    | true => exact ⟨[], ns, hns, rfl⟩
    | false =>
      have hentries : ∀ p ∈ ctx.passages.filter (fun p => ns.contains p.n), ∃ e, sourceEntry p = .ok e := by
        intro p hp
        obtain ⟨hp, hcited⟩ := List.mem_filter.mp hp
        obtain ⟨excerpt, hclip⟩ := clip_ok_iff.mpr
          (hreadable.excerpts haside p hp ((mem_wanted hns).mp (by simpa using hcited)))
        exact ⟨⟨p.n, p.documentId, p.title, p.chunkIndex, excerpt⟩,
          sourceEntry_ok_iff.mpr ⟨rfl, rfl, rfl, rfl, hclip⟩⟩
      obtain ⟨entries, h⟩ := Fallible.mapM_comesThrough.mpr hentries
      exact ⟨entries, ns, hns, h⟩

end CoreHeartbeat.Knowledge
