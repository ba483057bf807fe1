/-
  CoreHeartbeat.Untrusted.Documents — the texts of a message's attached documents, as the prompt
  carries them (`_load_documents` of `orchestrator.py`).

  The budget is counted twice. The loop counts the texts and, once none of it is left, adds a
  notice even if nothing was cut; `sanitize` counts them again with the separators and the
  notice between them. So texts that fit together come out cut when the separators take them
  over the budget, or when they fill it.

  The documents are those that the turn takes (`Attached`): not more than it takes at most, each
  with a text that the cleaning steps leave as it is, and together within the budget. What the
  model gets is a block: a fence with the nonce, between a preamble and the boundary restated. A
  text has arrived whole when it stands in the body of that fence in full, each in its order,
  and nothing in the block tells of a cut (`Whole`).

  Proved:
  - `partsOf_below`, `partsOf_filled`: what the loop makes of texts below the budget and of
    texts that fill it.
  - `notice_infix_block`: around the body nothing reads like a notice.
  - `not_whole_of_long`, `not_whole_of_filled`: the two ways in which fitting texts are cut.
  - `documents_whole_iff`: they come out whole exactly when they fit with their separators and
    leave something of the budget, and when none has the nonce or a notice in it
    (`documents_whole_iff_two`).
  - `separators_cut_a_document`: two texts of 11999 characters together, cut for their
    separator.
-/

import CoreHeartbeat.Untrusted.Fence
import Mathlib.Data.Bool.AllAny

namespace CoreHeartbeat.Untrusted

open PyText (isSpace strip)
open Replace (collapseRuns remove InOrder)

def docCharBudget : Nat := 12000

def maxDocsPerTurn : Nat := 10

def separator : Text := ['\n', '\n', '-', '-', '-', '\n', '\n']

def contextNotice : Text := "[attached documents truncated to fit the context window]".toList

def notices : List Text := [contextNotice, truncationSuffix]

variable (u : Tables) (nonce : Nonce)

/-- `docstore.fetch_extracted`, by document; `none` is an exception. -/
abbrev Fetch := String → Option Text

def Fetch.text (fetch : Fetch) (id : String) : Text := (fetch id).getD []

variable (fetch : Fetch)

/-- The loop of `_load_documents`, as the `parts` it makes. -/
def partsOf (remaining : Nat) : List String → List Text
  | [] => []
  | id :: ids =>
    let text := fetch.text id
    if text = [] then partsOf remaining ids
    else
      let chunk := text.take remaining
      if remaining - chunk.length = 0 then [chunk, '\n' :: contextNotice]
      else chunk :: partsOf (remaining - chunk.length) ids

def loadDocuments (ids : List String) : Text :=
  let parts := partsOf fetch docCharBudget (ids.take maxDocsPerTurn)
  if parts = [] then []
  else wrap u nonce (separator.intercalate parts) documentContent docCharBudget documentPreamble

/-! ## The parts -/

def total (texts : List Text) : Nat := (texts.map List.length).sum

variable {fetch}

/-- While the texts leave something of the budget, the loop takes them as they are. -/
theorem partsOf_below {remaining : Nat} {ids : List String} (hne : ∀ id ∈ ids, fetch.text id ≠ [])
    (h : total (ids.map fetch.text) < remaining) : partsOf fetch remaining ids = ids.map fetch.text := by
  induction ids generalizing remaining with
  | nil => rfl
  | cons id ids ih =>
    rw [List.forall_mem_cons] at hne
    simp only [total, List.map_cons, List.sum_cons] at h ih
    have hchunk : (fetch.text id).take remaining = fetch.text id := List.take_of_length_le (by omega)
    rw [partsOf, if_neg hne.1, hchunk, if_neg (by omega), ih hne.2 (by omega)]
    rfl

/-- Texts that fill the budget are followed by the notice. -/
theorem partsOf_filled {remaining : Nat} {ids : List String} (hne : ∀ id ∈ ids, fetch.text id ≠ [])
    (hpos : 0 < remaining) (h : total (ids.map fetch.text) = remaining) :
    partsOf fetch remaining ids = ids.map fetch.text ++ ['\n' :: contextNotice] := by
  induction ids generalizing remaining with
  | nil =>
    simp [total] at h
    omega
  | cons id ids ih =>
    rw [List.forall_mem_cons] at hne
    simp only [total, List.map_cons, List.sum_cons] at h ih
    have hchunk : (fetch.text id).take remaining = fetch.text id := List.take_of_length_le (by omega)
    rw [partsOf, if_neg hne.1, hchunk]
    cases ids with
    | nil =>
      simp only [List.map_nil, List.sum_nil] at h
      rw [if_pos (by omega)]
      rfl
    | cons id' ids =>
      have hlen := List.length_pos_of_ne_nil (hne.2 id' List.mem_cons_self)
      simp only [List.map_cons, List.sum_cons] at h
      rw [if_neg (by omega), ih hne.2 (by omega) (by simp only [List.map_cons, List.sum_cons]; omega)]
      rfl

/-! ## Cleaning a join -/

def Unchanged (t : Text) : Prop := ∀ step ∈ steps u, step t = t

variable {u}

theorem unchanged_iff {t : Text} :
    Unchanged u t ↔ u.nfkc t = t ∧ u.dropFormat t = t ∧ blankControl t = t ∧ collapseBlanks t = t ∧
      collapseNewlines t = t ∧ strip t = t := by
  simp [Unchanged, steps]

theorem clean_eq (t : Text) :
    clean u t = strip (collapseNewlines (collapseBlanks (blankControl (u.dropFormat (u.nfkc t))))) := rfl

theorem clean_of_unchanged {t : Text} (h : Unchanged u t) : clean u t = t := by
  obtain ⟨hnfkc, hformat, hcontrol, hblanks, hnewlines, hstrip⟩ := unchanged_iff.mp h
  rw [clean_eq, hnfkc, hformat, hcontrol, hblanks, hnewlines, hstrip]

theorem dropFormat_ascii {t : Text} (h : ∀ c ∈ t, c.toNat < 128) : u.dropFormat t = t := by
  apply List.filter_eq_self.mpr
  intro c hc
  simp [u.isFormat_ascii c (h c hc)]

theorem nfkc_separator (a b : Text) : u.nfkc (a ++ separator ++ b) = u.nfkc a ++ separator ++ u.nfkc b := by
  have hnil : u.nfkc [] = [] := u.nfkc_ascii [] (by simp)
  have hrule : u.nfkc ['-', '-', '-'] = ['-', '-', '-'] := u.nfkc_ascii _ (List.all_iff_forall_prop.mp (by decide))
  have hmiddle := u.nfkc_newline ['-', '-', '-'] ('\n' :: b)
  have hstart := u.nfkc_newline [] ('-' :: '-' :: '-' :: '\n' :: '\n' :: b)
  have hend := u.nfkc_newline [] b
  rw [List.nil_append, hnil, List.nil_append] at hstart hend
  rw [hrule, hend] at hmiddle
  simp only [List.cons_append, List.nil_append] at hmiddle
  simp only [separator, List.append_assoc, List.cons_append, List.nil_append]
  rw [u.nfkc_newline, hstart, hmiddle]

theorem dropFormat_separator (a b : Text) : u.dropFormat (a ++ separator ++ b) = u.dropFormat a ++ separator ++ u.dropFormat b := by
  have hsep : u.dropFormat separator = separator := dropFormat_ascii (List.all_iff_forall_prop.mp (by decide))
  unfold Tables.dropFormat at hsep ⊢
  rw [List.filter_append, List.filter_append, hsep]

theorem blankControl_separator (a b : Text) :
    blankControl (a ++ separator ++ b) = blankControl a ++ separator ++ blankControl b := by
  have hsep : blankControl separator = separator := by decide
  unfold blankControl at hsep ⊢
  rw [List.map_append, List.map_append, hsep]

theorem collapseBlanks_separator (a b : Text) :
    collapseBlanks (a ++ separator ++ b) = collapseBlanks a ++ separator ++ collapseBlanks b :=
  Replace.collapseRuns_append_of_lacks (List.all_iff_forall_prop.mp (by decide)) (by decide) (by decide) a b

/-- Two newlines between other characters stay two. -/
theorem collapseNewlines_gap {x y : Char} (hx : x ≠ '\n') (hy : y ≠ '\n') (a b : Text) :
    collapseNewlines (a ++ [x] ++ ['\n', '\n'] ++ y :: b) =
      collapseNewlines (a ++ [x]) ++ ['\n', '\n'] ++ collapseNewlines (y :: b) := by
  have hrun : ∀ c ∈ ['\n', '\n'], (c == '\n') = true := List.all_iff_forall_prop.mp (by decide)
  have hshape : a ++ [x] ++ ['\n', '\n'] ++ y :: b = a ++ x :: (['\n', '\n'] ++ y :: b) := by simp
  rw [hshape]
  exact Replace.collapseRuns_gap (by simpa using hx) (by simpa using hy) hrun (by decide) a b

/-- A text with nothing to strip, by its ends. -/
theorem ends_of_strip {t : Text} (h : strip t = t) (hne : t ≠ []) :
    (∃ x rest, t = x :: rest ∧ isSpace x = false) ∧ ∃ front y, t = front ++ [y] ∧ isSpace y = false := by
  obtain ⟨hfirst, hlast⟩ := PyText.strip_eq_self_iff.mp h
  obtain ⟨x, rest, rfl⟩ := List.exists_cons_of_ne_nil hne
  refine ⟨⟨x, rest, rfl, hfirst x rfl⟩, (x :: rest).dropLast, (x :: rest).getLast hne,
    (List.dropLast_append_getLast hne).symm, ?_⟩
  exact hlast _ (List.getLast?_eq_some_getLast hne)

theorem ne_newline {c : Char} (h : isSpace c = false) : c ≠ '\n' := by
  intro heq
  rw [heq] at h
  cases h

theorem collapseNewlines_rule {a : Text} (ha : strip a = a) (ha0 : a ≠ []) (b : Text) :
    collapseNewlines (a ++ '\n' :: '\n' :: '-' :: b) = collapseNewlines a ++ '\n' :: '\n' :: collapseNewlines ('-' :: b) := by
  obtain ⟨-, front, x, rfl, hx⟩ := ends_of_strip ha ha0
  simpa using collapseNewlines_gap (ne_newline hx) (by decide : '-' ≠ '\n') front b

theorem collapseNewlines_separator {a b : Text} (ha : strip a = a) (ha0 : a ≠ []) (hb : strip b = b) (hb0 : b ≠ []) :
    collapseNewlines (a ++ separator ++ b) = collapseNewlines a ++ separator ++ collapseNewlines b := by
  obtain ⟨⟨y, rest, rfl, hy⟩, -⟩ := ends_of_strip hb hb0
  have hrule := collapseNewlines_gap (by decide : '-' ≠ '\n') (ne_newline hy) ['-', '-'] rest
  have hdashes : collapseNewlines (['-', '-'] ++ ['-']) = ['-', '-', '-'] := by decide
  rw [hdashes] at hrule
  have hshape : a ++ separator ++ y :: rest = a ++ '\n' :: '\n' :: '-' :: ('-' :: '-' :: '\n' :: '\n' :: y :: rest) := by
    simp [separator]
  rw [hshape, collapseNewlines_rule ha ha0]
  simp only [List.cons_append, List.nil_append] at hrule
  rw [hrule]
  simp [separator]

theorem strip_append {a b : Text} (ha : strip a = a) (ha0 : a ≠ []) (hb : strip b = b) (hb0 : b ≠ []) (m : Text) :
    strip (a ++ m ++ b) = a ++ m ++ b := by
  obtain ⟨⟨x, rest, rfl, hx⟩, -⟩ := ends_of_strip ha ha0
  obtain ⟨-, front, y, rfl, hy⟩ := ends_of_strip hb hb0
  rw [PyText.strip_eq_self_iff]
  constructor
  · intro c hc
    simp only [List.cons_append, List.head?_cons, Option.mem_some_iff] at hc
    rwa [← hc]
  · intro c hc
    rw [← List.append_assoc, List.getLast?_concat, Option.mem_some_iff] at hc
    rwa [← hc]

theorem unchanged_separator {a b : Text} (ha : Unchanged u a) (ha0 : a ≠ []) (hb : Unchanged u b) (hb0 : b ≠ []) :
    Unchanged u (a ++ separator ++ b) := by
  rw [unchanged_iff] at ha hb ⊢
  obtain ⟨hnfkc, hformat, hcontrol, hblanks, hnewlines, hstrip⟩ := ha
  obtain ⟨hnfkc', hformat', hcontrol', hblanks', hnewlines', hstrip'⟩ := hb
  rw [nfkc_separator, dropFormat_separator, blankControl_separator, collapseBlanks_separator,
    collapseNewlines_separator hstrip ha0 hstrip' hb0, strip_append hstrip ha0 hstrip' hb0, hnfkc, hnfkc', hformat,
    hformat', hcontrol, hcontrol', hblanks, hblanks', hnewlines, hnewlines']
  exact ⟨rfl, rfl, rfl, rfl, rfl, rfl⟩

/-- A join of unchanged texts is unchanged. -/
theorem unchanged_intercalate {texts : List Text} (h : ∀ t ∈ texts, Unchanged u t) (hne : ∀ t ∈ texts, t ≠ [])
    (htexts : texts ≠ []) : Unchanged u (separator.intercalate texts) ∧ separator.intercalate texts ≠ [] := by
  induction texts with
  | nil => contradiction
  | cons t texts ih =>
    rw [List.forall_mem_cons] at h hne
    cases texts with
    | nil =>
      rw [List.intercalate_singleton]
      exact ⟨h.1, hne.1⟩
    | cons t' texts =>
      obtain ⟨hrest, hrest0⟩ := ih h.2 hne.2 (by simp)
      rw [List.intercalate_cons_cons]
      exact ⟨unchanged_separator h.1 hne.1 hrest hrest0, by simp [hne.1]⟩

/-- The notice's own newline goes with the three it makes. -/
theorem clean_filled {a : Text} (ha : Unchanged u a) (ha0 : a ≠ []) :
    clean u (a ++ separator ++ '\n' :: contextNotice) = a ++ separator ++ contextNotice := by
  obtain ⟨hnfkc, hformat, hcontrol, hblanks, hnewlines, hstrip⟩ := unchanged_iff.mp ha
  have hascii : ∀ c ∈ '\n' :: contextNotice, c.toNat < 128 := List.all_iff_forall_prop.mp (by decide +kernel)
  have hcontrol' : blankControl ('\n' :: contextNotice) = '\n' :: contextNotice := by decide +kernel
  have hblanks' : collapseBlanks ('\n' :: contextNotice) = '\n' :: contextNotice := by decide +kernel
  have hnotice : strip contextNotice = contextNotice := by decide +kernel
  have hnotice0 : contextNotice ≠ [] := by decide +kernel
  have hnewlines' : collapseNewlines (a ++ separator ++ '\n' :: contextNotice) = a ++ separator ++ contextNotice := by
    have hshape : a ++ separator ++ '\n' :: contextNotice =
        a ++ '\n' :: '\n' :: '-' :: ('-' :: '-' :: '\n' :: '\n' :: '\n' :: contextNotice) := by simp [separator]
    have hend : collapseNewlines ('-' :: '-' :: '-' :: '\n' :: '\n' :: '\n' :: contextNotice) =
        '-' :: '-' :: '-' :: '\n' :: '\n' :: contextNotice := by decide +kernel
    rw [hshape, collapseNewlines_rule hstrip ha0, hend, hnewlines]
    simp [separator]
  rw [clean_eq, nfkc_separator, hnfkc, u.nfkc_ascii _ hascii, dropFormat_separator, hformat, dropFormat_ascii hascii,
    blankControl_separator, hcontrol, hcontrol', collapseBlanks_separator, hblanks, hblanks', hnewlines',
    strip_append hstrip ha0 hnotice hnotice0]

/-! ## The block -/

variable {nonce}

theorem notice_spec : ∀ notice ∈ notices, '\n' ∉ notice ∧ '[' ∈ notice := by decide +kernel

theorem bracket_notMem_delimiters : '[' ∉ opening documentContent nonce ∧ '[' ∉ closing documentContent nonce := by
  have hnonce : '[' ∉ nonce.text := fun h => absurd (nonce.hex _ h) (by decide +kernel)
  have hopening : '[' ∉ "<<<BEGIN_UNTRUSTED ".toList ++ documentContent.text ++ " id=".toList := by decide +kernel
  have hclosing : '[' ∉ "<<<END_UNTRUSTED ".toList ++ documentContent.text ++ " id=".toList := by decide +kernel
  have hend : '[' ∉ ">>>".toList := by decide +kernel
  have hlacks : ∀ {l : Text}, '[' ∉ l → '[' ∉ l ++ nonce.text ++ ">>>".toList := by
    intro l hl h
    rcases List.mem_append.mp h with h | h
    · exact (List.mem_append.mp h).elim hl hnonce
    · exact hend h
  exact ⟨hlacks hopening, hlacks hclosing⟩

theorem infix_block_iff {pat before opening closing after : Text} (hline : '\n' ∉ pat) (hne : pat ≠ [])
    (hbefore : ¬ pat <:+: before) (hopening : ¬ pat <:+: opening) (hclosing : ¬ pat <:+: closing)
    (hafter : ¬ pat <:+: after) (body : Text) :
    pat <:+: before ++ '\n' :: '\n' :: (opening ++ '\n' :: (body ++ '\n' :: closing) ++ '\n' :: '\n' :: after) ↔
      pat <:+: body := by
  have hcons : ∀ t, pat <:+: '\n' :: t ↔ pat <:+: t := by
    intro t
    have hsplit := Replace.infix_append_cons_iff hline [] t
    rwa [List.nil_append, List.infix_nil, or_iff_right hne] at hsplit
  simp only [Replace.infix_append_cons_iff hline, hcons]
  tauto

/-- Around the body nothing reads like a notice. -/
theorem notice_infix_block {notice : Text} (h : notice ∈ notices) (body : Text) :
    notice <:+: wrapped documentPreamble (fenced documentContent nonce body) ↔ notice <:+: body := by
  obtain ⟨hline, hbracket⟩ := notice_spec notice h
  have hlacks : ∀ {t : Text}, '[' ∉ t → ¬ notice <:+: t := fun ht hin => ht (hin.mem hbracket)
  have hne : notice ≠ [] := List.ne_nil_of_mem hbracket
  have hpreamble : '[' ∉ documentPreamble := by decide +kernel
  have hreassert : '[' ∉ reassertSuffix := by decide +kernel
  unfold wrapped fenced
  exact infix_block_iff hline hne (hlacks hpreamble) (hlacks bracket_notMem_delimiters.1)
    (hlacks bracket_notMem_delimiters.2) (hlacks hreassert) body

theorem block_inj {body body' : Text}
    (h : wrapped documentPreamble (fenced documentContent nonce body) =
      wrapped documentPreamble (fenced documentContent nonce body')) : body = body' := by
  unfold wrapped fenced at h
  have hfence := List.append_cancel_right (List.cons.inj (List.cons.inj (List.append_cancel_left h)).2).2
  exact List.append_cancel_right (List.cons.inj (List.append_cancel_left hfence)).2

/-- A cut text keeps its mark in the fence. -/
theorem truncated_notice {t : Text} {limit : Nat} (h : limit < (clean u t).length) :
    truncationSuffix <:+: fenceBody u nonce t limit := by
  have hspace : ' ' ∉ nonce.text := fun hc => absurd (nonce.hex _ hc) (by decide +kernel)
  have hsuffix : truncationSuffix = ' ' :: "…[truncated]".toList := by decide +kernel
  have hshort : "…[truncated]".toList.length < 16 := by decide +kernel
  have hmark : remove nonce.text 0 "…[truncated]".toList = "…[truncated]".toList := by
    apply Replace.remove_eq_self
    intro hin
    have hlen := hin.length_le
    rw [nonce.length_text] at hlen
    omega
  rw [fenceBody, sanitize_eq u t limit (Int.natCast_nonneg limit), if_pos (by exact_mod_cast h), hsuffix,
    Replace.remove_append_cons nonce_ne_nil hspace (Nat.zero_le _), hmark]
  exact List.infix_append_right

/-! ## Whole documents -/

variable (nonce)

/-- The texts stand between the delimiters in full and in order, and nothing in the block
    tells of a cut. -/
def Whole (texts : List Text) (block : Text) : Prop :=
  (texts ≠ [] → ∃ body, block = wrapped documentPreamble (fenced documentContent nonce body) ∧ InOrder texts body) ∧
    ∀ notice ∈ notices, ¬ notice <:+: block

/-- The texts fit with their separators, leave something of the budget, and none has the
    nonce or a notice in it. -/
structure Fits (texts : List Text) : Prop where
  joined : total texts + separator.length * (texts.length - 1) ≤ docCharBudget
  left : total texts < docCharBudget
  noNonce : ∀ t ∈ texts, ¬ nonce.text <:+: t
  noNotice : ∀ t ∈ texts, ∀ notice ∈ notices, ¬ notice <:+: t

variable (u fetch)

structure Attached (ids : List String) : Prop where
  count : ids.length ≤ maxDocsPerTurn
  nonempty : ∀ id ∈ ids, fetch.text id ≠ []
  unchanged : ∀ id ∈ ids, Unchanged u (fetch.text id)
  fitting : total (ids.map fetch.text) ≤ docCharBudget

variable {u fetch nonce}

theorem loadDocuments_eq {ids : List String} (hcount : ids.length ≤ maxDocsPerTurn)
    (hne : partsOf fetch docCharBudget ids ≠ []) :
    loadDocuments u nonce fetch ids = wrapped documentPreamble (fenced documentContent nonce
      (fenceBody u nonce (separator.intercalate (partsOf fetch docCharBudget ids)) docCharBudget)) := by
  unfold loadDocuments
  rw [List.take_of_length_le hcount, if_neg hne]
  rfl

theorem not_whole_of_truncated {texts : List Text} {t : Text} (h : docCharBudget < (clean u t).length) :
    ¬ Whole nonce texts (wrapped documentPreamble (fenced documentContent nonce (fenceBody u nonce t docCharBudget))) := by
  intro hwhole
  have hnotice : truncationSuffix ∈ notices := by simp [notices]
  exact hwhole.2 _ hnotice ((notice_infix_block hnotice _).mpr (truncated_notice h))

/-- The separators have neither the nonce nor a notice, in whole or in part. -/
theorem infix_join_iff {pat : Text} (hne : pat ≠ []) (hline : '\n' ∉ pat) (hdash : '-' ∉ pat) (texts : List Text) :
    pat <:+: separator.intercalate texts ↔ ∃ t ∈ texts, pat <:+: t := by
  apply Replace.infix_intercalate_iff _ (by decide) hne
  intro c hc
  simp only [separator, List.mem_cons, List.not_mem_nil, or_false] at hc
  rcases hc with rfl | rfl | rfl | rfl | rfl | rfl | rfl <;> assumption

theorem nonce_infix_join_iff (texts : List Text) :
    nonce.text <:+: separator.intercalate texts ↔ ∃ t ∈ texts, nonce.text <:+: t :=
  infix_join_iff nonce_ne_nil newline_notMem_nonce (fun h => absurd (nonce.hex _ h) (by decide +kernel)) texts

theorem notice_infix_join_iff {notice : Text} (h : notice ∈ notices) (texts : List Text) :
    notice <:+: separator.intercalate texts ↔ ∃ t ∈ texts, notice <:+: t := by
  have hdash : ∀ notice ∈ notices, '-' ∉ notice := by decide +kernel
  have hspec := notice_spec notice h
  exact infix_join_iff (List.ne_nil_of_mem hspec.2) hspec.1 (hdash notice h) texts

/-- A nonce taken out of a text leaves no room for all of them. -/
theorem not_inOrder_of_nonce {texts : List Text} (h : nonce.text <:+: separator.intercalate texts) :
    ¬ InOrder texts (remove nonce.text 0 (separator.intercalate texts)) := by
  intro horder
  have hall : nonce.text.countP (fun c => decide (c ∈ hexDigits)) = 16 := by
    rw [List.countP_eq_length.mpr fun c hc => by simpa using nonce.hex c hc, nonce.length_text]
  have hlt := Replace.countP_remove_lt (by rw [hall]; decide) h
  have hsep : separator.countP (fun c => decide (c ∈ hexDigits)) = 0 := by decide +kernel
  have hroom := horder.sum_countP_le fun c => decide (c ∈ hexDigits)
  rw [Replace.countP_intercalate hsep] at hlt
  omega

/-- Texts that the fence does not cut. -/
theorem whole_iff_of_joined {texts : List Text} (hne : ∀ t ∈ texts, t ≠ []) (hclean : ∀ t ∈ texts, Unchanged u t)
    (htexts : texts ≠ []) (hlen : (separator.intercalate texts).length ≤ docCharBudget) :
    Whole nonce texts (wrapped documentPreamble (fenced documentContent nonce
        (fenceBody u nonce (separator.intercalate texts) docCharBudget))) ↔
      (∀ t ∈ texts, ¬ nonce.text <:+: t) ∧ ∀ t ∈ texts, ∀ notice ∈ notices, ¬ notice <:+: t := by
  obtain ⟨hjoin, -⟩ := unchanged_intercalate hclean hne htexts
  have hbody : fenceBody u nonce (separator.intercalate texts) docCharBudget =
      remove nonce.text 0 (separator.intercalate texts) := by
    have hfits : ¬ (docCharBudget : Int) < (separator.intercalate texts).length := by exact_mod_cast Nat.not_lt.mpr hlen
    rw [fenceBody, sanitize_eq u _ _ (Int.natCast_nonneg _), clean_of_unchanged hjoin, if_neg hfits]
  rw [hbody]
  by_cases hnonce : nonce.text <:+: separator.intercalate texts
  · obtain ⟨t, ht, hin⟩ := (nonce_infix_join_iff texts).mp hnonce
    apply iff_of_false
    · intro hwhole
      obtain ⟨body, hblock, horder⟩ := hwhole.1 htexts
      rw [← block_inj hblock] at horder
      exact not_inOrder_of_nonce hnonce horder
    · intro h
      exact h.1 t ht hin
  · have hnone : ∀ t ∈ texts, ¬ nonce.text <:+: t := fun t ht hin => hnonce ((nonce_infix_join_iff texts).mpr ⟨t, ht, hin⟩)
    rw [Replace.remove_eq_self hnonce, and_iff_right hnone]
    constructor
    · intro hwhole t ht notice hnotice hin
      have hjoined := (notice_infix_join_iff hnotice texts).mpr ⟨t, ht, hin⟩
      exact hwhole.2 notice hnotice ((notice_infix_block hnotice _).mpr hjoined)
    · intro h
      have hsame : List.Forall₂ (· <:+: ·) texts texts := List.forall₂_same.mpr fun t _ => List.infix_rfl
      refine ⟨fun _ => ⟨_, rfl, Replace.inOrder_intercalate separator hsame (List.Sublist.refl texts)⟩, ?_⟩
      intro notice hnotice hin
      obtain ⟨t, ht, hin⟩ := (notice_infix_join_iff hnotice texts).mp ((notice_infix_block hnotice _).mp hin)
      exact h t ht notice hnotice hin

/-- The separators take texts that fit together over the budget. -/
theorem not_whole_of_long {ids : List String} (h : Attached u fetch ids) (hids : ids.map fetch.text ≠ [])
    (hleft : total (ids.map fetch.text) < docCharBudget)
    (hlen : docCharBudget < (separator.intercalate (ids.map fetch.text)).length) :
    ¬ Whole nonce (ids.map fetch.text) (loadDocuments u nonce fetch ids) := by
  have hparts := partsOf_below h.nonempty hleft
  have hjoin := unchanged_intercalate (by simpa using h.unchanged) (by simpa using h.nonempty) hids
  rw [loadDocuments_eq h.count (by rwa [hparts]), hparts]
  apply not_whole_of_truncated
  rwa [clean_of_unchanged hjoin.1]

/-- Texts that fill the budget come with a notice, and are cut with it. -/
theorem not_whole_of_filled {ids : List String} (h : Attached u fetch ids) (hids : ids.map fetch.text ≠ [])
    (hfilled : total (ids.map fetch.text) = docCharBudget) :
    ¬ Whole nonce (ids.map fetch.text) (loadDocuments u nonce fetch ids) := by
  have hparts := partsOf_filled h.nonempty (by decide) hfilled
  have hjoin := unchanged_intercalate (by simpa using h.unchanged) (by simpa using h.nonempty) hids
  rw [loadDocuments_eq h.count (by rw [hparts]; simp), hparts]
  apply not_whole_of_truncated
  rw [Replace.intercalate_concat separator hids, clean_filled hjoin.1 hjoin.2, List.length_append, List.length_append,
    Replace.length_intercalate]
  have hsep : separator.length = 7 := rfl
  unfold total at hfilled
  omega

/-- **Attached documents within the budget arrive whole exactly when they fit with their
    separators, leave something of the budget, and have neither the nonce nor a notice in
    them.** -/
theorem documents_whole_iff (ids : List String) (h : Attached u fetch ids) :
    Whole nonce (ids.map fetch.text) (loadDocuments u nonce fetch ids) ↔ Fits nonce (ids.map fetch.text) := by
  have hne : ∀ t ∈ ids.map fetch.text, t ≠ [] := by simpa using h.nonempty
  have hclean : ∀ t ∈ ids.map fetch.text, Unchanged u t := by simpa using h.unchanged
  have hlength := Replace.length_intercalate separator (ids.map fetch.text)
  by_cases hids : ids.map fetch.text = []
  · obtain rfl := List.map_eq_nil_iff.mp hids
    apply iff_of_true
    · refine ⟨fun hnil => absurd rfl hnil, ?_⟩
      intro notice hnotice hin
      exact List.ne_nil_of_mem (notice_spec notice hnotice).2 (List.infix_nil.mp hin)
    · exact ⟨by simp [total], by simp [total, docCharBudget], by simp, by simp⟩
  · rcases Nat.lt_or_eq_of_le h.fitting with hleft | hfilled
    · by_cases hlen : (separator.intercalate (ids.map fetch.text)).length ≤ docCharBudget
      · have hparts := partsOf_below h.nonempty hleft
        rw [loadDocuments_eq h.count (by rwa [hparts]), hparts, whole_iff_of_joined hne hclean hids hlen]
        rw [hlength] at hlen
        exact ⟨fun hpure => ⟨hlen, hleft, hpure.1, hpure.2⟩, fun hfits => ⟨hfits.noNonce, hfits.noNotice⟩⟩
      · apply iff_of_false (not_whole_of_long h hids hleft (Nat.lt_of_not_le hlen))
        intro hfits
        exact hlen (hlength ▸ hfits.joined)
    · apply iff_of_false (not_whole_of_filled h hids hfilled)
      intro hfits
      exact absurd hfits.left (by omega)

def notesAndList : Fetch := fun id => some (if id = "a" then "meeting notes" else "shopping list").toList

/-- Two documents with a separator between them, and a fence around both. -/
theorem documents_whole_iff_two :
    (Whole splicedNonce (["a", "b"].map notesAndList.text)
        (loadDocuments Tables.ascii splicedNonce notesAndList ["a", "b"]) ↔
      Fits splicedNonce (["a", "b"].map notesAndList.text)) ∧
      Fits splicedNonce (["a", "b"].map notesAndList.text) := by
  refine ⟨documents_whole_iff ["a", "b"] ⟨by decide, by decide +kernel, ?_, by decide +kernel⟩, ?_⟩
  · simp only [List.mem_cons, List.not_mem_nil, or_false, forall_eq_or_imp, forall_eq, unchanged_iff]
    decide +kernel
  · exact ⟨by decide +kernel, by decide +kernel, by decide +kernel, by decide +kernel⟩

/-- Characters that no step touches. -/
theorem unchanged_plain {t : Text} (hascii : ∀ c ∈ t, c.toNat < 128) (hplain : ∀ c ∈ t, isSpace c = false)
    (hcontrol : ∀ c ∈ t, isControl c = false) : Unchanged u t := by
  have hblank : ∀ c ∈ t, isBlank c = false := by
    intro c hc
    by_contra h
    simp only [isBlank, Bool.not_eq_false, Bool.or_eq_true, beq_iff_eq] at h
    have hspace := hplain c hc
    rcases h with rfl | rfl <;> exact absurd hspace (by decide)
  have hnewline : ∀ c ∈ t, (c == '\n') = false := fun c hc => by simpa using ne_newline (hplain c hc)
  rw [unchanged_iff]
  refine ⟨u.nfkc_ascii t hascii, dropFormat_ascii hascii, ?_, Replace.collapseRuns_eq_self hblank (by decide),
    Replace.collapseRuns_eq_self hnewline (by decide), ?_⟩
  · have hid : blankControl t = t.map id := List.map_congr_left fun c hc => by simp [hcontrol c hc]
    rw [hid, List.map_id]
  · rw [PyText.strip_eq_self_iff]
    exact ⟨fun c hc => hplain c (List.mem_of_mem_head? hc), fun c hc => hplain c (List.mem_of_getLast? hc)⟩

/-- Two documents, of 6000 and 5999 characters. -/
def twoDocuments : Fetch := fun id =>
  if id = "a" then some (List.replicate 6000 'x') else some (List.replicate 5999 'y')

/-- Two texts of 11999 characters come out cut. -/
theorem not_whole_of_two {x y : Text} (hx : Unchanged u x) (hy : Unchanged u y) (hxlen : x.length = 6000)
    (hylen : y.length = 5999) {ids : List String} (hids : ids.map fetch.text = [x, y]) :
    Attached u fetch ids ∧ ¬ Whole nonce (ids.map fetch.text) (loadDocuments u nonce fetch ids) := by
  have hattached : Attached u fetch ids := by
    constructor
    · have hcount := congrArg List.length hids
      simp only [List.length_map, List.length_cons, List.length_nil] at hcount
      rw [hcount]
      decide
    · have hne : ∀ t ∈ [x, y], t ≠ [] := by simp [← List.length_pos_iff, hxlen, hylen]
      rwa [← hids, List.forall_mem_map] at hne
    · have hclean : ∀ t ∈ [x, y], Unchanged u t := by simpa using ⟨hx, hy⟩
      rwa [← hids, List.forall_mem_map] at hclean
    · rw [hids]
      simp [total, docCharBudget, hxlen, hylen]
  refine ⟨hattached, not_whole_of_long hattached (by simp [hids]) ?_ ?_⟩
  · simp [hids, total, docCharBudget, hxlen, hylen]
  · simp [hids, docCharBudget, separator, hxlen, hylen]

theorem separators_cut_a_document :
    ¬ ∀ (nonce : Nonce) (fetch : Fetch) (ids : List String), Attached Tables.ascii fetch ids →
      Whole nonce (ids.map fetch.text) (loadDocuments Tables.ascii nonce fetch ids) := by
  intro h
  have htexts : ["a", "b"].map twoDocuments.text = [List.replicate 6000 'x', List.replicate 5999 'y'] := rfl
  have hrow : ∀ (n : Nat) (c : Char), c.toNat < 128 → isSpace c = false → isControl c = false →
      Unchanged Tables.ascii (List.replicate n c) := by
    intro n c hascii hplain hcontrol
    apply unchanged_plain <;> intro d hd <;> rw [List.eq_of_mem_replicate hd] <;> assumption
  obtain ⟨hattached, hcut⟩ := not_whole_of_two (hrow 6000 'x' (by decide) (by decide) (by decide))
    (hrow 5999 'y' (by decide) (by decide) (by decide)) List.length_replicate List.length_replicate htexts
  exact hcut (h splicedNonce twoDocuments ["a", "b"] hattached)

end CoreHeartbeat.Untrusted
