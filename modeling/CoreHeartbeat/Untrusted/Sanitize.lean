/-
  CoreHeartbeat.Untrusted.Sanitize — untrusted text before it reaches a model (`sanitize` of
  `services/untrusted.py`): the cleaning steps, and the cut of a text over the limit.

  The steps are NFKC, format characters dropped, control characters blanked, runs of blanks and
  of newlines collapsed, and the ends stripped; the tables of `unicodedata` are a parameter. A
  text over the limit is then cut to it, and the cut goes back to the last plain space of what
  the limit lets through, so as not to end inside a word.

  Whitespace of another kind does not stop it: where lines or columns are parted by newlines and
  tabs, it takes every word since that space along. What the cut may take is the one word that
  the limit goes through (`KeepsWords`); a word ends where whitespace comes right after
  something else.

  Proved:
  - `keepsWords_iff`: the cut is right when no word ends after the last plain space within the
    limit and up to the character behind it (`NoWordEnds`).
  - `truncation_keeps_words_iff`: it takes no more than the word it goes through exactly then
    (`truncation_keeps_words_iff_plain`).
  - `the_cut_takes_whole_lines`: two lines of a table and the beginning of a third go.
-/

import CoreHeartbeat.Lib.PyText
import CoreHeartbeat.Lib.Replace

namespace CoreHeartbeat.Untrusted

open PyText (isSpace strip)
open Replace (collapseRuns)

abbrev Text := List Char

/-! ## Cleaning -/

/-- Python's `unicodedata`. -/
structure Tables where
  /-- `normalize("NFKC", t)`. -/
  nfkc : Text → Text
  /-- `category(c) == "Cf"`. -/
  isFormat : Char → Bool
  nfkc_ascii : ∀ t, (∀ c ∈ t, c.toNat < 128) → nfkc t = t
  /-- A newline composes with nothing and stays where it is. -/
  nfkc_newline : ∀ a b, nfkc (a ++ '\n' :: b) = nfkc a ++ '\n' :: nfkc b
  isFormat_ascii : ∀ c : Char, c.toNat < 128 → isFormat c = false

def Tables.ascii : Tables where
  nfkc t := t
  isFormat _ := false
  nfkc_ascii _ _ := rfl
  nfkc_newline _ _ := rfl
  isFormat_ascii _ _ := rfl

/-- `_CONTROL`. -/
def isControl (c : Char) : Bool :=
  let n := c.toNat
  n ≤ 0x8 || n == 0xb || n == 0xc || (0xe ≤ n && n ≤ 0x1f) || n == 0x7f

def isBlank (c : Char) : Bool := c == ' ' || c == '\t'

def blankControl (t : Text) : Text := t.map fun c => if isControl c then ' ' else c

def collapseBlanks (t : Text) : Text := collapseRuns isBlank 2 [' '] [] t

def collapseNewlines (t : Text) : Text := collapseRuns (· == '\n') 3 ['\n', '\n'] [] t

variable (u : Tables)

def Tables.dropFormat (t : Text) : Text := t.filter fun c => !u.isFormat c

/-- What `sanitize` does to a text before it looks at its length, in order. -/
def steps : List (Text → Text) := [u.nfkc, u.dropFormat, blankControl, collapseBlanks, collapseNewlines, strip]

def clean (t : Text) : Text := (steps u).foldl (fun t f => f t) t

/-! ## The cut -/

/-- `t[:limit]`. -/
def upTo (t : Text) (limit : Int) : Text :=
  t.take (if 0 ≤ limit then limit.toNat else t.length - (-limit).toNat)

/-- `t.rsplit(sep, 1)[0]`. -/
def beforeLast (sep : Char) (t : Text) : Text := if sep ∈ t then (t.rdropWhile (· != sep)).dropLast else t

def truncationSuffix : Text := " …[truncated]".toList

def maxUntrustedChars : Int := 8000

def sanitize (t : Text) (limit : Int := maxUntrustedChars) : Text :=
  if t = [] then []
  else
    let t := clean u t
    if limit < t.length then beforeLast ' ' (upTo t limit) ++ truncationSuffix else t

theorem clean_nil : clean u [] = [] := by
  have hnfkc : u.nfkc [] = [] := u.nfkc_ascii [] (by simp)
  show strip (collapseNewlines (collapseBlanks (blankControl (u.dropFormat (u.nfkc []))))) = []
  rw [hnfkc]
  rfl

/-- The empty text needs no branch of its own. -/
theorem sanitize_eq (t : Text) (limit : Int) (hlimit : 0 ≤ limit) :
    sanitize u t limit = if limit < (clean u t).length then beforeLast ' ' (upTo (clean u t) limit) ++ truncationSuffix
      else clean u t := by
  unfold sanitize
  split
  · rename_i hnil
    rw [hnil, clean_nil, if_neg (by simpa using hlimit)]
  · rfl

theorem upTo_natCast (t : Text) (n : Nat) : upTo t n = t.take n := by simp [upTo]

/-! ### The last plain space -/

theorem split_last_unique {c : Char} {a b a' b' : Text} (h : a ++ c :: b = a' ++ c :: b') (hb : c ∉ b) (hb' : c ∉ b') :
    a = a' ∧ b = b' := by
  rcases List.append_eq_append_iff.mp h with ⟨m, rfl, hm⟩ | ⟨m, rfl, hm⟩
  · cases m with
    | nil => simpa using hm
    | cons d m =>
      rw [List.cons_append, List.cons.injEq] at hm
      rw [hm.2] at hb
      simp at hb
  · cases m with
    | nil => simpa using hm.symm
    | cons d m =>
      rw [List.cons_append, List.cons.injEq] at hm
      rw [hm.2] at hb'
      simp at hb'

theorem beforeLast_append {sep : Char} {a b : Text} (hb : sep ∉ b) : beforeLast sep (a ++ sep :: b) = a := by
  have hall : ∀ c ∈ b, (c != sep) = true := by
    intro c hc
    simpa using fun heq : c = sep => hb (heq ▸ hc)
  have hdrop : (a ++ sep :: b).rdropWhile (· != sep) = a ++ [sep] := by
    rw [PyText.rdropWhile_append_cons (by simp), List.rdropWhile_eq_nil_iff.mpr hall]
  rw [beforeLast, if_pos (by simp), hdrop, List.dropLast_concat]

theorem exists_last {sep : Char} {t : Text} (h : sep ∈ t) : ∃ a b, t = a ++ sep :: b ∧ sep ∉ b := by
  obtain ⟨b, a, hsplit, hb⟩ := List.eq_append_cons_of_mem (List.mem_reverse.mpr h)
  refine ⟨a.reverse, b.reverse, ?_, by simpa using hb⟩
  rw [← List.reverse_reverse t, hsplit]
  simp

/-! ## Whole words -/

/-- A word ends in `t`: whitespace right after something else. -/
def WordEnds (t : Text) : Prop := ∃ x y, [x, y] <:+: t ∧ isSpace x = false ∧ isSpace y = true

theorem wordEnds_cons {x y : Char} (hx : isSpace x = false) (hy : isSpace y = true) {t : Text} (h : y ∈ t) :
    WordEnds (x :: t) := by
  induction t generalizing x with
  | nil => cases h
  | cons z t ih =>
    by_cases hz : isSpace z = true
    · exact ⟨x, z, List.IsPrefix.isInfix ⟨t, rfl⟩, hx, hz⟩
    · have hmem : y ∈ t := by
        rcases List.mem_cons.mp h with rfl | hmem
        · contradiction
        · exact hmem
      obtain ⟨v, w, hin, hv, hw⟩ := ih (by simpa using hz) hmem
      exact ⟨v, w, List.infix_cons hin, hv, hw⟩

theorem not_wordEnds_iff {t : Text} :
    ¬ WordEnds t ↔ ∃ gap word, t = gap ++ word ∧ (∀ c ∈ gap, isSpace c = true) ∧ ∀ c ∈ word, isSpace c = false := by
  constructor
  · intro h
    refine ⟨t.takeWhile isSpace, t.dropWhile isSpace, List.takeWhile_append_dropWhile.symm,
      fun c hc => List.mem_takeWhile_imp hc, ?_⟩
    cases hword : t.dropWhile isSpace with
    | nil => simp
    | cons x rest =>
      have hx : isSpace x = false := by
        have hhead : isSpace ((t.dropWhile isSpace).head (by simp [hword])) = false :=
          List.head_dropWhile_not isSpace _
        simpa only [hword, List.head_cons] using hhead
      intro c hc
      rcases List.mem_cons.mp hc with rfl | hc
      · exact hx
      · by_contra hspace
        obtain ⟨v, w, hin, hv, hw⟩ := wordEnds_cons hx (by simpa using hspace) hc
        rw [← hword] at hin
        exact h ⟨v, w, hin.trans (List.dropWhile_suffix isSpace).isInfix, hv, hw⟩
  · intro h
    obtain ⟨gap, word, rfl, hgap, hword⟩ := h
    intro hends
    obtain ⟨x, y, hin, hx, hy⟩ := hends
    rcases List.infix_append_iff_ne_nil.mp hin with hin | hin | ⟨l, r, hl, -, hcut, hsuffix, -⟩
    · have hspace := hgap x (hin.mem (by simp))
      simp [hx] at hspace
    · have hplain := hword y (hin.mem (by simp))
      simp [hy] at hplain
    · obtain ⟨d, l, rfl⟩ := List.exists_cons_of_ne_nil hl
      obtain ⟨rfl, -⟩ := List.cons.inj hcut
      have hspace := hgap x (hsuffix.mem (by simp))
      simp [hx] at hspace

/-- What `kept` lacks of the first `limit` characters of `t` belongs to the one word that
    the limit cuts, but for the whitespace before it. -/
def KeepsWords (t : Text) (limit : Int) (kept : Text) : Prop :=
  kept <+: t ∧ kept.length ≤ limit ∧
    ∃ gap word, upTo t limit = kept ++ gap ++ word ∧ (∀ c ∈ gap, isSpace c = true) ∧ (∀ c ∈ word, isSpace c = false) ∧
      (word ≠ [] → ∃ next, upTo t (limit + 1) = kept ++ gap ++ word ++ [next] ∧ isSpace next = false)

/-- No word ends between the last plain space within the limit and the character right
    after the limit. -/
def NoWordEnds (t : Text) (limit : Int) : Prop :=
  ∀ before tail next, upTo t (limit + 1) = before ++ ' ' :: (tail ++ [next]) → ' ' ∉ tail → ¬ WordEnds (tail ++ [next])

section Cut

variable {t : Text} {n : Nat} (hn : n < t.length)

include hn

theorem upTo_succ : upTo t (n + 1 : Int) = upTo t n ++ [t[n]] := by
  have hcast : (n + 1 : Int) = ((n + 1 : Nat) : Int) := by simp
  rw [hcast, upTo_natCast, upTo_natCast, List.take_succ_eq_append_getElem hn]

variable {kept tail : Text} (hsplit : upTo t n = kept ++ ' ' :: tail)

include hsplit

theorem noWordEnds_iff_of_split (htail : ' ' ∉ tail) :
    NoWordEnds t n ↔
      ∃ gap word, tail ++ [t[n]] = gap ++ word ∧ (∀ c ∈ gap, isSpace c = true) ∧ ∀ c ∈ word, isSpace c = false := by
  rw [← not_wordEnds_iff]
  constructor
  · intro h
    apply h kept tail t[n] _ htail
    rw [upTo_succ hn, hsplit]
    simp
  · intro h before tail' next hcut htail'
    have hcut' : upTo t n ++ [t[n]] = (before ++ ' ' :: tail') ++ [next] := by
      rw [← upTo_succ hn, hcut]
      simp
    obtain ⟨hfront, hnext⟩ := List.append_inj' hcut' rfl
    obtain ⟨-, rfl⟩ := split_last_unique (hsplit.symm.trans hfront) htail htail'
    rwa [← List.singleton_inj.mp hnext]

/-- What the word that the limit cuts leaves of the tail. -/
theorem split_of_keepsWords (h : KeepsWords t n kept) :
    ∃ gap word, tail ++ [t[n]] = gap ++ word ∧ (∀ c ∈ gap, isSpace c = true) ∧ ∀ c ∈ word, isSpace c = false := by
  obtain ⟨-, -, gap, word, hcut, hgap, hword, hnext⟩ := h
  have htail' : ' ' :: tail = gap ++ word := by
    rw [hsplit, List.append_assoc] at hcut
    exact List.append_cancel_left hcut
  cases gap with
  | nil =>
    have hblank := hword ' ' (by rw [← List.nil_append word, ← htail']; simp)
    exact absurd hblank (by decide)
  | cons d gap =>
    obtain ⟨-, rfl⟩ := List.cons.inj htail'
    rw [List.forall_mem_cons] at hgap
    by_cases hend : isSpace t[n] = true
    · -- The limit is at the end of a word, so that none is cut.
      have hnil : word = [] := by
        by_contra hne
        obtain ⟨next, hcut', hplain⟩ := hnext hne
        rw [upTo_succ hn, hcut] at hcut'
        rw [List.singleton_inj.mp (List.append_cancel_left hcut'), hplain] at hend
        cases hend
      refine ⟨gap ++ [t[n]], [], by simp [hnil], ?_, by simp⟩
      simpa [or_imp, forall_and, hend] using hgap.2
    · refine ⟨gap, word ++ [t[n]], by simp, hgap.2, ?_⟩
      simpa [or_imp, forall_and, hend] using hword

omit hn in
theorem prefix_and_le_of_split : kept <+: t ∧ (kept.length : Int) ≤ n := by
  have hinit : kept <+: t.take n := by
    rw [← upTo_natCast t n, hsplit]
    exact List.prefix_append kept _
  refine ⟨hinit.trans (List.take_prefix n t), ?_⟩
  exact_mod_cast hinit.length_le.trans (List.length_take_le n t)

theorem keepsWords_of_split {gap word : Text} (hcut : tail ++ [t[n]] = gap ++ word) (hgap : ∀ c ∈ gap, isSpace c = true)
    (hword : ∀ c ∈ word, isSpace c = false) : KeepsWords t n kept := by
  obtain ⟨hinit, hbound⟩ := prefix_and_le_of_split hsplit
  refine ⟨hinit, hbound, ?_⟩
  rcases List.eq_nil_or_concat word with rfl | ⟨w, z, rfl⟩
  · -- Nothing but whitespace goes.
    rw [List.append_nil] at hcut
    refine ⟨' ' :: tail, [], by simp [hsplit], ?_, by simp, by simp⟩
    rw [List.forall_mem_cons]
    exact ⟨by decide, fun c hc => hgap c (hcut ▸ List.mem_append_left _ hc)⟩
  · rw [List.concat_eq_append] at hcut hword
    rw [← List.append_assoc] at hcut
    obtain ⟨rfl, hlast⟩ := List.append_inj' hcut rfl
    rw [List.forall_mem_append] at hword
    refine ⟨' ' :: gap, w, by simp [hsplit], ?_, hword.1, fun _ => ⟨t[n], by simp [upTo_succ hn, hsplit], ?_⟩⟩
    · rw [List.forall_mem_cons]
      exact ⟨by decide, hgap⟩
    · rw [List.singleton_inj.mp hlast]
      exact hword.2 z (by simp)

theorem keepsWords_iff_of_split :
    KeepsWords t n kept ↔
      ∃ gap word, tail ++ [t[n]] = gap ++ word ∧ (∀ c ∈ gap, isSpace c = true) ∧ ∀ c ∈ word, isSpace c = false := by
  constructor
  · intro h
    exact split_of_keepsWords hn hsplit h
  · intro h
    obtain ⟨gap, word, hcut, hgap, hword⟩ := h
    exact keepsWords_of_split hn hsplit hcut hgap hword

omit hsplit in
/-- The cut is right when no word ends after the last plain space. -/
theorem keepsWords_iff : KeepsWords t n (beforeLast ' ' (upTo t n)) ↔ NoWordEnds t n := by
  by_cases hspace : ' ' ∈ upTo t n
  · obtain ⟨kept, tail, hsplit, htail⟩ := exists_last hspace
    have hkept : beforeLast ' ' (upTo t n) = kept := by rw [hsplit, beforeLast_append htail]
    rw [hkept, keepsWords_iff_of_split hn hsplit, noWordEnds_iff_of_split hn hsplit htail]
  · have hkept : beforeLast ' ' (upTo t n) = t.take n := by rw [beforeLast, if_neg hspace, upTo_natCast]
    have hlen : ((t.take n).length : Int) ≤ n := by exact_mod_cast List.length_take_le n t
    rw [hkept]
    apply iff_of_true
    · exact ⟨List.take_prefix n t, hlen, [], [], by simp [upTo_natCast], by simp, by simp, by simp⟩
    · intro before tail next hcut
      have hcut' : upTo t n ++ [t[n]] = (before ++ ' ' :: tail) ++ [next] := by
        rw [← upTo_succ hn, hcut]
        simp
      obtain ⟨hfront, -⟩ := List.append_inj' hcut' rfl
      rw [hfront] at hspace
      simp at hspace

end Cut

/-- **What a cut takes: no more than the word it goes through exactly when no word ends
    after the last plain space within the limit.** -/
theorem truncation_keeps_words_iff (t : Text) (limit : Int) (hlimit : 1 ≤ limit) (hlong : limit < (clean u t).length) :
    (∃ kept, sanitize u t limit = kept ++ truncationSuffix ∧ KeepsWords (clean u t) limit kept) ↔
      NoWordEnds (clean u t) limit := by
  obtain ⟨n, rfl⟩ := Int.eq_ofNat_of_zero_le (Int.le_trans (by decide) hlimit)
  rw [← keepsWords_iff (by exact_mod_cast hlong), sanitize_eq u t n (Int.natCast_nonneg n), if_pos hlong]
  constructor
  · intro h
    obtain ⟨kept, hcut, hkeeps⟩ := h
    rwa [List.append_cancel_right hcut]
  · intro h
    exact ⟨_, rfl, h⟩

/-- Single spaces between the words: the cut takes the beginning of one. -/
theorem truncation_keeps_words_iff_plain :
    (∃ kept, sanitize Tables.ascii "go to the gate".toList 8 = kept ++ truncationSuffix ∧
        KeepsWords (clean Tables.ascii "go to the gate".toList) 8 kept) ↔
      NoWordEnds (clean Tables.ascii "go to the gate".toList) 8 :=
  truncation_keeps_words_iff Tables.ascii "go to the gate".toList 8 (by decide) (by decide +kernel)

/-- Two lines of a table and the beginning of a third go, with the last column's name. -/
theorem the_cut_takes_whole_lines :
    ¬ ∀ (t : Text) (limit : Int), 1 ≤ limit → limit < (clean Tables.ascii t).length →
      ∃ kept, sanitize Tables.ascii t limit = kept ++ truncationSuffix ∧ KeepsWords (clean Tables.ascii t) limit kept := by
  intro h
  obtain ⟨kept, hcut, -, -, gap, word, hlost, hgap, hword, -⟩ :=
    h "id name\n1,ann\n2,bo\n3,cy".toList 20 (by decide) (by decide +kernel)
  have hkept : sanitize Tables.ascii "id name\n1,ann\n2,bo\n3,cy".toList 20 = "id".toList ++ truncationSuffix := by
    decide +kernel
  obtain rfl := List.append_cancel_right (hcut.symm.trans hkept)
  have hrest : " name\n1,ann\n2,bo\n3".toList = gap ++ word := by
    have hfirst : upTo (clean Tables.ascii "id name\n1,ann\n2,bo\n3,cy".toList) 20 =
        "id".toList ++ " name\n1,ann\n2,bo\n3".toList := by decide +kernel
    rw [hfirst, List.append_assoc] at hlost
    exact List.append_cancel_left hlost
  have hends : WordEnds " name\n1,ann\n2,bo\n3".toList := ⟨'e', '\n', by decide +kernel, by decide, by decide⟩
  exact not_wordEnds_iff.mpr ⟨gap, word, hrest, hgap, hword⟩ hends

end CoreHeartbeat.Untrusted
