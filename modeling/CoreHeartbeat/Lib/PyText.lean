/-
  CoreHeartbeat.Lib.PyText — Python's text operations on lists of characters: `str.strip`,
  `str.split`, the `\s+` substitution, `str.splitlines`, and the newline translation and UTF-8
  coding of a file opened as text.

  Which characters are whitespace and where lines break is fixed here, as Python's documentation
  lists them. Letters, digits and their values come from the Unicode database, which is a
  parameter (`Unicode`) with the laws that hold of every version of it; `Unicode.ascii` is an
  instance for examples.

  Each operation is a structural recursion over the characters, with what it remembers as an
  argument (the word being read, the line being read, whether the character before was
  whitespace), so that small texts can be evaluated and the lemmas go by induction on the text.

  Proved:
  - `strip_split`, `strip_eq_self_iff`: every text is what `strip` leaves between two runs of
    whitespace.
  - `collapse_gap`, `filter_collapse_strip`: what the substitution touches.
  - `splitlines_unlines`: lines without a line break survive being joined and split.
  - `universalNewlines_eq_self_iff`, `readText_toUTF8`: reading a file changes exactly the texts
    with a carriage return.
-/

import Mathlib.Data.List.DropRight

namespace PyText

/-- `str.isspace` of one character, which is also the regular expression `\s`. -/
def isSpace (c : Char) : Bool :=
  [0x9, 0xa, 0xb, 0xc, 0xd, 0x1c, 0x1d, 0x1e, 0x1f, 0x20, 0x85, 0xa0, 0x1680, 0x2028, 0x2029, 0x202f, 0x205f,
    0x3000].contains c.toNat || (0x2000 ≤ c.toNat && c.toNat ≤ 0x200a)

def strip (t : List Char) : List Char := (t.dropWhile isSpace).rdropWhile isSpace

theorem strip_eq_nil_iff {t : List Char} : strip t = [] ↔ ∀ c ∈ t, isSpace c = true := by
  unfold strip
  rw [List.rdropWhile_eq_nil_iff, ← List.dropWhile_eq_nil_iff, List.dropWhile_idempotent, List.dropWhile_eq_nil_iff]

/-- `re.sub(r"\s+", " ", t)`; `inRun` says that the character before was whitespace. -/
def collapse : Bool → List Char → List Char
  | _, [] => []
  | inRun, c :: cs =>
    if isSpace c then (if inRun then collapse true cs else ' ' :: collapse true cs) else c :: collapse false cs

/-- `str.split()`; `word` is the word being read, reversed. -/
def splitWords (word : List Char) : List Char → List (List Char)
  | [] => if word = [] then [] else [word.reverse]
  | c :: cs =>
    if isSpace c then (if word = [] then splitWords [] cs else word.reverse :: splitWords [] cs)
    else splitWords (c :: word) cs

/-! ## Whitespace collapsed -/

theorem rdropWhile_append_cons {p : Char → Bool} {y : Char} (hy : ¬p y) (l t : List Char) :
    (l ++ y :: t).rdropWhile p = l ++ y :: t.rdropWhile p := by
  induction t using List.reverseRecOn with
  | nil => rw [List.rdropWhile_concat_neg _ _ _ hy, List.rdropWhile_nil]
  | append_singleton t x ih =>
    have hassoc : l ++ y :: (t ++ [x]) = (l ++ y :: t) ++ [x] := by simp
    rw [hassoc, List.rdropWhile_concat, List.rdropWhile_concat]
    split
    · exact ih
    · exact hassoc.symm

/-- A run of whitespace before a word becomes one space. -/
theorem collapse_gap {g : List Char} (hg : ∀ c ∈ g, isSpace c = true) {y : Char} (hy : isSpace y = false) (t : List Char) :
    collapse false (g ++ y :: t) = (if g = [] then [] else [' ']) ++ y :: collapse false t := by
  have hrun : ∀ g : List Char, (∀ c ∈ g, isSpace c = true) →
      collapse true (g ++ y :: t) = y :: collapse false t := by
    intro g hg
    induction g with
    | nil => simp [collapse, hy]
    | cons c g ih =>
      rw [List.cons_append, collapse, hg c List.mem_cons_self]
      exact ih fun d hd => hg d (List.mem_cons_of_mem _ hd)
  cases g with
  | nil => simp [collapse, hy]
  | cons c g =>
    rw [List.cons_append, collapse, hg c List.mem_cons_self]
    simp [hrun g fun d hd => hg d (List.mem_cons_of_mem _ hd)]

def collapseEnd (t : List Char) : List Char := collapse false (t.rdropWhile isSpace)

theorem collapseEnd_blank {g : List Char} (hg : ∀ c ∈ g, isSpace c = true) : collapseEnd g = [] := by
  rw [collapseEnd, List.rdropWhile_eq_nil_iff.mpr hg]; rfl

theorem collapseEnd_gap {g : List Char} (hg : ∀ c ∈ g, isSpace c = true) {y : Char} (hy : isSpace y = false)
    (t : List Char) :
    collapseEnd (g ++ y :: t) = (if g = [] then [] else [' ']) ++ y :: collapseEnd t := by
  have hy' : ¬isSpace y = true := by simp [hy]
  rw [collapseEnd, rdropWhile_append_cons hy', collapse_gap hg hy]
  rfl

theorem collapse_strip_blank {g : List Char} (hg : ∀ c ∈ g, isSpace c = true) : collapse false (strip g) = [] := by
  rw [PyText.strip_eq_nil_iff.mpr hg]; rfl

theorem collapse_strip_word {g : List Char} (hg : ∀ c ∈ g, isSpace c = true) {y : Char} (hy : isSpace y = false)
    (t : List Char) : collapse false (strip (g ++ y :: t)) = y :: collapseEnd t := by
  have hy' : ¬isSpace y = true := by simp [hy]
  have hdrop : (g ++ y :: t).dropWhile isSpace = y :: t := by
    rw [List.dropWhile_append, List.dropWhile_eq_nil_iff.mpr hg]
    simp [hy]
  have hend := rdropWhile_append_cons hy' [] t
  rw [List.nil_append, List.nil_append] at hend
  rw [strip, hdrop, hend, collapse, hy]
  rfl

/-- Collapsing touches nothing but whitespace. -/
theorem filter_collapse_strip (t : List Char) :
    (collapse false (strip t)).filter (fun c => !isSpace c) = t.filter fun c => !isSpace c := by
  have hcollapse : ∀ b s, (collapse b s).filter (fun c => !isSpace c) = s.filter fun c => !isSpace c := by
    intro b s
    fun_induction collapse b s with
    | case1 => rfl
    | case2 c cs hc ih => rw [ih, List.filter_cons_of_neg (by simp [hc])]
    | case3 b c cs hc hb ih =>
      rw [List.filter_cons_of_neg (by decide), ih, List.filter_cons_of_neg (by simp [hc])]
    | case4 b c cs hc ih => rw [List.filter_cons, List.filter_cons, ih]
  have hblank : ∀ s : List Char, (∀ c ∈ s, isSpace c = true) → s.filter (fun c => !isSpace c) = [] := by
    intro s hs
    rw [List.filter_eq_nil_iff]
    intro c hc
    simp [hs c hc]
  have hleft := congrArg (List.filter fun c => !isSpace c) (List.takeWhile_append_dropWhile (p := isSpace) (l := t))
  have hright := congrArg (List.filter fun c => !isSpace c)
    (List.rdropWhile_append_rtakeWhile (p := isSpace) (l := t.dropWhile isSpace))
  rw [List.filter_append, hblank _ fun c hc => List.mem_takeWhile_imp hc, List.nil_append] at hleft
  rw [List.filter_append, hblank (List.rtakeWhile _ _) fun c hc => List.mem_rtakeWhile_imp hc, List.append_nil] at hright
  rw [hcollapse, strip, hright, hleft]

theorem strip_append_left {g : List Char} (hg : ∀ c ∈ g, isSpace c = true) (t : List Char) : strip (g ++ t) = strip t := by
  rw [strip, List.dropWhile_append, List.dropWhile_eq_nil_iff.mpr hg]
  rfl

theorem rdropWhile_append_all {p : Char → Bool} {s t : List Char} (h : ∀ c ∈ t, p c = true) :
    (s ++ t).rdropWhile p = s.rdropWhile p := by
  induction t using List.reverseRecOn with
  | nil => rw [List.append_nil]
  | append_singleton t c ih =>
    rw [← List.append_assoc, List.rdropWhile_concat_pos _ _ _ (h c (by simp))]
    exact ih fun d hd => h d (List.mem_append_left _ hd)

theorem rdropWhile_eq_self {p : Char → Bool} {t : List Char} (h : ∀ c ∈ t.getLast?, p c = false) :
    t.rdropWhile p = t := by
  refine List.rdropWhile_eq_self_iff.mpr fun hne => ?_
  simp [h (t.getLast hne) (List.getLast?_eq_some_getLast hne)]

theorem strip_append_right {g : List Char} (hg : ∀ c ∈ g, isSpace c = true) (t : List Char) : strip (t ++ g) = strip t := by
  by_cases ht : t.dropWhile isSpace = []
  · have hblank : ∀ c ∈ t ++ g, isSpace c = true := by
      intro c hc
      rcases List.mem_append.mp hc with hc | hc
      · exact List.dropWhile_eq_nil_iff.mp ht c hc
      · exact hg c hc
    rw [strip_eq_nil_iff.mpr hblank, strip_eq_nil_iff.mpr (List.dropWhile_eq_nil_iff.mp ht)]
  · have hdrop : (t ++ g).dropWhile isSpace = t.dropWhile isSpace ++ g := by
      rw [List.dropWhile_append, if_neg (by simpa using ht)]
    rw [strip, hdrop, rdropWhile_append_all hg]
    rfl

/-- Every text is what `strip` leaves between two runs of whitespace. -/
theorem strip_split (t : List Char) :
    ∃ l r, t = l ++ (strip t ++ r) ∧ (∀ c ∈ l, isSpace c = true) ∧ ∀ c ∈ r, isSpace c = true := by
  refine ⟨t.takeWhile isSpace, (t.dropWhile isSpace).rtakeWhile isSpace, ?_, fun c hc => List.mem_takeWhile_imp hc,
    fun c hc => List.mem_rtakeWhile_imp hc⟩
  rw [strip, List.rdropWhile_append_rtakeWhile, List.takeWhile_append_dropWhile]

/-- `strip` keeps the texts with no whitespace at either end. -/
theorem strip_eq_self_iff {t : List Char} :
    strip t = t ↔ (∀ c ∈ t.head?, isSpace c = false) ∧ ∀ c ∈ t.getLast?, isSpace c = false := by
  constructor
  · intro h
    have hsuffix := List.dropWhile_suffix isSpace (l := t)
    have hprefix := List.rdropWhile_prefix isSpace (l := t.dropWhile isSpace)
    have hdrop : t.dropWhile isSpace = t := by
      apply hsuffix.eq_of_length
      have hlen := hprefix.length_le
      rw [← strip, h] at hlen
      exact Nat.le_antisymm hsuffix.length_le hlen
    rw [strip, hdrop] at h
    constructor
    · intro c hc
      obtain ⟨rest, rfl⟩ := List.head?_eq_some_iff.mp hc
      have hfirst := List.dropWhile_eq_self_iff.mp hdrop (by simp)
      rwa [List.getElem_cons_zero, Bool.not_eq_true] at hfirst
    · intro c hc
      have hne : t ≠ [] := by
        intro hnil
        simp [hnil] at hc
      rw [List.getLast?_eq_some_getLast hne, Option.mem_some_iff] at hc
      simpa [hc] using List.rdropWhile_eq_self_iff.mp h hne
  · intro h
    have hdrop : t.dropWhile isSpace = t := by
      cases t with
      | nil => rfl
      | cons c t => exact List.dropWhile_cons_of_neg (by simp [h.1 c rfl])
    rw [strip, hdrop, rdropWhile_eq_self h.2]

/-! ## Numbers and words -/

theorem toNat_of_isDigit {c : Char} (h : c.isDigit = true) : 48 ≤ c.toNat ∧ c.toNat ≤ 57 := Char.isDigit_iff_toNat.mp h

theorem isSpace_of_isDigit {c : Char} (h : c.isDigit = true) : isSpace c = false := by
  have hn := toNat_of_isDigit h
  simp only [isSpace, List.contains_cons, List.contains_nil, Bool.or_eq_false_iff, beq_eq_false_iff_ne,
    Bool.and_eq_false_iff, decide_eq_false_iff_not, and_true]
  omega

structure Unicode where
  /-- The value of a decimal digit, `\d`. -/
  decimal : Char → Option Nat
  /-- `\w`. -/
  isWord : Char → Bool
  decimal_ascii : ∀ c : Char, c.toNat < 128 → decimal c = if c.isDigit then some (c.toNat - 48) else none
  isWord_ascii : ∀ c : Char, c.toNat < 128 → isWord c = (c.isAlphanum || c == '_')

def Unicode.ascii : Unicode where
  decimal c := if c.isDigit then some (c.toNat - 48) else none
  isWord c := c.isAlphanum || c == '_'
  decimal_ascii _ _ := rfl
  isWord_ascii _ _ := rfl

namespace Unicode

variable (u : Unicode)

theorem decimal_of_isDigit {c : Char} (h : c.isDigit = true) : u.decimal c = some (c.toNat - 48) := by
  have hn := toNat_of_isDigit h
  rw [u.decimal_ascii c (by omega), if_pos h]

def skippedByInt (c : Char) : Bool := isSpace c && !(0x1c ≤ c.toNat && c.toNat ≤ 0x1f)

/-- `sys.int_info.default_max_str_digits`. -/
def maxStrDigits : Nat := 4300

/-- `int(t)` for a `t` without sign and underscores; `none` is a `ValueError`. -/
def int (t : List Char) : Option Nat :=
  let digits := (t.dropWhile skippedByInt).rdropWhile skippedByInt
  if digits = [] ∨ maxStrDigits < digits.length then none
  else (digits.mapM u.decimal).map fun ds => ds.foldl (fun n d => 10 * n + d) 0

/-- The characters that a lower-case letter stands for under `re.IGNORECASE`. -/
def matchesIgnoringCase (l c : Char) : Bool :=
  c == l || c.toLower == l || (l == 'i' && (c.toNat == 0x130 || c.toNat == 0x131)) || (l == 's' && c.toNat == 0x17f) ||
    (l == 'k' && c.toNat == 0x212a)

def startsWith : List Char → List Char → Bool
  | [], _ => true
  | _ :: _, [] => false
  | l :: phrase, c :: t => matchesIgnoringCase l c && startsWith phrase t

/-- `\b` between two neighbours. -/
def boundary (before after : Option Char) : Bool := before.any u.isWord != after.any u.isWord

/-- `re.search(r"\b(phrase|…)\b", t, re.I)` for phrases with a letter; `before` is the
    character before `t`. -/
def searchPhrases (phrases : List (List Char)) : Option Char → List Char → Bool
  | _, [] => false
  | before, c :: t =>
    (u.boundary before c && phrases.any fun phrase =>
      startsWith phrase (c :: t) &&
        u.boundary ((c :: t).take phrase.length).getLast? ((c :: t).drop phrase.length).head?) ||
    searchPhrases phrases (some c) t

end Unicode

/-! ## Lines -/

/-- Where `str.splitlines` breaks. -/
def isLineBreak (c : Char) : Bool :=
  [0xa, 0xb, 0xc, 0xd, 0x1c, 0x1d, 0x1e, 0x85, 0x2028, 0x2029].contains c.toNat

theorem isLineBreak_of_isDigit {c : Char} (h : c.isDigit = true) : isLineBreak c = false := by
  have hn := toNat_of_isDigit h
  simp only [isLineBreak, List.contains_cons, List.contains_nil, Bool.or_eq_false_iff, beq_eq_false_iff_ne, and_true]
  omega

/-- `str.splitlines()`; `line` is the line being read, reversed. -/
def splitlines (line : List Char) : List Char → List (List Char)
  | [] => if line = [] then [] else [line.reverse]
  | '\r' :: '\n' :: cs => line.reverse :: splitlines [] cs
  | c :: cs => if isLineBreak c then line.reverse :: splitlines [] cs else splitlines (c :: line) cs

def unlines (lines : List (List Char)) : List Char := lines.flatMap (· ++ ['\n'])

def NoBreak (line : List Char) : Prop := ∀ c ∈ line, isLineBreak c = false

theorem noBreak_of_all {line : List Char} (h : line.all (fun c => !isLineBreak c) = true) : NoBreak line := by
  intro c hc
  simpa using List.all_eq_true.mp h c hc

theorem splitlines_noBreak {line t : List Char} (hline : NoBreak line) : ∀ l ∈ splitlines line t, NoBreak l := by
  fun_induction splitlines line t with
  | case1 => intro l h; cases h
  | case2 line _ =>
    intro l h
    rw [List.mem_singleton.mp h]
    intro c hc
    exact hline c (List.mem_reverse.mp hc)
  | case3 line cs ih =>
    intro l h
    rcases List.mem_cons.mp h with rfl | h
    · intro c hc; exact hline c (List.mem_reverse.mp hc)
    · exact ih nofun l h
  | case4 line c cs _ _ ih =>
    intro l h
    rcases List.mem_cons.mp h with rfl | h
    · intro c hc; exact hline c (List.mem_reverse.mp hc)
    · exact ih nofun l h
  | case5 line c cs _ hc ih =>
    refine ih fun d hd => ?_
    rcases List.mem_cons.mp hd with rfl | hd
    · simpa using hc
    · exact hline d hd

/-- Reading up to the end of one line. -/
theorem splitlines_line {line l t : List Char} (hl : NoBreak l) :
    splitlines line (l ++ '\n' :: t) = (line.reverse ++ l) :: splitlines [] t := by
  induction l generalizing line with
  | nil => simp [splitlines, isLineBreak]
  | cons c l ih =>
    have hc : isLineBreak c = false := hl c List.mem_cons_self
    have hcr : c ≠ '\r' := by rintro rfl; simp [isLineBreak] at hc
    rw [List.cons_append, splitlines.eq_3 _ _ _ fun cs h => absurd h hcr, hc]
    simp only [Bool.false_eq_true, if_false]
    rw [ih fun d hd => hl d (List.mem_cons_of_mem _ hd)]
    simp

theorem splitlines_unlines {lines : List (List Char)} (h : ∀ l ∈ lines, NoBreak l) :
    splitlines [] (unlines lines) = lines := by
  induction lines with
  | nil => rfl
  | cons l lines ih =>
    have hl := h l List.mem_cons_self
    show splitlines [] ((l ++ ['\n']) ++ unlines lines) = l :: lines
    rw [List.append_assoc]
    show splitlines [] (l ++ '\n' :: unlines lines) = l :: lines
    rw [splitlines_line hl, ih fun m hm => h m (List.mem_cons_of_mem _ hm)]
    rfl

/-- `"\n".join(lines) + "\n"`, for at least one line. -/
theorem join_newline (lines : List (List Char)) (hne : lines ≠ []) :
    List.intercalate ['\n'] lines ++ ['\n'] = unlines lines := by
  induction lines with
  | nil => exact absurd rfl hne
  | cons l lines ih =>
    cases lines with
    | nil => simp [unlines, List.intercalate]
    | cons m lines =>
      have := ih (by simp)
      simp only [unlines, List.flatMap_cons] at this ⊢
      rw [List.append_assoc, ← this]
      simp [List.intercalate, List.intersperse]

/-! ## Text files -/

/-- What reading with `newline=None` does to the text. -/
def universalNewlines : List Char → List Char
  | [] => []
  | '\r' :: '\n' :: cs => '\n' :: universalNewlines cs
  | c :: cs => (if c = '\r' then '\n' else c) :: universalNewlines cs

theorem universalNewlines_noReturn (t : List Char) : '\r' ∉ universalNewlines t := by
  fun_induction universalNewlines t with
  | case1 => simp
  | case2 cs ih => simpa using ih
  | case3 c cs _ ih =>
    rw [List.mem_cons, not_or]
    refine ⟨?_, ih⟩
    split
    · decide
    · rename_i hc; exact fun h => hc h.symm

theorem universalNewlines_eq_self_iff {t : List Char} : universalNewlines t = t ↔ '\r' ∉ t := by
  constructor
  · intro h
    rw [← h]
    exact universalNewlines_noReturn t
  · intro h
    fun_induction universalNewlines t with
    | case1 => rfl
    | case2 cs ih => simp at h
    | case3 c cs _ ih =>
      rw [List.mem_cons, not_or] at h
      rw [if_neg (fun hc => h.1 hc.symm), ih h.2]

/-- The lines that iterating over a text file yields, with their line ends. -/
def fileLines (line : List Char) : List Char → List (List Char)
  | [] => if line = [] then [] else [line.reverse]
  | c :: cs => if c = '\n' then (c :: line).reverse :: fileLines [] cs else fileLines (c :: line) cs

theorem fromUTF8?_toUTF8 (s : String) : String.fromUTF8? s.toUTF8 = some s := by
  unfold String.fromUTF8? String.toUTF8
  rw [dif_pos s.isValidUTF8]
  rfl

/-- The text that `open(path, encoding="utf-8").read()` returns for these bytes, or `none`
    for a `UnicodeDecodeError`. -/
def readText (data : ByteArray) : Option String :=
  (String.fromUTF8? data).map fun s => String.ofList (universalNewlines s.toList)

/-- A text that was written is read back but for its carriage returns. -/
theorem readText_toUTF8 (s : String) : readText s.toUTF8 = some (String.ofList (universalNewlines s.toList)) := by
  unfold readText
  rw [fromUTF8?_toUTF8]
  rfl

theorem readText_toUTF8_eq_self_iff {s : String} : readText s.toUTF8 = some s ↔ '\r' ∉ s.toList := by
  rw [readText_toUTF8, Option.some.injEq, ← universalNewlines_eq_self_iff]
  constructor
  · intro h
    have := congrArg String.toList h
    rwa [String.toList_ofList] at this
  · intro h
    rw [h, String.ofList_toList]

end PyText
