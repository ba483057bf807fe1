/-
  CoreHeartbeat.Graph.Approval — which messages `_is_affirmation` takes as a go-ahead.

  The comparison is made on what is left of the lower-cased message when everything outside a-z
  and the plain space is deleted. Digits and letters of other alphabets are deleted with the
  punctuation, and so is every other whitespace character, which joins the words it stood
  between. `normalized` is the message with its punctuation alone deleted: what the comparison
  is meant to be made on.

  Python's tables of letters, digits and lower case are a parameter (`Letters`), with the two
  laws that the proof needs: which letters a-z lowering makes, and that whitespace is no letter.
  The phrases are those of `_AFFIRMATIONS`, and the two texts are compared through their letters
  and the gaps between consecutive letters, since a phrase is determined by its letters
  (`affirmation_of_letters`) and the two filters differ only in what they make of a gap
  (`collapse_strip_eq_iff`).

  Proved:
  - `isAffirmation_iff`: the length cap excludes no phrase.
  - `bare_iff`: an accepted message is a phrase of `_AFFIRMATIONS` exactly when it has no letter
    or digit besides a-z and no whitespace but plain spaces joins two of its letters.
  - `an_item_number_approves_the_batch`: "yes 2" is accepted, and releases the whole stored
    batch.
-/

import CoreHeartbeat.Graph.FinishRouting

namespace CoreHeartbeat.Graph

open PyText (isSpace strip collapse)

/-! ## The message without its punctuation -/

def isLetter (c : Char) : Bool := 'a' ≤ c ∧ c ≤ 'z'

/-- What `_is_affirmation` keeps of the lower-cased message. -/
def isKept (c : Char) : Bool := ('a' ≤ c ∧ c ≤ 'z') ∨ c = ' '

structure Letters extends PyText.Unicode where
  /-- `str.lower`. -/
  lower : List Char → List Char
  lower_kept : ∀ t, (lower t).filter isKept = (t.flatMap lowerChar).filter isKept
  isWord_space : ∀ c, isSpace c = true → isWord c = false

/-- `str.isalnum` of one character: a letter or digit of any script. -/
def Letters.isAlnum (u : Letters) (c : Char) : Bool := u.isWord c && c != '_'

/-- The message in lower case, without the characters that are neither letters nor digits
    nor whitespace, its whitespace collapsed. -/
def normalized (u : Letters) (raw : String) : String :=
  String.ofList (collapse false (strip ((u.lower raw.toList).filter fun c => u.isAlnum c || isSpace c)))

/-- What stands between two consecutive letters. -/
noncomputable def gaps (t : List Char) : List (List Char) := (t.splitOnP isLetter).tail.dropLast

/-- No letter or digit but a-z, and a plain space wherever whitespace parts two letters. -/
structure Bare (u : Letters) (t : List Char) : Prop where
  letters : ∀ c ∈ t, u.isAlnum c = true → isLetter c = true
  spaced : ∀ g ∈ gaps t, (∃ c ∈ g, isSpace c = true) → ' ' ∈ g

theorem isLetter_iff {c : Char} : isLetter c = true ↔ 97 ≤ c.toNat ∧ c.toNat ≤ 122 := by
  simp only [isLetter, decide_eq_true_eq, Char.le_def, UInt32.le_iff_toNat_le]
  exact Iff.rfl

theorem isLetter_not_space {c : Char} (h : isLetter c = true) : isSpace c = false := by
  have hn := isLetter_iff.mp h
  simp only [isSpace, List.contains_cons, List.contains_nil, Bool.or_eq_false_iff, beq_eq_false_iff_ne,
    Bool.and_eq_false_iff, decide_eq_false_iff_not, and_true]
  omega

theorem Letters.isAlnum_of_isLetter (u : Letters) {c : Char} (h : isLetter c = true) : u.isAlnum c = true := by
  have hn := isLetter_iff.mp h
  have hlow : c.isLower = true := by
    show (decide ('a'.val ≤ c.val) && decide (c.val ≤ 'z'.val)) = true
    simp only [Bool.and_eq_true, decide_eq_true_eq, UInt32.le_iff_toNat_le]
    exact hn
  have halnum : c.isAlphanum = true := by
    show (c.isUpper || c.isLower || c.isDigit) = true
    rw [hlow, Bool.or_true, Bool.true_or]
  have hunder : c ≠ '_' := by rintro rfl; revert hn; decide
  simp [isAlnum, u.isWord_ascii c (by omega), halnum, hunder]

theorem isKept_iff {c : Char} : isKept c = true ↔ isLetter c = true ∨ c = ' ' := by
  simp [isKept, isLetter]

theorem lowerChar_space {c : Char} (h : isSpace c = true) : lowerChar c = [c] := by
  have hupper : ¬('A' ≤ c ∧ c ≤ 'Z') := by
    rintro ⟨h1, h2⟩
    have hn : 65 ≤ c.toNat ∧ c.toNat ≤ 90 := ⟨h1, h2⟩
    clear h1 h2
    simp only [isSpace, List.contains_cons, List.contains_nil, Bool.or_eq_true, beq_iff_eq, Bool.and_eq_true,
      decide_eq_true_eq, Bool.false_eq_true, or_false] at h
    omega
  have hkelvin : c.toNat ≠ 0x212a := by intro hc; simp [isSpace, hc] at h
  have hdotted : c.toNat ≠ 0x130 := by intro hc; simp [isSpace, hc] at h
  simp [lowerChar, hupper, hkelvin, hdotted]

/-- The message is stripped before it is cleaned, which changes nothing. -/
theorem cleaned_eq (u : Letters) (raw : String) :
    cleaned raw = collapse false (strip ((u.lower raw.toList).filter isKept)) := by
  obtain ⟨l, r, ht, hl, hr⟩ := PyText.strip_split raw.toList
  have hblank : ∀ g : List Char, (∀ c ∈ g, isSpace c = true) →
      ∀ c ∈ (g.flatMap lowerChar).filter isKept, isSpace c = true := by
    intro g hg c hc
    obtain ⟨d, hd, hcd⟩ := List.mem_flatMap.mp (List.mem_filter.mp hc).1
    rw [lowerChar_space (hg d hd), List.mem_singleton] at hcd
    rw [hcd]
    exact hg d hd
  have hstrip : strip ((raw.toList.flatMap lowerChar).filter isKept) =
      strip (((strip raw.toList).flatMap lowerChar).filter isKept) := by
    conv_lhs => rw [ht]
    rw [List.flatMap_append, List.flatMap_append, List.filter_append, List.filter_append,
      PyText.strip_append_left (hblank l hl), PyText.strip_append_right (hblank r hr)]
  rw [u.lower_kept, hstrip]
  rfl

/-! ## The phrases -/

/-- The length cap excludes no phrase. -/
theorem isAffirmation_iff {raw : String} : isAffirmation raw = true ↔ String.ofList (cleaned raw) ∈ affirmations := by
  have hshort : ∀ p ∈ affirmations, p.toList ≠ [] ∧ (PyText.splitWords [] p.toList).length ≤ 4 := by
    have hall : affirmations.all (fun p => !p.toList.isEmpty && (PyText.splitWords [] p.toList).length ≤ 4) = true := by
      decide
    intro p hp
    simpa using List.all_eq_true.mp hall p hp
  simp only [isAffirmation, Bool.and_eq_true, List.contains_iff_mem]
  constructor
  · rintro ⟨-, h⟩; exact h
  · intro h
    have hp := hshort _ h
    rw [String.toList_ofList] at hp
    simpa using ⟨hp, h⟩

/-- The letters of a phrase determine it. -/
theorem affirmation_of_letters {p q : String} (hp : p ∈ affirmations) (hq : q ∈ affirmations)
    (h : p.toList.filter (fun c => !isSpace c) = q.toList.filter fun c => !isSpace c) : p = q := by
  have hnodup : (affirmations.map fun p => p.toList.filter fun c => !isSpace c).Nodup := by decide
  exact List.inj_on_of_nodup_map hnodup hp hq h

theorem affirmation_letters {p : String} (hp : p ∈ affirmations) :
    ∀ c ∈ p.toList, isSpace c = false → isLetter c = true := by
  have hall : affirmations.all (fun p => p.toList.all fun c => isSpace c || isLetter c) = true := by decide
  intro c hc hs
  have := List.all_eq_true.mp (List.all_eq_true.mp hall p hp) c hc
  simpa [hs] using this

/-! ## Deleting whitespace -/

/-- Whitespace stands with a plain space, or not at all. -/
def Spaced (g : List Char) : Prop := (∃ c ∈ g, isSpace c = true) → ' ' ∈ g

theorem gap_eq_nil_iff {g : List Char} (hg : ∀ c ∈ g, isLetter c = false) :
    (g.filter isKept = [] ↔ g.filter (fun c => isLetter c || isSpace c) = []) ↔ Spaced g := by
  have hkept : g.filter isKept = [] ↔ ' ' ∉ g := by
    rw [List.filter_eq_nil_iff]
    constructor
    · intro h hs; exact h _ hs (by decide)
    · rintro h c hc hk
      rcases isKept_iff.mp hk with hl | rfl
      · rw [hg c hc] at hl; cases hl
      · exact h hc
  have hspace : g.filter (fun c => isLetter c || isSpace c) = [] ↔ ¬∃ c ∈ g, isSpace c = true := by
    rw [List.filter_eq_nil_iff]
    constructor
    · rintro h ⟨c, hc, hs⟩; exact h c hc (by simp [hs])
    · intro h c hc hk
      rw [hg c hc, Bool.false_or] at hk
      exact h ⟨c, hc, hk⟩
  have hplain : ' ' ∈ g → ∃ c ∈ g, isSpace c = true := fun h => ⟨' ', h, by decide⟩
  rw [hkept, hspace, not_iff_not, Spaced]
  exact ⟨fun h => h.mpr, fun h => ⟨hplain, h⟩⟩

theorem filter_blank {p : Char → Bool} {g : List Char} (hp : ∀ c, p c = true → isLetter c = true ∨ isSpace c = true)
    (hg : ∀ c ∈ g, isLetter c = false) : ∀ c ∈ g.filter p, isSpace c = true := by
  intro c hc
  obtain ⟨hc, hpc⟩ := List.mem_filter.mp hc
  refine (hp c hpc).resolve_left ?_
  rw [hg c hc]
  exact Bool.false_ne_true

theorem isKept_space {c : Char} (h : isKept c = true) : isLetter c = true ∨ isSpace c = true := by
  rcases isKept_iff.mp h with h | rfl
  · exact Or.inl h
  · exact Or.inr (by decide)

theorem letterOrSpace {c : Char} (h : (isLetter c || isSpace c) = true) : isLetter c = true ∨ isSpace c = true := by
  simpa using h

theorem modifyHead_nil_append (l : List (List Char)) : l.modifyHead ([] ++ ·) = l := by cases l <;> rfl

/-- After a letter, with `g` read since: the two filters leave the same words exactly when
    every gap before a letter is spaced. -/
theorem collapseEnd_eq_iff {g : List Char} (hg : ∀ c ∈ g, isLetter c = false) (t : List Char) :
    PyText.collapseEnd ((g ++ t).filter isKept) = PyText.collapseEnd ((g ++ t).filter fun c => isLetter c || isSpace c) ↔
      ∀ gap ∈ ((t.splitOnP isLetter).dropLast).modifyHead (g ++ ·), Spaced gap := by
  induction t generalizing g with
  | nil =>
    rw [List.append_nil, PyText.collapseEnd_blank (filter_blank (p := isKept) (fun _ => isKept_space) hg),
      PyText.collapseEnd_blank (filter_blank (fun _ => letterOrSpace) hg)]
    simp
  | cons c t ih =>
    have hne := List.splitOnP_ne_nil isLetter t
    rw [List.splitOnP_cons_eq_if_modifyHead]
    by_cases hc : isLetter c = true
    · have hspace := isLetter_not_space hc
      have hkept : isKept c = true := isKept_iff.mpr (Or.inl hc)
      have hrest := ih (g := []) (by simp)
      rw [List.filter_append, List.filter_append, List.filter_cons_of_pos hkept, List.filter_cons_of_pos (by simp [hc]),
        PyText.collapseEnd_gap (filter_blank (p := isKept) (fun _ => isKept_space) hg) hspace,
        PyText.collapseEnd_gap (filter_blank (fun _ => letterOrSpace) hg) hspace, if_pos hc,
        List.dropLast_cons_of_ne_nil hne, List.modifyHead_cons, List.forall_mem_cons, List.append_nil,
        ← gap_eq_nil_iff hg]
      rw [modifyHead_nil_append, List.nil_append] at hrest
      have hplain : c ≠ ' ' := by rintro rfl; cases hspace
      rw [← hrest]
      by_cases hk : g.filter isKept = [] <;> by_cases hs : g.filter (fun c => isLetter c || isSpace c) = [] <;>
        simp [hk, hs, hplain, Ne.symm hplain]
    · have hc' : isLetter c = false := by simpa using hc
      have hsplit : (g ++ c :: t) = (g ++ [c]) ++ t := by simp
      rw [hsplit, ih (g := g ++ [c]) (by simpa [or_imp, forall_and, hc'] using hg), if_neg hc]
      obtain ⟨h, rest, hsplitOn⟩ := List.exists_cons_of_ne_nil hne
      rw [hsplitOn]
      cases rest <;> simp

/-- Of a whole text: only the gaps between two letters matter. -/
theorem collapse_strip_eq_iff (t : List Char) :
    collapse false (strip (t.filter isKept)) =
        collapse false (strip (t.filter fun c => isLetter c || isSpace c)) ↔
      ∀ gap ∈ gaps t, Spaced gap := by
  suffices hlead : ∀ g : List Char, (∀ c ∈ g, isLetter c = false) →
      (collapse false (strip ((g ++ t).filter isKept)) =
          collapse false (strip ((g ++ t).filter fun c => isLetter c || isSpace c)) ↔
        ∀ gap ∈ gaps t, Spaced gap) from hlead [] (by simp)
  induction t with
  | nil =>
    intro g hg
    rw [List.append_nil, PyText.collapse_strip_blank (filter_blank (p := isKept) (fun _ => isKept_space) hg),
      PyText.collapse_strip_blank (filter_blank (fun _ => letterOrSpace) hg)]
    simp [gaps]
  | cons c t ih =>
    intro g hg
    by_cases hc : isLetter c = true
    · have hspace := isLetter_not_space hc
      have hkept : isKept c = true := isKept_iff.mpr (Or.inl hc)
      have hrest := collapseEnd_eq_iff (g := []) (by simp) t
      rw [modifyHead_nil_append, List.nil_append] at hrest
      have hgaps : gaps (c :: t) = (t.splitOnP isLetter).dropLast := by
        rw [gaps, List.splitOnP_cons_eq_if_modifyHead, if_pos hc]; rfl
      rw [List.filter_append, List.filter_append, List.filter_cons_of_pos hkept, List.filter_cons_of_pos (by simp [hc]),
        PyText.collapse_strip_word (filter_blank (p := isKept) (fun _ => isKept_space) hg) hspace,
        PyText.collapse_strip_word (filter_blank (fun _ => letterOrSpace) hg) hspace, hgaps, ← hrest]
      simp
    · have hc' : isLetter c = false := by simpa using hc
      have hgaps : gaps (c :: t) = gaps t := by
        rw [gaps, List.splitOnP_cons_eq_if_modifyHead, if_neg hc, List.tail_modifyHead]; rfl
      have hsplit : (g ++ c :: t) = (g ++ [c]) ++ t := by simp
      rw [hsplit, hgaps]
      exact ih (g ++ [c]) (by simpa [or_imp, forall_and, hc'] using hg)

/-! ## A bare go-ahead -/

/-- For every accepted message: lower-cased, with only its punctuation deleted and its
    whitespace collapsed, it is one of the phrases exactly when it is bare. -/
theorem bare_iff (u : Letters) (raw : String) (h : isAffirmation raw = true) :
    normalized u raw ∈ affirmations ↔ Bare u (u.lower raw.toList) := by
  have hclean := isAffirmation_iff.mp h
  rw [cleaned_eq u] at hclean
  set t := u.lower raw.toList with ht
  -- once the letters are a-z, the two filters differ in whitespace alone
  have hfilter (hl : ∀ c ∈ t, u.isAlnum c = true → isLetter c = true) :
      (t.filter fun c => u.isAlnum c || isSpace c) = t.filter fun c => isLetter c || isSpace c := by
    refine List.filter_congr fun c hc => ?_
    have : u.isAlnum c = isLetter c := by
      rw [Bool.eq_iff_iff]
      exact ⟨hl c hc, u.isAlnum_of_isLetter⟩
    rw [this]
  constructor
  · intro hn
    have hletters : ∀ c ∈ t, u.isAlnum c = true → isLetter c = true := by
      intro c hc halnum
      have hspace : isSpace c = false := by
        cases hs : isSpace c with
        | false => rfl
        | true => simp [Letters.isAlnum, u.isWord_space c hs] at halnum
      have hmem : c ∈ (collapse false (strip (t.filter fun c => u.isAlnum c || isSpace c))).filter
          fun c => !isSpace c := by
        rw [PyText.filter_collapse_strip]
        simp [hc, halnum, hspace]
      exact affirmation_letters hn c (by rw [normalized, String.toList_ofList]; exact (List.mem_filter.mp hmem).1) hspace
    refine ⟨hletters, ?_⟩
    have hsame := affirmation_of_letters hclean hn (by
      rw [normalized, String.toList_ofList, String.toList_ofList, PyText.filter_collapse_strip,
        PyText.filter_collapse_strip, hfilter hletters, List.filter_filter, List.filter_filter]
      refine List.filter_congr fun c hc => ?_
      have hplain : c = ' ' → isSpace c = true := by rintro rfl; decide
      rw [Bool.eq_iff_iff]
      simp only [Bool.and_eq_true, Bool.or_eq_true, Bool.not_eq_true', isKept_iff]
      grind)
    rw [normalized, hfilter hletters, String.ofList_inj] at hsame
    exact (collapse_strip_eq_iff t).mp hsame
  · intro hb
    rw [normalized, hfilter hb.letters, ← (collapse_strip_eq_iff t).mpr hb.spaced]
    exact hclean

theorem ascii_isWord_space {c : Char} (h : isSpace c = true) : PyText.Unicode.ascii.isWord c = false := by
  simp only [isSpace, List.contains_cons, List.contains_nil, Bool.or_eq_true, beq_iff_eq, Bool.and_eq_true,
    decide_eq_true_eq, Bool.false_eq_true, or_false] at h
  refine Bool.eq_false_iff.mpr fun hword => ?_
  have hcases : (decide ('A'.val ≤ c.val ∧ c.val ≤ 'Z'.val) || ('a'.val ≤ c.val && c.val ≤ 'z'.val) ||
      ('0'.val ≤ c.val && c.val ≤ '9'.val) || c == '_') = true := hword
  simp only [Bool.or_eq_true, Bool.and_eq_true, decide_eq_true_eq, beq_iff_eq] at hcases
  rcases hcases with ((hup | hlow) | hdigit) | hunder
  · have hn : 65 ≤ c.toNat ∧ c.toNat ≤ 90 := hup
    clear hup
    omega
  · have hn : 97 ≤ c.toNat ∧ c.toNat ≤ 122 := hlow
    clear hlow
    omega
  · have hn : 48 ≤ c.toNat ∧ c.toNat ≤ 57 := hdigit
    clear hdigit
    omega
  · have hn : c.toNat = 95 := by rw [hunder]; rfl
    omega

def Letters.ascii : Letters where
  toUnicode := PyText.Unicode.ascii
  lower t := t.flatMap lowerChar
  lower_kept _ := rfl
  isWord_space _ h := ascii_isWord_space h

theorem bare_iff_polite : Bare Letters.ascii (Letters.ascii.lower "Yes, please!".toList) :=
  (bare_iff Letters.ascii "Yes, please!" (by decide)).mp (by decide)

/-- "yes 2" releases the whole stored batch. -/
theorem an_item_number_approves_the_batch :
    isAffirmation "yes 2" = true ∧ normalized Letters.ascii "yes 2" = "yes 2" ∧ "yes 2" ∉ affirmations := by
  decide

end CoreHeartbeat.Graph
