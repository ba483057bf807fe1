/-
  CoreHeartbeat.Uploads.Usable — what `safe_name` promises of the name it returns
  (`services/uploads.py`): one component that NTFS creates and opens under that very name
  (`Usable`), and that `safe_name` leaves as it is.

  The steps run in one order. The byte cap comes after the reserved names are looked up and
  drops trailing dots and spaces once more, so it can uncover a reserved name that stood before
  a gap: `con`, a space and a long extension that begins with dots is no device yet, and is one
  when the cap has left nothing but dots of the extension.

  `Usable` is NTFS's own list: not empty, no illegal character, no dot or space at the end, not
  hidden by a leading dot, within the bytes, and no device. `Swallowed` is the condition, on the
  client's name: it is over the cap, and what the cap leaves of it is a reserved name and a gap.

  Proved:
  - `reserved_plain`, `keptStem_not_reserved`: a reserved name is short and has nothing that is
    dropped, so the stem that is looked up is not made one by the cap.
  - `usable_safeName_iff`: where the cap uncovers no reserved name, the name is usable.
  - `safeName_fixed`: a usable name is not rewritten.
  - `safeName_usable_iff`: the name is usable and stays as it is if and only if the client's is
    not swallowed.
  - `the_cap_uncovers_a_device`: the name passes as none of the devices, and the cap makes it
    one.
-/

import CoreHeartbeat.Lib.PyText
import CoreHeartbeat.Uploads.SafeName
import Mathlib.Data.Bool.AllAny

namespace CoreHeartbeat.Uploads

def stemOf (name : List Char) : List Char := name.takeWhile (· ≠ '.')

def extOf (name : List Char) : List Char := name.dropWhile (· ≠ '.')

/-- `stem.lower() in _RESERVED_STEMS`. -/
def reserved (stem : List Char) : Bool := reservedStems.contains (String.ofList (stem.map Char.toLower))

/-- What NTFS takes as it is. -/
structure Usable (name : String) : Prop where
  nonempty : name ≠ ""
  noSeparator : '/' ∉ name.toList ∧ '\\' ∉ name.toList
  legal : ∀ c ∈ name.toList, illegalChar c = false
  noLeadingDot : name.toList.head? ≠ some '.'
  noTrailing : ∀ c ∈ name.toList.getLast?, dropsAtEnd c = false
  short : name.utf8ByteSize ≤ maxNameBytes
  notReserved : reserved (stemOf name.toList) = false

def keptStem (name : List Char) : List Char :=
  takeBytes (maxNameBytes - min (utf8Len (extOf name)) (maxNameBytes / 2)) (stemOf name)

def keptExt (name : List Char) : List Char := takeBytes (maxNameBytes / 2) (extOf name)

/-- The name is over the cap, and what the cap leaves of it is a reserved name and a gap:
    spaces, and dots and spaces from the first dot on. -/
def Swallowed (name : List Char) : Prop :=
  maxNameBytes < utf8Len name ∧ (∀ c ∈ keptExt name, dropsAtEnd c = true) ∧
    ∃ device gap, keptStem name = device ++ gap ∧ reserved device = true ∧ gap ≠ [] ∧ ∀ c ∈ gap, c = ' '

/-! ## Bytes -/

theorem utf8Len_cons (c : Char) (t : List Char) : utf8Len (c :: t) = c.utf8Size + utf8Len t := by
  have hfold : ∀ n, List.foldl (fun n c => n + Char.utf8Size c) n t = n + utf8Len t := by
    intro n
    unfold utf8Len
    induction t generalizing n with
    | nil => rfl
    | cons d t ih =>
      rw [List.foldl_cons, List.foldl_cons, ih (n + d.utf8Size), ih (0 + d.utf8Size)]
      omega
  unfold utf8Len
  rw [List.foldl_cons, hfold]
  show 0 + c.utf8Size + utf8Len t = c.utf8Size + utf8Len t
  omega

theorem utf8Len_append (s t : List Char) : utf8Len (s ++ t) = utf8Len s + utf8Len t := by
  induction s with
  | nil => show utf8Len t = 0 + utf8Len t; omega
  | cons c s ih => rw [List.cons_append, utf8Len_cons, utf8Len_cons, ih]; omega

theorem utf8Len_mono {s t : List Char} (h : s <+: t) : utf8Len s ≤ utf8Len t := by
  obtain ⟨r, rfl⟩ := h
  rw [utf8Len_append]
  omega

theorem utf8ByteSize_ofList (t : List Char) : (String.ofList t).utf8ByteSize = utf8Len t := by
  show t.utf8Encode.size = utf8Len t
  rw [List.utf8Encode, List.size_toByteArray]
  induction t with
  | nil => rfl
  | cons c t ih => rw [List.flatMap_cons, List.length_append, String.length_utf8EncodeChar, ih, utf8Len_cons]

theorem utf8Len_takeBytes_le (n : Nat) (t : List Char) : utf8Len (takeBytes n t) ≤ n := by
  induction t generalizing n with
  | nil => exact Nat.zero_le n
  | cons c t ih =>
    rw [takeBytes]
    split
    · have := ih (n - c.utf8Size)
      rw [utf8Len_cons]
      omega
    · exact Nat.zero_le n

theorem takeBytes_of_le {n : Nat} {t : List Char} (h : utf8Len t ≤ n) : takeBytes n t = t := by
  induction t generalizing n with
  | nil => rfl
  | cons c t ih =>
    rw [utf8Len_cons] at h
    rw [takeBytes, if_pos (by omega), ih (by omega)]

/-- A prefix that leaves room for another character is the whole text. -/
theorem takeBytes_eq_self {n : Nat} {t : List Char} (h : utf8Len (takeBytes n t) + 4 ≤ n) : takeBytes n t = t := by
  induction t generalizing n with
  | nil => rfl
  | cons c t ih =>
    have hfour := c.utf8Size_le_four
    rw [takeBytes] at h ⊢
    split at h
    · rename_i hfits
      rw [utf8Len_cons] at h
      rw [if_pos hfits, ih (by omega)]
    · rename_i hfits
      exact absurd h (by rw [show utf8Len [] = 0 from rfl]; omega)

theorem utf8Len_le_four_mul (t : List Char) : utf8Len t ≤ 4 * t.length := by
  induction t with
  | nil => exact Nat.zero_le _
  | cons c t ih =>
    have hfour := c.utf8Size_le_four
    rw [utf8Len_cons, List.length_cons]
    omega

/-! ## Stems -/

theorem stemOf_append_extOf (name : List Char) : stemOf name ++ extOf name = name := List.takeWhile_append_dropWhile

theorem dot_not_mem_stemOf (name : List Char) : '.' ∉ stemOf name := by
  intro h
  simpa using List.mem_takeWhile_imp h

theorem extOf_head (name : List Char) : extOf name = [] ∨ (extOf name).head? = some '.' := by
  cases h : extOf name with
  | nil => exact Or.inl rfl
  | cons c t =>
    have hhead := List.head?_dropWhile_not (fun c : Char => decide (c ≠ '.')) name
    rw [show List.dropWhile (fun c : Char => decide (c ≠ '.')) name = c :: t from h] at hhead
    right
    simpa using hhead

/-- A text without a dot, and one that starts with a dot or is empty. -/
theorem stemOf_append {s e : List Char} (hs : '.' ∉ s) (he : e = [] ∨ e.head? = some '.') : stemOf (s ++ e) = s := by
  have htake : List.takeWhile (fun c : Char => decide (c ≠ '.')) e = [] := by
    rcases he with rfl | he
    · rfl
    · obtain ⟨t, rfl⟩ : ∃ t, e = '.' :: t := by
        cases e with
        | nil => cases he
        | cons c t => exact ⟨t, by rw [Option.some.inj he]⟩
      rfl
  unfold stemOf
  rw [List.takeWhile_append_of_pos, htake, List.append_nil]
  intro c hc
  simp only [decide_eq_true_eq]
  rintro rfl
  exact hs hc

theorem head_of_prefix {e t : List Char} (h : t <+: e) (he : e = [] ∨ e.head? = some '.') :
    t = [] ∨ t.head? = some '.' := by
  cases t with
  | nil => exact Or.inl rfl
  | cons c t =>
    right
    obtain ⟨r, rfl⟩ := h
    rcases he with he | he
    · cases he
    · exact he

/-! ## Reserved names -/

theorem reserved_iff {stem : List Char} :
    reserved stem = true ↔ ∃ device ∈ reservedStems, device.toList = stem.map Char.toLower := by
  unfold reserved
  rw [List.contains_iff_mem]
  constructor
  · intro h
    exact ⟨_, h, String.toList_ofList⟩
  · intro h
    obtain ⟨device, hmem, hdevice⟩ := h
    rw [← hdevice, String.ofList_toList]
    exact hmem

/-- No reserved name is long, or has a character that is dropped at the end or added. -/
theorem reserved_plain {stem : List Char} (h : reserved stem = true) :
    stem.length ≤ 7 ∧ ∀ c ∈ stem, dropsAtEnd c = false ∧ c ≠ '_' := by
  obtain ⟨device, hmem, hdevice⟩ := reserved_iff.mp h
  have hall : ∀ device ∈ reservedStems, device.toList.length ≤ 7 ∧
      device.toList.all (fun c => dropsAtEnd c = false ∧ c ≠ '_') = true := by decide +kernel
  obtain ⟨hlen, hchars⟩ := hall device hmem
  rw [List.all_iff_forall_prop] at hchars
  rw [hdevice] at hlen hchars
  refine ⟨by simpa using hlen, fun c hc => ?_⟩
  have hlower := hchars c.toLower (List.mem_map_of_mem hc)
  constructor
  · by_contra hdrop
    simp only [dropsAtEnd, Bool.or_eq_false_iff, decide_eq_false_iff_not, not_and_or, not_not] at hdrop
    rcases hdrop with rfl | rfl
    · exact absurd hlower.1 (by decide)
    · exact absurd hlower.1 (by decide)
  · rintro rfl
    exact absurd hlower.2 (by decide)

theorem reserved_bytes {stem : List Char} (h : reserved stem = true) : utf8Len stem ≤ 28 := by
  have hlen := (reserved_plain h).1
  have hbytes := utf8Len_le_four_mul stem
  omega

theorem not_reserved_file (stem : List Char) : reserved (stem ++ "_file".toList) = false := by
  by_contra h
  have hplain := (reserved_plain (Bool.of_not_eq_false h)).2 '_' (by simp)
  exact hplain.2 rfl

def freedStem (stem : List Char) : List Char := if reserved stem then stem ++ "_file".toList else stem

theorem dot_not_mem_freedStem {stem : List Char} (h : '.' ∉ stem) : '.' ∉ freedStem stem := by
  unfold freedStem
  split
  · rw [List.mem_append, not_or]
    exact ⟨h, by decide⟩
  · exact h

/-! ## The end of a name -/

theorem rdropWhile_append_some {p : Char → Bool} {s t : List Char} (h : ¬ ∀ c ∈ t, p c = true) :
    (s ++ t).rdropWhile p = s ++ t.rdropWhile p := by
  induction t using List.reverseRecOn with
  | nil => exact absurd (by simp) h
  | append_singleton t c ih =>
    rw [← List.append_assoc, List.rdropWhile_concat, List.rdropWhile_concat]
    split
    · rename_i hc
      refine ih fun ht => h fun d hd => ?_
      rcases List.mem_append.mp hd with hd | hd
      · exact ht d hd
      · rw [List.mem_singleton.mp hd]; exact hc
    · exact List.append_assoc s t [c]

theorem getLast_rdropWhile {p : Char → Bool} {t : List Char} : ∀ c ∈ (t.rdropWhile p).getLast?, p c = false := by
  intro c hc
  have hne : t.rdropWhile p ≠ [] := by
    intro hnil
    rw [hnil] at hc
    cases hc
  have hlast := List.rdropWhile_last_not p t hne
  rw [List.getLast?_eq_some_getLast hne, Option.mem_some_iff] at hc
  rw [hc] at hlast
  simpa using hlast

/-! ## The name that is returned -/

/-- The hardened name before an empty one is replaced. -/
def capped (name : List Char) : List Char := capBytes (freedStem (stemOf name)) (extOf name)

theorem safeName_eq (raw : String) :
    (safeName raw).1 =
      String.ofList (if capped (openable raw.toList) = [] then "upload".toList else capped (openable raw.toList)) := rfl

theorem safeName_rewritten_iff (raw : String) : (safeName raw).2 = true ↔ (safeName raw).1 ≠ raw := by
  simp only [safeName, decide_eq_true_eq]

theorem capBytes_over {stem rest : List Char} (h : maxNameBytes < utf8Len (stem ++ rest)) :
    capBytes stem rest =
      (takeBytes (maxNameBytes - min (utf8Len rest) (maxNameBytes / 2)) stem ++
        takeBytes (maxNameBytes / 2) rest).rdropWhile dropsAtEnd := if_pos h

theorem capBytes_within {stem rest : List Char} (h : ¬ maxNameBytes < utf8Len (stem ++ rest)) :
    capBytes stem rest = stem ++ rest := if_neg h

theorem prefix_keptStem (name : List Char) : keptStem name <+: stemOf name := takeBytes_isPrefix _ _

theorem prefix_keptExt (name : List Char) : keptExt name <+: extOf name := takeBytes_isPrefix _ _

theorem openable_last (raw : List Char) : ∀ c ∈ (openable raw).getLast?, dropsAtEnd c = false := getLast_rdropWhile

theorem legal_openable (raw : List Char) : ∀ c ∈ openable raw, illegalChar c = false := by
  intro c hc
  have hc := (List.dropWhile_suffix _).subset ((List.rdropWhile_prefix _ _).subset hc)
  obtain ⟨d, -, rfl⟩ := List.mem_map.mp hc
  split
  · decide
  · rename_i h; exact Bool.of_not_eq_true h

section
variable (raw : List Char)

theorem legal_capped : ∀ c ∈ capped (openable raw), illegalChar c = false := by
  intro c hc
  have hname : c ∈ stemOf (openable raw) ∨ c ∈ extOf (openable raw) → illegalChar c = false := by
    rw [← List.mem_append, stemOf_append_extOf]
    exact legal_openable raw c
  rcases capBytes_sub _ _ c hc with hc | hc
  · unfold freedStem at hc
    split at hc
    · rcases List.mem_append.mp hc with hc | hc
      · exact hname (Or.inl hc)
      · have hfile : ∀ c ∈ "_file".toList, illegalChar c = false := List.all_iff_forall_prop.mp (by decide)
        exact hfile c hc
    · exact hname (Or.inl hc)
  · exact hname (Or.inr hc)

theorem short_capped : utf8Len (capped (openable raw)) ≤ maxNameBytes := by
  unfold capped capBytes
  split
  · refine (utf8Len_mono (List.rdropWhile_prefix _ _)).trans ?_
    have hstem := utf8Len_takeBytes_le (maxNameBytes - min (utf8Len (extOf (openable raw))) (maxNameBytes / 2))
      (freedStem (stemOf (openable raw)))
    have hhalf := utf8Len_takeBytes_le (maxNameBytes / 2) (extOf (openable raw))
    have hext : utf8Len (takeBytes (maxNameBytes / 2) (extOf (openable raw))) ≤ utf8Len (extOf (openable raw)) :=
      utf8Len_mono (takeBytes_isPrefix _ _)
    rw [utf8Len_append]
    simp only [maxNameBytes] at *
    omega
  · omega

theorem noTrailing_capped : ∀ c ∈ (capped (openable raw)).getLast?, dropsAtEnd c = false := by
  unfold capped capBytes
  split
  · exact getLast_rdropWhile
  · unfold freedStem
    split
    · intro c hc
      have hlast := openable_last raw
      rw [← stemOf_append_extOf (openable raw)] at hlast
      cases hext : extOf (openable raw) with
      | nil =>
        rw [hext, List.append_nil, List.getLast?_append] at hc
        revert c; simp; decide
      | cons d t =>
        rw [hext, List.getLast?_append_of_ne_nil _ (List.cons_ne_nil d t)] at hc hlast
        exact hlast c hc
    · rw [stemOf_append_extOf]
      exact openable_last raw

/-- The stem that is looked up is short if it is reserved, so the cap leaves it. -/
theorem keptStem_not_reserved {name : List Char} (h : reserved (stemOf name) = false) : reserved (keptStem name) = false := by
  by_contra hkept
  have hbytes := reserved_bytes (Bool.of_not_eq_false hkept)
  have hwhole : keptStem name = stemOf name := by
    refine takeBytes_eq_self ?_
    unfold keptStem at hbytes
    simp only [maxNameBytes] at hbytes ⊢
    omega
  rw [hwhole, h] at hkept
  exact hkept rfl

/-- A reserved name that is followed by a gap is no reserved name yet. -/
theorem not_swallowed_of_reserved {name : List Char} (h : reserved (stemOf name) = true) : ¬ Swallowed name := by
  rintro ⟨-, -, device, gap, hkept, -, hgap, hspaces⟩
  obtain ⟨c, hc⟩ := List.exists_mem_of_ne_nil gap hgap
  have hmem : c ∈ stemOf name := (prefix_keptStem name).subset (hkept ▸ List.mem_append_right device hc)
  have hplain := ((reserved_plain h).2 c hmem).1
  rw [hspaces c hc] at hplain
  exact absurd hplain (by decide)

/-- What is left of an extension starts with its dot, if anything is. -/
theorem keptExt_dropped (name : List Char) :
    (keptExt name).rdropWhile dropsAtEnd = [] ∨ ((keptExt name).rdropWhile dropsAtEnd).head? = some '.' :=
  head_of_prefix ((List.rdropWhile_prefix _ _).trans (prefix_keptExt name)) (extOf_head name)

/-- A stem that is reserved is freed, and the cap does not reach it. -/
theorem stemOf_capped_freed {name : List Char} (h : reserved (stemOf name) = true) :
    stemOf (capped name) = stemOf name ++ "_file".toList := by
  have hfreed : freedStem (stemOf name) = stemOf name ++ "_file".toList := if_pos h
  have hdot : '.' ∉ stemOf name ++ "_file".toList := hfreed ▸ dot_not_mem_freedStem (dot_not_mem_stemOf name)
  unfold capped
  rw [hfreed]
  by_cases hover : maxNameBytes < utf8Len (stemOf name ++ "_file".toList ++ extOf name)
  · have hbytes := reserved_bytes h
    have hfile : utf8Len "_file".toList = 5 := by decide +kernel
    have hlast : (stemOf name ++ "_file".toList).rdropWhile dropsAtEnd = stemOf name ++ "_file".toList := by
      refine PyText.rdropWhile_eq_self fun c hc => ?_
      obtain rfl : 'e' = c := by simpa using hc
      decide
    rw [capBytes_over hover, takeBytes_of_le (by rw [utf8Len_append, hfile]; simp only [maxNameBytes]; omega)]
    show stemOf ((_ ++ keptExt name).rdropWhile dropsAtEnd) = _
    by_cases hall : ∀ c ∈ keptExt name, dropsAtEnd c = true
    · rw [PyText.rdropWhile_append_all hall, hlast]
      simpa using stemOf_append hdot (Or.inl rfl)
    · rw [rdropWhile_append_some hall]
      exact stemOf_append hdot (keptExt_dropped name)
  · rw [capBytes_within hover]
    exact stemOf_append hdot (extOf_head name)

theorem reserved_capped_iff (name : List Char) : reserved (stemOf (capped name)) = true ↔ Swallowed name := by
  cases hres : reserved (stemOf name) with
  | true =>
    rw [stemOf_capped_freed hres, not_reserved_file]
    exact iff_of_false (by decide) (not_swallowed_of_reserved hres)
  | false =>
    have hfreed : freedStem (stemOf name) = stemOf name := if_neg (by simp [hres])
    unfold capped
    rw [hfreed]
    by_cases hover : maxNameBytes < utf8Len name
    · rw [capBytes_over (by rwa [stemOf_append_extOf])]
      show reserved (stemOf ((keptStem name ++ keptExt name).rdropWhile dropsAtEnd)) = true ↔ _
      have hdot : '.' ∉ keptStem name := fun h => dot_not_mem_stemOf name ((prefix_keptStem name).subset h)
      have hkept := keptStem_not_reserved hres
      by_cases hall : ∀ c ∈ keptExt name, dropsAtEnd c = true
      · rw [PyText.rdropWhile_append_all hall]
        have hstem : stemOf ((keptStem name).rdropWhile dropsAtEnd) = (keptStem name).rdropWhile dropsAtEnd := by
          have hno : '.' ∉ (keptStem name).rdropWhile dropsAtEnd := fun h => hdot ((List.rdropWhile_prefix _ _).subset h)
          simpa using stemOf_append hno (Or.inl rfl)
        rw [hstem]
        constructor
        · intro hdevice
          refine ⟨hover, hall, (keptStem name).rdropWhile dropsAtEnd, (keptStem name).rtakeWhile dropsAtEnd,
            (List.rdropWhile_append_rtakeWhile).symm, hdevice, fun hnil => ?_, fun c hc => ?_⟩
          · have hwhole := List.rdropWhile_append_rtakeWhile (p := dropsAtEnd) (l := keptStem name)
            rw [hnil, List.append_nil] at hwhole
            rw [hwhole, hkept] at hdevice
            cases hdevice
          · have hdrop := List.mem_rtakeWhile_imp hc
            have hne : c ≠ '.' := fun h => hdot (h ▸ (List.rtakeWhile_suffix _ _).subset hc)
            simpa [dropsAtEnd, hne] using hdrop
        · rintro ⟨-, -, device, gap, hsplit, hdevice, -, hspaces⟩
          have hgap : ∀ c ∈ gap, dropsAtEnd c = true := fun c hc => by rw [hspaces c hc]; decide
          have hlast : device.rdropWhile dropsAtEnd = device :=
            PyText.rdropWhile_eq_self fun c hc => ((reserved_plain hdevice).2 c (List.mem_of_getLast? hc)).1
          rw [hsplit, PyText.rdropWhile_append_all hgap, hlast]
          exact hdevice
      · rw [rdropWhile_append_some hall, stemOf_append hdot (keptExt_dropped name), hkept]
        exact iff_of_false (by decide) fun h => hall h.2.1
    · rw [capBytes_within (by rwa [stemOf_append_extOf]), stemOf_append_extOf, hres]
      exact iff_of_false (by decide) fun h => hover h.1

theorem noLeadingDot_capped : (capped (openable raw)).head? ≠ some '.' := by
  have hhead := openable_head raw
  rw [← stemOf_append_extOf (openable raw)] at hhead
  unfold capped
  cases hstem : stemOf (openable raw) with
  | nil =>
    have hext : extOf (openable raw) = [] := by
      refine (extOf_head (openable raw)).resolve_right fun h => hhead ?_
      rw [hstem]
      exact h
    rw [hext]
    decide
  | cons c t =>
    have hfreed : freedStem (c :: t) ≠ [] ∧ (freedStem (c :: t)).head? = some c := by
      unfold freedStem
      split <;> simp
    rw [hstem] at hhead
    rcases capBytes_head hfreed.1 (extOf (openable raw)) with h | h
    · rw [h]; simp
    · rw [h, hfreed.2]
      exact hhead

end

/-! ## Usable names -/

/-- Where the cap uncovers no reserved name, the name is usable. -/
theorem usable_safeName_iff (raw : String) : Usable (safeName raw).1 ↔ ¬ Swallowed (openable raw.toList) := by
  rw [safeName_eq]
  set name := capped (openable raw.toList) with hname
  by_cases hnil : name = []
  · rw [if_pos hnil]
    have hfree : ¬ Swallowed (openable raw.toList) := by
      rw [← reserved_capped_iff, ← hname, hnil]
      decide
    refine iff_of_true ⟨by decide, by decide, List.all_iff_forall_prop.mp (by decide), by decide, ?_, by decide, by decide +kernel⟩ hfree
    rintro c ⟨⟩
    decide
  · rw [if_neg hnil, ← reserved_capped_iff, ← hname]
    have hlegal := legal_capped raw.toList
    rw [← hname] at hlegal
    have hslash : '/' ∉ name := by
      have hplain := (safeName_plain raw).noSlash
      rw [safeName_eq, ← hname, if_neg hnil, String.toList_ofList] at hplain
      exact hplain
    constructor
    · intro h
      have hfree := h.notReserved
      rw [String.toList_ofList] at hfree
      rw [hfree]
      decide
    · intro hfree
      refine ⟨fun h => hnil (by simpa using congrArg String.toList h), ?_, ?_, ?_, ?_, ?_, ?_⟩
      · rw [String.toList_ofList]
        exact ⟨hslash, fun h => absurd (hlegal _ h) (by decide)⟩
      · rw [String.toList_ofList]; exact hlegal
      · rw [String.toList_ofList]; exact noLeadingDot_capped raw.toList
      · rw [String.toList_ofList]; exact noTrailing_capped raw.toList
      · rw [utf8ByteSize_ofList]; exact short_capped raw.toList
      · rw [String.toList_ofList]; exact Bool.of_not_eq_true hfree

/-- A usable name passes every step as it is. -/
theorem safeName_fixed {name : String} (h : Usable name) : safeName name = (name, false) := by
  have hlast : lastComponent name.toList = name.toList := by
    unfold lastComponent
    have hmap : (name.toList.map fun c => if c = '\\' then '/' else c) = name.toList := by
      refine (List.map_congr_left fun c hc => ?_).trans (List.map_id _)
      have hne : c ≠ '\\' := fun hb => h.noSeparator.2 (hb ▸ hc)
      rw [if_neg hne]
      rfl
    rw [hmap, List.rtakeWhile_eq_self_iff]
    intro c hc
    simp only [ne_eq, decide_eq_true_eq]
    exact fun hs => h.noSeparator.1 (hs ▸ hc)
  have hopen : openable name.toList = name.toList := by
    have hmap : (name.toList.map fun c => if illegalChar c then '_' else c) = name.toList := by
      refine (List.map_congr_left fun c hc => ?_).trans (List.map_id _)
      rw [if_neg (by rw [h.legal c hc]; decide)]
      rfl
    have hdots : name.toList.dropWhile (· = '.') = name.toList := by
      rw [List.dropWhile_eq_self_iff]
      intro hlen hc
      refine h.noLeadingDot ?_
      rw [List.head?_eq_getElem?, List.getElem?_eq_getElem hlen, of_decide_eq_true hc]
    unfold openable
    rw [hlast, hmap, hdots, PyText.rdropWhile_eq_self h.noTrailing]
  have hcapped : capped name.toList = name.toList := by
    have hfreed : freedStem (stemOf name.toList) = stemOf name.toList := if_neg (by rw [h.notReserved]; decide)
    have hshort := h.short
    rw [← String.ofList_toList (s := name), utf8ByteSize_ofList] at hshort
    unfold capped
    rw [hfreed, capBytes_within (by rw [stemOf_append_extOf]; omega), stemOf_append_extOf]
  have hsame : (safeName name).1 = name := by
    rw [safeName_eq, hopen, hcapped, if_neg fun hnil => h.nonempty (by rw [← String.ofList_toList (s := name), hnil])]
    exact String.ofList_toList
  exact Prod.ext hsame (Bool.of_not_eq_true fun hrewritten => (safeName_rewritten_iff name).mp hrewritten hsame)

/-- For every name a client sends: what `safe_name` returns is usable on NTFS, and is left as
    it is by `safe_name`, if and only if the byte cap does not leave a reserved name and a
    gap of it. -/
theorem safeName_usable_iff (raw : String) :
    (Usable (safeName raw).1 ∧ safeName (safeName raw).1 = ((safeName raw).1, false)) ↔
      ¬ Swallowed (openable raw.toList) := by
  rw [← usable_safeName_iff]
  exact ⟨fun h => h.1, fun h => ⟨h, safeName_fixed h⟩⟩

/-- A reserved name, a space, and an extension of a hundred dots before its first letter. -/
def deviceBehindDots : String := "con " ++ String.ofList (List.replicate 200 '.') ++ "txt"

/-- The name passes as none of the devices, and the cap makes it one. -/
theorem the_cap_uncovers_a_device :
    (safeName deviceBehindDots).1 = "con" ∧ ¬ Usable (safeName deviceBehindDots).1 ∧
      (safeName (safeName deviceBehindDots).1).1 = "con_file" := by
  have hname : (safeName deviceBehindDots).1 = "con" := by decide +kernel
  refine ⟨hname, fun h => ?_, by rw [hname]; decide +kernel⟩
  have hfree := h.notReserved
  rw [hname] at hfree
  revert hfree
  decide +kernel

end CoreHeartbeat.Uploads
