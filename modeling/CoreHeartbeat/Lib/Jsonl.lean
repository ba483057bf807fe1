/-
  CoreHeartbeat.Lib.Jsonl — a log of JSON objects, one a line, that several writers append to.

  A line is appended with one write, which lands whole or is cut short anywhere (a full disk, a
  crash). What was cut and the next line are one line of the log. The log is the appends in
  their order, each with how much of its line landed, and its text is what landed, one after the
  other.

  A reader splits the text into lines, skips blank ones, and reads each as JSON; the lines that
  are no JSON it drops. The objects are written in ASCII on one line, and each begins with a key
  that nothing can be mistaken for the continuation of a string with, so that a line made of cut
  ones is no JSON (`PyJsonCut`).

  Proved:
  - `read_whole`: a log without cut lines is read back as what was appended.
  - `read_kept`: every object whose line landed whole on a line of its own is read back, in
    order, whatever else was cut.
  - `kept_loses`: each cut costs at most one object besides its own.
  - `read_genuine`: a line made of cut ones is not JSON, so every object that is read is one
    that was appended.
-/

import CoreHeartbeat.Lib.PyJsonCut

namespace Jsonl

open PyJson (Value Style dumps loads floatsOk Sealed Tail)

def line (v : Value) : List Char := dumps .compact v ++ ['\n']

/-- An append: the object, and how much of its line landed. -/
structure Landed where
  value : Value
  count : Nat

def Landed.text (l : Landed) : List Char := (line l.value).take l.count

def Landed.whole (l : Landed) : Bool := (line l.value).length ≤ l.count

/-- The lines of a text; the last one may lack its end. -/
def lines : List Char → List (List Char)
  | [] => []
  | '\n' :: s => [] :: lines s
  | c :: s =>
    match lines s with
    | [] => [[c]]
    | l :: ls => (c :: l) :: ls

/-- `[json.loads(line) for line in text.splitlines() if line.strip()]`, line by line. -/
def read (s : List Char) : List (Option Value) := ((lines s).filter fun l => !l.all PyJson.isBlank).map loads

/-- The objects whose line landed whole on a line of its own. -/
def kept : Bool → List Landed → List Value
  | _, [] => []
  | fresh, l :: ls =>
    if l.whole then (if fresh then [l.value] else []) ++ kept true ls
    else kept (fresh && l.count == 0) ls

/-! ## Lines -/

theorem lines_cons {c : Char} (hc : c ≠ '\n') (s : List Char) : lines (c :: s) = match lines s with
    | [] => [[c]]
    | l :: ls => (c :: l) :: ls := by
  rw [lines]
  exact hc

theorem lines_append {l : List Char} (h : '\n' ∉ l) (s : List Char) : lines (l ++ '\n' :: s) = l :: lines s := by
  induction l with
  | nil => rfl
  | cons c l ih =>
    obtain ⟨hc, hl⟩ := List.ne_and_not_mem_of_not_mem_cons h
    rw [List.cons_append, lines_cons hc.symm, ih hl]

theorem lines_last {l : List Char} (h : '\n' ∉ l) (hne : l ≠ []) : lines l = [l] := by
  induction l with
  | nil => exact absurd rfl hne
  | cons c l ih =>
    obtain ⟨hc, hl⟩ := List.ne_and_not_mem_of_not_mem_cons h
    rw [lines_cons hc.symm]
    cases l with
    | nil => rfl
    | cons d l => rw [ih hl (List.cons_ne_nil _ _)]

theorem newline_not_mem {v : Value} (h : floatsOk v = true) : '\n' ∉ dumps .compact v := fun hmem =>
  absurd (List.all_eq_true.mp (PyJson.dumps_printable .compact v h) _ hmem) (by decide)

theorem text_whole {l : Landed} (h : l.whole = true) : l.text = dumps .compact l.value ++ ['\n'] :=
  List.take_of_length_le (of_decide_eq_true h)

theorem text_cut {l : Landed} (h : l.whole = false) : l.text = (dumps .compact l.value).take l.count := by
  have hlt := of_decide_eq_false h
  simp only [line, List.length_append, List.length_singleton] at hlt
  exact List.take_append_of_le_length (by omega)

theorem nonblank {v : Value} (h : floatsOk v = true) (c : List Char) :
    (!(c ++ dumps .compact v).all PyJson.isBlank) = true := by
  obtain ⟨d, t, ht, hblank, -⟩ := PyJson.dumps_head .compact h
  simp [ht, hblank]

/-- A line that landed whole ends what was carried. -/
theorem read_line {c : List Char} (hc : '\n' ∉ c) {v : Value} (hv : floatsOk v = true) (s : List Char) :
    read (c ++ (dumps .compact v ++ ['\n'] ++ s)) = loads (c ++ dumps .compact v) :: read s := by
  have hline : '\n' ∉ c ++ dumps .compact v := by
    rw [List.mem_append]
    exact not_or.mpr ⟨hc, newline_not_mem hv⟩
  have hshape : c ++ (dumps .compact v ++ ['\n'] ++ s) = (c ++ dumps .compact v) ++ '\n' :: s := by simp
  rw [read, hshape, lines_append hline, List.filter_cons, if_pos (nonblank hv c), List.map_cons]
  rfl

/-! ## What is read -/

variable {ls : List Landed}

theorem kept_sublist (hls : ∀ l ∈ ls, floatsOk l.value = true) {c : List Char} (hc : '\n' ∉ c) :
    ((kept (c == []) ls).map some).Sublist (read (c ++ ls.flatMap Landed.text)) := by
  induction ls generalizing c with
  | nil => exact List.nil_sublist _
  | cons l ls ih =>
    obtain ⟨hl, hls⟩ := List.forall_mem_cons.mp hls
    rw [List.flatMap_cons, kept]
    cases hw : l.whole with
    | true =>
      rw [text_whole hw, if_pos rfl, List.map_append, read_line hc hl]
      have hrest := ih hls (c := []) List.not_mem_nil
      cases hfresh : c == [] with
      | true =>
        rw [eq_of_beq hfresh, List.nil_append, PyJson.loads_dumps .compact hl]
        exact hrest.cons_cons _
      | false => exact hrest.cons _
    | false =>
      rw [if_neg Bool.false_ne_true, text_cut hw, ← List.append_assoc]
      have hcut : '\n' ∉ (dumps .compact l.value).take l.count := fun hmem =>
        newline_not_mem hl (List.take_subset _ _ hmem)
      have hcarry : '\n' ∉ c ++ (dumps .compact l.value).take l.count := by
        rw [List.mem_append]
        exact not_or.mpr ⟨hc, hcut⟩
      have hfresh : (c ++ (dumps .compact l.value).take l.count == []) = (c == [] && l.count == 0) := by
        have hne : dumps .compact l.value ≠ [] := List.ne_nil_of_length_pos (PyJson.length_pos_dumps .compact hl)
        rw [Bool.eq_iff_iff]
        simp [List.take_eq_nil_iff, hne]
      rw [← hfresh]
      exact ih hls hcarry

/-- Every object whose line landed whole on a line of its own is read, in order. -/
theorem read_kept (hls : ∀ l ∈ ls, floatsOk l.value = true) :
    ((kept true ls).map some).Sublist (read (ls.flatMap Landed.text)) :=
  kept_sublist hls (c := []) List.not_mem_nil

theorem kept_loses (fresh : Bool) (ls : List Landed) :
    (ls.filter Landed.whole).length ≤
      (kept fresh ls).length + (ls.filter fun l => !l.whole).length + (if fresh then 0 else 1) := by
  induction ls generalizing fresh with
  | nil => exact Nat.zero_le _
  | cons l ls ih =>
    rw [kept, List.filter_cons, List.filter_cons]
    cases hw : l.whole with
    | true =>
      have := ih true
      cases fresh <;> simp at this ⊢ <;> omega
    | false =>
      have := ih (fresh && l.count == 0)
      have hone : (if (fresh && l.count == 0) = true then 0 else 1) ≤ 1 := by split <;> omega
      simp only [Bool.false_eq_true, if_false, Bool.not_false, if_true, List.length_cons] at this ⊢
      omega

theorem read_whole (hls : ∀ l ∈ ls, floatsOk l.value = true) (hwhole : ∀ l ∈ ls, l.whole = true) :
    read (ls.flatMap Landed.text) = ls.map fun l => some l.value := by
  induction ls with
  | nil => rfl
  | cons l ls ih =>
    obtain ⟨hl, hls⟩ := List.forall_mem_cons.mp hls
    obtain ⟨hw, hwhole⟩ := List.forall_mem_cons.mp hwhole
    have hread := read_line (c := []) List.not_mem_nil hl (ls.flatMap Landed.text)
    rw [List.nil_append, List.nil_append, PyJson.loads_dumps .compact hl] at hread
    rw [List.flatMap_cons, text_whole hw, hread, ih hls hwhole, List.map_cons]

def Parts (ps : List (Value × List Char)) : Prop :=
  ∀ e ∈ ps, Sealed e.1 ∧ floatsOk e.1 = true ∧ e.2 <+: dumps .compact e.1

theorem tail_parts {ps : List (Value × List Char)} (h : Parts ps) : Tail (ps.flatMap (·.2)) := by
  induction ps with
  | nil => exact PyJson.tail_nil
  | cons e ps ih =>
    obtain ⟨⟨hsealed, hv, hp⟩, hps⟩ := List.forall_mem_cons.mp h
    exact PyJson.tail_append hsealed hv hp (ih hps)

/-- What parts together are read as is one of them. -/
theorem loads_parts {ps : List (Value × List Char)} (h : Parts ps) {x : Value}
    (hx : loads (ps.flatMap (·.2)) = some x) : x ∈ ps.map (·.1) := by
  induction ps with
  | nil => cases hx
  | cons e ps ih =>
    obtain ⟨⟨hsealed, hv, hp⟩, hps⟩ := List.forall_mem_cons.mp h
    rw [List.flatMap_cons] at hx
    by_cases hne : e.2 = []
    · rw [hne, List.nil_append] at hx
      exact List.mem_cons_of_mem _ (ih hps hx)
    · rw [(PyJson.loads_cut hsealed hv hp hne (tail_parts hps) hx).1]
      exact List.mem_cons_self

theorem parts_nil : Parts [] := nofun

theorem parts_newline {ps : List (Value × List Char)} (h : Parts ps) : '\n' ∉ ps.flatMap (·.2) := by
  intro hmem
  obtain ⟨e, he, hmem⟩ := List.mem_flatMap.mp hmem
  obtain ⟨-, hv, hp⟩ := h e he
  exact newline_not_mem hv (hp.subset hmem)

theorem parts_concat {ps : List (Value × List Char)} (hps : Parts ps) {v : Value} (hsealed : Sealed v)
    (hv : floatsOk v = true) {p : List Char} (hp : p <+: dumps .compact v) : Parts (ps ++ [(v, p)]) := by
  intro e he
  rcases List.mem_append.mp he with he | he
  · exact hps e he
  · rw [List.mem_singleton.mp he]
    exact ⟨hsealed, hv, hp⟩

/-- What is read of parts and then a log is one of either. -/
theorem read_parts (hls : ∀ l ∈ ls, Sealed l.value ∧ floatsOk l.value = true) {ps : List (Value × List Char)} (hps : Parts ps)
    {x : Value} (hx : some x ∈ read (ps.flatMap (·.2) ++ ls.flatMap Landed.text)) :
    x ∈ ps.map (·.1) ∨ x ∈ ls.map Landed.value := by
  induction ls generalizing ps with
  | nil =>
    rw [List.flatMap_nil, List.append_nil] at hx
    by_cases hne : ps.flatMap (·.2) = []
    · rw [hne] at hx
      cases hx
    · rw [read, lines_last (parts_newline hps) hne] at hx
      obtain ⟨l, hl, hloads⟩ := List.mem_map.mp hx
      rw [List.mem_singleton.mp (List.mem_of_mem_filter hl)] at hloads
      exact Or.inl (loads_parts hps hloads)
  | cons l ls ih =>
    obtain ⟨⟨hsealed, hl⟩, hls⟩ := List.forall_mem_cons.mp hls
    rw [List.flatMap_cons] at hx
    cases hw : l.whole with
    | true =>
      rw [text_whole hw, read_line (parts_newline hps) hl] at hx
      rcases List.mem_cons.mp hx with hx | hx
      · have hparts := loads_parts (parts_concat hps hsealed hl List.prefix_rfl) (x := x) (by simpa using hx.symm)
        rw [List.map_append, List.mem_append] at hparts
        rcases hparts with hps | hlast
        · exact Or.inl hps
        · exact Or.inr (List.mem_cons.mpr (Or.inl (List.mem_singleton.mp hlast)))
      · rcases ih hls parts_nil hx with hnil | hrest
        · cases hnil
        · exact Or.inr (List.mem_cons_of_mem _ hrest)
    | false =>
      rw [text_cut hw, ← List.append_assoc] at hx
      have hnext := parts_concat hps hsealed hl (List.take_prefix l.count (dumps .compact l.value))
      rcases ih hls hnext (by simpa using hx) with hparts | hrest
      · rw [List.map_append, List.mem_append] at hparts
        rcases hparts with hps | hlast
        · exact Or.inl hps
        · exact Or.inr (List.mem_cons.mpr (Or.inl (List.mem_singleton.mp hlast)))
      · exact Or.inr (List.mem_cons_of_mem _ hrest)

/-- Every object that is read was appended. -/
theorem read_genuine (hls : ∀ l ∈ ls, Sealed l.value ∧ floatsOk l.value = true) {x : Value}
    (hx : some x ∈ read (ls.flatMap Landed.text)) : x ∈ ls.map Landed.value :=
  (read_parts hls parts_nil hx).resolve_left List.not_mem_nil

end Jsonl
