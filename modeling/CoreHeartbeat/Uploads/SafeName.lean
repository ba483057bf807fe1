/-
  CoreHeartbeat.Uploads.SafeName — the name an upload is stored under (`safe_name` of
  `services/uploads.py`): the last component of what the client sent, without what NTFS refuses,
  hides or drops, not a reserved device name, and at most 200 bytes.

  The client's name is any text, with either separator. The steps are those of the source in its
  order: the last component, the illegal characters replaced, leading dots and trailing dots and
  spaces dropped, a reserved stem freed with `_file` behind it, the stem cut to the byte cap, a
  last look for trailing dots, and a name for what came out empty. `Usable` is about the order
  of these steps; here are the steps.

  A byte prefix decoded with `errors="ignore"` is the longest prefix of whole characters in it
  (`takeBytes`). No character outside ASCII lowers to one of a reserved stem's, so lowering is
  ASCII's.

  Proved:
  - `openable_head`, `capBytes_head`: no step brings back a leading dot, and the cap leaves the
    first character of the stem.
  - `safeName_plain`: the name is one plain component, whatever was sent.
-/

import CoreHeartbeat.Lib.Posix
import Mathlib.Data.List.DropRight

namespace CoreHeartbeat.Uploads

open Posix

def maxNameBytes : Nat := 200

def reservedStems : List String :=
  ["con", "prn", "aux", "nul", "conin$", "conout$"] ++ (List.range 10).map (fun i => "com" ++ toString i) ++
    (List.range 10).map (fun i => "lpt" ++ toString i)

/-- `_ILLEGAL_CHARS`. -/
def illegalChar (c : Char) : Bool := "<>:\"\\|?*".toList.contains c || c.toNat < 0x20

def utf8Len (t : List Char) : Nat := t.foldl (fun n c => n + c.utf8Size) 0

/-- The characters that lie whole in the first `n` bytes. -/
def takeBytes : Nat → List Char → List Char
  | _, [] => []
  | n, c :: t => if c.utf8Size ≤ n then c :: takeBytes (n - c.utf8Size) t else []

/-- The characters NTFS drops at the end of a name. -/
def dropsAtEnd (c : Char) : Bool := c = '.' || c = ' '

/-- The last component, on either separator. -/
def lastComponent (raw : List Char) : List Char :=
  (raw.map fun c => if c = '\\' then '/' else c).rtakeWhile (· ≠ '/')

/-- The name before it is looked up among the reserved ones. -/
def openable (raw : List Char) : List Char :=
  (((lastComponent raw).map fun c => if illegalChar c then '_' else c).dropWhile (· = '.')).rdropWhile dropsAtEnd

/-- The stem is cut to what the extension leaves of the byte limit. -/
def capBytes (stem rest : List Char) : List Char :=
  if maxNameBytes < utf8Len (stem ++ rest) then
    let half := maxNameBytes / 2
    (takeBytes (maxNameBytes - min (utf8Len rest) half) stem ++ takeBytes half rest).rdropWhile dropsAtEnd
  else stem ++ rest

/-- `safe_name`: the name, and whether it is another than the client asked for. -/
def safeName (raw : String) : String × Bool :=
  let name := openable raw.toList
  let stem := name.takeWhile (· ≠ '.')
  let rest := name.dropWhile (· ≠ '.')
  let stem := if reservedStems.contains (String.ofList (stem.map Char.toLower)) then stem ++ "_file".toList else stem
  let name := capBytes stem rest
  let name := String.ofList (if name = [] then "upload".toList else name)
  (name, name ≠ raw)

/-! ## The name is one component -/

theorem takeBytes_isPrefix (n : Nat) (t : List Char) : takeBytes n t <+: t := by
  induction t generalizing n with
  | nil => exact List.prefix_refl _
  | cons c t ih =>
    rw [takeBytes]
    split
    · exact List.cons_prefix_cons.mpr ⟨rfl, ih _⟩
    · exact List.nil_prefix

theorem lastComponent_noSlash (raw : List Char) : '/' ∉ lastComponent raw := by
  intro h
  simpa using List.mem_rtakeWhile_imp h

theorem openable_noSlash (raw : List Char) : '/' ∉ openable raw := by
  intro h
  have h := (List.dropWhile_suffix _).subset ((List.rdropWhile_prefix _ _).subset h)
  obtain ⟨c, hc, heq⟩ := List.mem_map.mp h
  split at heq
  · revert heq; decide
  · rw [heq] at hc
    exact lastComponent_noSlash raw hc

/-- No name that is hidden, or that is a dot component. -/
theorem openable_head (raw : List Char) : (openable raw).head? ≠ some '.' := by
  intro h
  obtain ⟨t, ht⟩ := List.rdropWhile_prefix dropsAtEnd
    (((lastComponent raw).map fun c => if illegalChar c then '_' else c).dropWhile (· = '.'))
  have hhead := List.head?_dropWhile_not (· = '.') ((lastComponent raw).map fun c => if illegalChar c then '_' else c)
  rw [← ht, List.head?_append] at hhead
  unfold openable at h
  rw [h] at hhead
  simp at hhead

theorem capBytes_sub (stem rest : List Char) : ∀ c ∈ capBytes stem rest, c ∈ stem ∨ c ∈ rest := by
  intro c hc
  unfold capBytes at hc
  split at hc
  · rcases List.mem_append.mp ((List.rdropWhile_prefix _ _).subset hc) with hc | hc
    · exact Or.inl ((takeBytes_isPrefix _ _).subset hc)
    · exact Or.inr ((takeBytes_isPrefix _ _).subset hc)
  · exact List.mem_append.mp hc

/-- The cap leaves the first character of the stem. -/
theorem capBytes_head {stem : List Char} (hne : stem ≠ []) (rest : List Char) :
    capBytes stem rest = [] ∨ (capBytes stem rest).head? = stem.head? := by
  obtain ⟨c, stem, rfl⟩ := List.exists_cons_of_ne_nil hne
  unfold capBytes
  split
  · have hkeep : c.utf8Size ≤ maxNameBytes - min (utf8Len rest) (maxNameBytes / 2) := by
      have := Char.utf8Size_le_four c
      simp only [maxNameBytes]
      omega
    simp only [takeBytes, if_pos hkeep, List.cons_append]
    rcases List.prefix_cons_iff.mp (List.rdropWhile_prefix dropsAtEnd _) with hnil | ⟨t, ht, -⟩
    · exact Or.inl hnil
    · exact Or.inr (by rw [ht]; rfl)
  · exact Or.inr rfl

theorem safeName_plain (raw : String) : PlainName (safeName raw).1 := by
  set name := openable raw.toList with hname
  set stem := if reservedStems.contains (String.ofList ((name.takeWhile (· ≠ '.')).map Char.toLower)) then
    name.takeWhile (· ≠ '.') ++ "_file".toList else name.takeWhile (· ≠ '.') with hstem
  set cs := capBytes stem (name.dropWhile (· ≠ '.')) with hcs
  have hsafe : (safeName raw).1 = String.ofList (if cs = [] then "upload".toList else cs) := rfl
  have hstart : name ≠ [] → stem ≠ [] ∧ stem.head? = name.head? := by
    intro hne
    obtain ⟨c, t, hcons⟩ := List.exists_cons_of_ne_nil hne
    have hc : c ≠ '.' := fun h => openable_head raw.toList (by rw [← hname, hcons, h]; rfl)
    rw [hstem, hcons, List.takeWhile_cons_of_pos (by simpa using hc)]
    split <;> exact ⟨by simp, rfl⟩
  have hslash : '/' ∉ cs := by
    intro h
    have hno : '/' ∉ name := openable_noSlash raw.toList
    rcases capBytes_sub _ _ _ h with h | h
    · rw [hstem] at h
      split at h
      · rcases List.mem_append.mp h with h | h
        · exact hno ((List.takeWhile_prefix _).subset h)
        · revert h; decide
      · exact hno ((List.takeWhile_prefix _).subset h)
    · exact hno ((List.dropWhile_suffix _).subset h)
  have hhead : cs.head? ≠ some '.' := by
    by_cases hne : name = []
    · have hnil : cs = [] := by
        rw [hcs, hstem, hne]
        decide
      rw [hnil]
      simp
    · obtain ⟨hstem_ne, hsame⟩ := hstart hne
      rcases capBytes_head hstem_ne (name.dropWhile (· ≠ '.')) with h | h
      · rw [hcs, h]; simp
      · rw [hcs, h, hsame]; exact openable_head raw.toList
  rw [hsafe]
  split
  · exact ⟨by decide, by decide, by decide, by decide⟩
  · rename_i hne
    refine ⟨by rw [String.toList_ofList]; exact hslash, ?_, ?_, ?_⟩
    · intro h; apply hne; simpa using congrArg String.toList h
    · intro h; apply hhead; rw [← String.toList_ofList (l := cs), h]; rfl
    · intro h; apply hhead; rw [← String.toList_ofList (l := cs), h]; rfl

end CoreHeartbeat.Uploads
