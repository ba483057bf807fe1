/-
  CoreHeartbeat.Uploads.Routes — the three routes over the upload folder (`upload_file`,
  `list_uploads`, `delete_upload` of `router.py`), and the name of a file across them.

  An upload's name comes percent-encoded in a header, which only the handler decodes. A
  deletion's comes percent-encoded in the path, which the framework has decoded once before the
  handler decodes it again. The listing hides what ends in `.part`. A caller is an admin, is
  none, or the table of profiles cannot tell; a listing may meet entries that it cannot read.

  What is asked is whether the three agree on a name: what was stored is listed, and a deletion
  of the name that was reported, encoded by any encoder, removes that file and no other. The
  condition is on the hardened name of the upload's header, before the folder gave it a number.

  Proved:
  - `isListed_iff`: a file of the folder is listed, unless it is hidden or a call fails.
  - `removesExactly_iff`: the encoding of a name deletes the file, and no other, unless the name
    reads as an encoding itself or a call fails.
  - `numbered_escape`, `numbered_part_iff`: a name is hidden or decoded a second time as the
    hardened name is that it was made from.
  - `names_agree_iff`: a stored file is listed, and deleted by the encoding of its name, if and
    only if its hardened name has neither the suffix nor an escape, and the two requests are
    answered (`names_agree_iff_plain`).
  - `a_percent_sign_deletes_another_file`: `a%20b.txt` is deleted, and the file that goes is `a
    b.txt`.
-/

import CoreHeartbeat.Lib.Percent
import CoreHeartbeat.Lib.PyText
import CoreHeartbeat.Uploads.AllOrNothing
import CoreHeartbeat.Uploads.Sentinel
import CoreHeartbeat.Uploads.Usable
import Mathlib.Data.List.Sort

namespace CoreHeartbeat.Uploads

open Posix

/-- How the folder compares names: character by character, ASCII as it is or without case. -/
structure NameTable where
  up : Char → Char
  ascii : (∀ c : Char, c.toNat < 128 → up c = c) ∨ ∀ c : Char, c.toNat < 128 → up c = c.toUpper

def NameTable.fold (t : NameTable) (name : String) : String := String.ofList (name.toList.map t.up)

/-! ## The routes -/

inductive Response (α : Type) where
  | ok (content : α)
  | refused (status : Nat) (detail : String)
  /-- The request was cancelled. -/
  | cancelled (exc : String)

/-- Who sends a request; `isAdmin` is `kbstore.is_admin`, unless it raises. -/
structure Caller where
  userId : String
  isAdmin : Option Bool

def sandboxUserId : String := "sandbox-user"

def requireAdmin (c : Caller) : Option (Nat × String) :=
  if c.userId = sandboxUserId then some (401, "authentication required for file uploads")
  else if c.isAdmin.getD false then none
  else some (403, "admin required for file uploads")

variable (fold : String → String)

/-- `unquote`, on a string. -/
def unquoted (s : String) : String := String.ofList (Percent.unquote s.toList)

/-- `POST /uploads`. -/
def uploadFile (caller : Caller) (cfg : Config) (d : Disk) (root : Path) (header : String) (stream : Stream)
    (f : Folder) : Response Stored × Folder :=
  match requireAdmin caller with
  | some (status, detail) => (.refused status detail, f)
  | none =>
    let rawName := unquoted header
    if PyText.strip rawName.toList = [] then (.refused 400 "X-Upload-Filename is required", f)
    else
      match storeStream fold cfg d root stream rawName f with
      | (.ok r, f) => (.ok r, f)
      | (.error (.upload e), f) => (.refused e.status e.detail, f)
      | (.error (.exception _), f) => (.refused 500 "upload failed", f)
      | (.error (.base exc), f) => (.cancelled exc, f)

structure Listed where
  name : String
  sizeBytes : Nat
  modified : Int

/-- What a listing meets on the disk: `iterdir` raises, or `is_file` or `stat` of an entry. -/
structure Reading where
  iterFault : Bool := false
  statFault : String → Bool := fun _ => false
  modified : String → Int := fun _ => 0

def isHidden (name : String) : Bool := name = sentinel || partSuffix.toList.isSuffixOf name.toList

def listEntry (r : Reading) (item : Item) : Option Listed :=
  if isHidden item.name || r.statFault item.name then none
  else
    match item.entry with
    | .file data => some ⟨item.name, data.size, r.modified item.name⟩
    | .dir => none

/-- `list_uploads` of the service: newest first. -/
def listing (r : Reading) (f : Folder) : List Listed :=
  (f.entries.filterMap fun e => listEntry r e.2).insertionSort fun a b => b.modified ≤ a.modified

/-- `GET /uploads`. -/
def listUploads (caller : Caller) (r : Reading) (f : Folder) : Response (List Listed) :=
  match requireAdmin caller with
  | some (status, detail) => .refused status detail
  | none =>
    match ensureRoot fold f with
    | .error e => .refused e.status e.detail
    | .ok () => if r.iterFault then .refused 500 "could not read the upload folder" else .ok (listing r f)

/-- `DELETE /uploads/{name:path}`, for a name that the framework has decoded. -/
def deleteFile (caller : Caller) (r : Removal) (root : Path) (name : String) (f : Folder) : Response String × Folder :=
  match requireAdmin caller with
  | some (status, detail) => (.refused status detail, f)
  | none =>
    match deleteUpload fold r root (unquoted name) f with
    | (.ok (), f) => (.ok name, f)
    | (.error (.upload e), f) => (.refused e.status e.detail, f)
    | (.error (.exception _), f) => (.refused 500 "delete failed", f)
    | (.error (.base exc), f) => (.cancelled exc, f)

/-- `DELETE` on the path itself: the framework decodes it once. -/
def deletePath (caller : Caller) (r : Removal) (root : Path) (path : String) (f : Folder) : Response String × Folder :=
  deleteFile fold caller r root (unquoted path) f

/-! ## One name across the routes -/

def IsListed (caller : Caller) (r : Reading) (name : String) (f : Folder) : Prop :=
  ∃ files, listUploads fold caller r f = .ok files ∧ name ∈ files.map (·.name)

/-- The file is gone, and nothing else. -/
def RemovesExactly (name : String) (f f' : Folder) : Prop :=
  ∀ q, f'.lookup q = if q = fold name then none else f.lookup q

/-! ## The names of a series -/

theorem rtakeWhile_dot {stem ext : List Char} (hdot : '.' ∉ ext) :
    (stem ++ '.' :: ext).rtakeWhile (fun c : Char => decide (c ≠ '.')) = ext := by
  have hplain : ∀ c ∈ ext.reverse, decide (c ≠ '.') = true := by
    intro c hc
    simp only [decide_eq_true_eq]
    rintro rfl
    exact hdot (List.mem_reverse.mp hc)
  rw [List.rtakeWhile, List.reverse_append, List.reverse_cons, List.append_assoc,
    List.takeWhile_append_of_pos hplain]
  simp

/-- A name with a dot is cut at its last, unless one side is empty. -/
theorem stemSuffix_split {name : String} {stem ext : List Char} (h : name.toList = stem ++ '.' :: ext)
    (hdot : '.' ∉ ext) :
    stemSuffix name = if stem = [] ∨ ext = [] then (name, "") else (String.ofList stem, String.ofList ('.' :: ext)) := by
  have htake : name.toList.rtakeWhile (fun c : Char => decide (c ≠ '.')) = ext := by rw [h, rtakeWhile_dot hdot]
  have hlen : name.toList.length = stem.length + (ext.length + 1) := by
    rw [h, List.length_append, List.length_cons]
  have hcut : name.toList.take (name.toList.length - ext.length - 1) = stem := by
    have hstem : name.toList.length - ext.length - 1 = stem.length := by omega
    rw [hstem, h, List.take_left]
  have hshort : ext.length ≠ name.toList.length := by omega
  unfold stemSuffix
  simp only [htake, hcut, hshort, or_false]

theorem stemSuffix_noDot {name : String} (h : '.' ∉ name.toList) : stemSuffix name = (name, "") := by
  have htake : name.toList.rtakeWhile (fun c : Char => decide (c ≠ '.')) = name.toList := by
    rw [List.rtakeWhile_eq_self_iff]
    intro c hc
    simp only [decide_eq_true_eq]
    rintro rfl
    exact h hc
  unfold stemSuffix
  simp only [htake, or_true, if_true]

/-- A name is left whole, or cut at its last dot. -/
theorem stemSuffix_cases (name : String) :
    (stemSuffix name = (name, "") ∧
        ∀ stem ext : List Char, name.toList = stem ++ '.' :: ext → '.' ∉ ext → stem = [] ∨ ext = []) ∨
      ∃ stem ext : List Char, '.' ∉ ext ∧ name.toList = stem ++ '.' :: ext ∧
        stemSuffix name = (String.ofList stem, String.ofList ('.' :: ext)) := by
  by_cases hmem : '.' ∈ name.toList
  · obtain ⟨as, bs, hsplit, has⟩ := List.eq_append_cons_of_mem (List.mem_reverse.mpr hmem)
    have hname : name.toList = bs.reverse ++ '.' :: as.reverse := by
      have := congrArg List.reverse hsplit
      simpa using this
    have hdot : '.' ∉ as.reverse := fun h => has (List.mem_reverse.mp h)
    have hcut := stemSuffix_split hname hdot
    by_cases hside : bs.reverse = [] ∨ as.reverse = []
    · rw [if_pos hside] at hcut
      refine Or.inl ⟨hcut, fun stem ext hother hext => ?_⟩
      have hagain := stemSuffix_split hother hext
      by_contra hboth
      rw [if_neg hboth, hcut] at hagain
      have hnone := congrArg (fun cut : String × String => cut.2.toList) hagain
      simp at hnone
    · rw [if_neg hside] at hcut
      exact Or.inr ⟨_, _, hdot, hname, hcut⟩
  · refine Or.inl ⟨stemSuffix_noDot hmem, fun stem ext hother _ => absurd ?_ hmem⟩
    rw [hother]
    simp

theorem numbered_toList (name : String) (n : Nat) :
    (numbered name n).toList =
      (stemSuffix name).1.toList ++ ((' ' :: '(' :: (toString n).toList) ++ (')' :: (stemSuffix name).2.toList)) := by
  simp [numbered]

/-- The number is no part of an escape. -/
theorem numbered_escape (name : String) (n : Nat) :
    Percent.hasEscape (numbered name n).toList = Percent.hasEscape name.toList := by
  have hnumber : ∀ t : List Char, Percent.hasEscape ((' ' :: '(' :: (toString n).toList) ++ (')' :: t)) =
      Percent.hasEscape t := by
    intro t
    have hdigits : Percent.hasEscape (' ' :: '(' :: (toString n).toList) = false := by
      refine Percent.hasEscape_of_no_percent fun h => ?_
      have hmem : '%' ∈ (toString n).toList := by simpa using h
      rw [Nat.toString_eq_repr, Nat.toList_repr] at hmem
      exact absurd (Nat.isDigit_of_mem_toDigits (by decide) (by decide) hmem) (by decide)
    rw [Percent.hasEscape_append (by simp; decide), hdigits, Bool.false_or, Percent.hasEscape]
    rfl
  rw [numbered_toList, Percent.hasEscape_append (by simp; decide), hnumber]
  rcases stemSuffix_cases name with ⟨hcut, -⟩ | ⟨stem, ext, -, hname, hcut⟩
  · rw [hcut]
    exact Bool.or_false _
  · rw [hcut, hname, String.toList_ofList, String.toList_ofList, Percent.hasEscape_append (by simp; decide)]

/-- The number stands before the suffix. -/
theorem numbered_part_iff {name : String} (hhead : name.toList.head? ≠ some '.') (n : Nat) :
    partSuffix.toList <:+ (numbered name n).toList ↔ partSuffix.toList <:+ name.toList := by
  rw [numbered_toList]
  rcases stemSuffix_cases name with ⟨hcut, hwhole⟩ | ⟨stem, ext, hdot, hname, hcut⟩
  · refine iff_of_false ?_ ?_
    · rw [hcut]
      rintro ⟨before, h⟩
      have hlast : some 't' = some ')' := by
        have hpart : partSuffix.toList.getLast? = some 't' := by decide
        have := congrArg List.getLast? h
        rwa [List.getLast?_append, List.getLast?_append, List.getLast?_append, hpart] at this
      exact absurd hlast (by decide)
    · rintro ⟨before, h⟩
      rcases hwhole before "part".toList h.symm (by decide) with rfl | hnil
      · rw [← h] at hhead
        exact hhead rfl
      · cases hnil
  · have hpart : ∀ y : List Char, partSuffix.toList <:+ y ++ '.' :: ext ↔ "part".toList = ext := by
      intro y
      constructor
      · rintro ⟨before, h⟩
        have hlast := congrArg (List.rtakeWhile fun c : Char => decide (c ≠ '.')) h
        have hbefore : (before ++ '.' :: "part".toList).rtakeWhile (fun c : Char => decide (c ≠ '.')) = "part".toList :=
          rtakeWhile_dot (by decide)
        rw [rtakeWhile_dot hdot] at hlast
        exact hbefore.symm.trans hlast
      · rintro rfl
        exact ⟨y, rfl⟩
    have hassoc : (stemSuffix name).1.toList ++
        ((' ' :: '(' :: (toString n).toList) ++ (')' :: (stemSuffix name).2.toList)) =
        (stem ++ ((' ' :: '(' :: (toString n).toList) ++ [')'])) ++ '.' :: ext := by
      rw [hcut]
      simp
    rw [hassoc, hpart, hname, hpart]

/-- The number adds a space, brackets and digits. -/
theorem mem_numbered {name : String} {n : Nat} {c : Char} (h : c ∈ (numbered name n).toList) :
    c ∈ name.toList ∨ c = ' ' ∨ c = '(' ∨ c = ')' ∨ c.isDigit = true := by
  have hsides : ∀ d, d ∈ (stemSuffix name).1.toList ∨ d ∈ (stemSuffix name).2.toList → d ∈ name.toList := by
    intro d hd
    rcases stemSuffix_cases name with ⟨hcut, -⟩ | ⟨stem, ext, -, hname, hcut⟩
    · rw [hcut] at hd
      exact hd.resolve_right List.not_mem_nil
    · rw [hcut, String.toList_ofList, String.toList_ofList] at hd
      rw [hname]
      exact List.mem_append.mpr hd
  rw [numbered_toList] at h
  simp only [List.mem_append, List.mem_cons] at h
  rcases h with h | (h | h | h) | h | h
  · exact Or.inl (hsides c (Or.inl h))
  · exact Or.inr (Or.inl h)
  · exact Or.inr (Or.inr (Or.inl h))
  · rw [Nat.toString_eq_repr, Nat.toList_repr] at h
    exact Or.inr (Or.inr (Or.inr (Or.inr (Nat.isDigit_of_mem_toDigits (by decide) (by decide) h))))
  · exact Or.inr (Or.inr (Or.inr (Or.inl h)))
  · exact Or.inl (hsides c (Or.inr h))

/-! ## The name that a store picks -/

/-- One component, without a null, that is hidden and decoded as the hardened name is. -/
structure Alike (name hardened : String) : Prop where
  plain : PlainName name
  noNull : name.toList.contains '\x00' = false
  sameEscape : Percent.hasEscape name.toList = Percent.hasEscape hardened.toList
  samePart : partSuffix.toList <:+ name.toList ↔ partSuffix.toList <:+ hardened.toList

theorem safeName_legal (raw : String) : ∀ c ∈ (safeName raw).1.toList, illegalChar c = false := by
  rw [safeName_eq, String.toList_ofList]
  split
  · exact List.all_iff_forall_prop.mp (by decide)
  · exact legal_capped raw.toList

theorem safeName_noLeadingDot (raw : String) : (safeName raw).1.toList.head? ≠ some '.' := by
  rw [safeName_eq, String.toList_ofList]
  split
  · decide
  · exact noLeadingDot_capped raw.toList

theorem safeName_noNull (raw : String) : '\x00' ∉ (safeName raw).1.toList := by
  intro h
  exact absurd (safeName_legal raw _ h) (by decide)

theorem alike_numbered (raw : String) (n : Nat) : Alike (numbered (safeName raw).1 n) (safeName raw).1 := by
  have hplain := safeName_plain raw
  have hbracket : '(' ∈ (numbered (safeName raw).1 n).toList := by
    rw [numbered_toList]
    simp
  refine ⟨⟨?_, ?_, ?_, ?_⟩, ?_, numbered_escape _ n, numbered_part_iff (safeName_noLeadingDot raw) n⟩
  · intro h
    rcases mem_numbered h with h | h | h | h | h
    · exact hplain.noSlash h
    all_goals exact absurd h (by decide)
  · intro h
    rw [h] at hbracket
    exact absurd hbracket (by decide)
  · intro h
    rw [h] at hbracket
    exact absurd hbracket (by decide)
  · intro h
    rw [h] at hbracket
    exact absurd hbracket (by decide)
  · rw [← Bool.not_eq_true, List.contains_iff_mem]
    intro h
    rcases mem_numbered h with h | h | h | h | h
    · exact safeName_noNull raw h
    all_goals exact absurd h (by decide)

theorem alike_uniqueTarget {fold : String → String} {f : Folder} {raw name : String}
    (h : uniqueTarget fold f (safeName raw).1 = .ok name) : Alike name (safeName raw).1 := by
  unfold uniqueTarget at h
  split at h
  · rw [← Except.ok.inj h]
    exact ⟨safeName_plain raw, by simpa using safeName_noNull raw, rfl, Iff.rfl⟩
  · split at h
    · rw [← Except.ok.inj h]
      exact alike_numbered raw _
    · cases h

variable {fold}

theorem prepare_root {cfg : Config} {d : Disk} {root : Path} {filename : String} {f : Folder}
    {r : String × Bool × String} (h : prepare fold cfg d root filename f = .ok r) : ensureRoot fold f = .ok () := by
  unfold prepare at h
  cases hroot : ensureRoot fold f with
  | ok => rfl
  | error e =>
    rw [hroot] at h
    cases h

/-- A store that returns: the folder was accepted, and has the file under a name that the
    series found free. -/
theorem storeStream_ok {cfg : Config} {d : Disk} {root : Path} {stream : Stream} {filename : String} {f f' : Folder}
    {st : Stored} (h : storeStream fold cfg d root stream filename f = (.ok st, f')) :
    ensureRoot fold f = .ok () ∧ uniqueTarget fold f (safeName filename).1 = .ok st.storedAs ∧
      ∃ data, f'.lookup (fold st.storedAs) = some ⟨st.storedAs, .file data⟩ := by
  unfold storeStream at h
  rcases hprep : prepare fold cfg d root filename f with e | ⟨hardened, rewritten, target⟩
  · rw [hprep] at h
    cases h
  rw [hprep] at h
  obtain ⟨hname, htarget, -⟩ := prepare_target fold hprep
  dsimp only at h
  rcases hopen : openPart fold d f (target ++ partSuffix) with exc | f₁
  · rw [hopen] at h
    cases h
  rw [hopen] at h
  rcases htrans : transfer cfg.maxUploadBytes d stream with ⟨data, written, raised⟩
  obtain ⟨name, -, -, hclosed⟩ := closePart_lookup fold hopen data
  rw [htrans] at h
  dsimp only at h
  split at h
  · cases h
  · cases h
  · cases h
  split at h
  · cases h
  split at h
  · cases h
  split at h
  · cases h
  obtain ⟨hst, rfl⟩ := Prod.mk.inj h
  obtain rfl := Except.ok.inj hst
  rw [← hname]
  refine ⟨prepare_root hprep, htarget, data, ?_⟩
  rw [renamed_lookup hclosed, if_pos rfl]

/-! ## The listing -/

theorem not_hidden_iff {name : String} (hname : name ≠ sentinel) :
    isHidden name = false ↔ ¬ partSuffix.toList <:+ name.toList := by
  unfold isHidden
  rw [decide_eq_false hname, Bool.false_or, ← List.isSuffixOf_iff_suffix, Bool.not_eq_true]

/-- The listing names a file of the folder, unless it is hidden or its `stat` fails. -/
theorem mem_listing_iff {r : Reading} {f : Folder} {name : String} {data : ByteArray}
    (hthere : f.lookup (fold name) = some ⟨name, .file data⟩) :
    name ∈ (listing r f).map (·.name) ↔ isHidden name = false ∧ r.statFault name = false := by
  constructor
  · intro h
    obtain ⟨file, hfile, hsame⟩ := List.mem_map.mp h
    obtain ⟨e, -, he⟩ := List.mem_filterMap.mp ((List.mem_insertionSort _).mp hfile)
    unfold listEntry at he
    split at he
    · cases he
    rename_i hshown
    rw [Bool.or_eq_true, not_or, Bool.not_eq_true, Bool.not_eq_true] at hshown
    split at he
    · obtain rfl := Option.some.inj he
      rw [← hsame]
      exact hshown
    · cases he
  · intro h
    obtain ⟨hshown, hstat⟩ := h
    have hentry : listEntry r ⟨name, .file data⟩ = some ⟨name, data.size, r.modified name⟩ := by
      simp [listEntry, hshown, hstat]
    refine List.mem_map.mpr ⟨_, (List.mem_insertionSort _).mpr (List.mem_filterMap.mpr ⟨⟨fold name, _⟩, ?_, hentry⟩), rfl⟩
    exact AList.mem_lookup_iff.mp hthere

/-- A file of the folder is listed, unless it is hidden or a call fails. -/
theorem isListed_iff {caller : Caller} {r : Reading} {f : Folder} {name : String} {data : ByteArray}
    (hroot : ensureRoot fold f = .ok ()) (hthere : f.lookup (fold name) = some ⟨name, .file data⟩) (hname : name ≠ sentinel) :
    IsListed fold caller r name f ↔
      requireAdmin caller = none ∧ r.iterFault = false ∧ r.statFault name = false ∧
        ¬ partSuffix.toList <:+ name.toList := by
  have hmem := mem_listing_iff (r := r) hthere
  unfold IsListed listUploads
  rw [← not_hidden_iff hname]
  cases requireAdmin caller with
  | some refusal => simp
  | none =>
    rw [hroot]
    cases r.iterFault with
    | true => simp
    | false =>
      constructor
      · intro h
        obtain ⟨files, hfiles, hin⟩ := h
        obtain rfl : listing r f = files := Response.ok.inj hfiles
        obtain ⟨hshown, hstat⟩ := hmem.mp hin
        exact ⟨rfl, rfl, hstat, hshown⟩
      · intro h
        obtain ⟨-, -, hstat, hshown⟩ := h
        exact ⟨_, rfl, hmem.mpr ⟨hshown, hstat⟩⟩

/-! ## The deletion -/

def quoted (safe : Percent.SafeSet) (name : String) : String := String.ofList (Percent.quote safe name.toList)

theorem unquoted_quoted (safe : Percent.SafeSet) (name : String) : unquoted (quoted safe name) = name := by
  unfold unquoted quoted
  rw [String.toList_ofList, Percent.unquote_quote, String.ofList_toList]

theorem NameTable.length_eq {t : NameTable} {a b : String} (h : t.fold a = t.fold b) :
    a.toList.length = b.toList.length := by
  have := congrArg (fun s => s.toList.length) h
  simpa [NameTable.fold] using this

/-- A deletion answered under the decoded name. -/
theorem deleteFile_folder (caller : Caller) (r : Removal) (root : Path) (name : String) (f : Folder) :
    (deleteFile fold caller r root name f).2 =
      if requireAdmin caller = none then (deleteUpload fold r root (unquoted name) f).2 else f := by
  unfold deleteFile
  cases requireAdmin caller with
  | some refusal => rfl
  | none =>
    rw [if_pos rfl]
    rcases deleteUpload fold r root (unquoted name) f with ⟨_ | _, f'⟩
    · rename_i e
      cases e <;> rfl
    · rfl

/-- The service deletes a file of the folder by its own name. -/
theorem deleteUpload_own {r : Removal} {root : Path} {name : String} {f : Folder} {data : ByteArray}
    (hroot : ensureRoot fold f = .ok ()) (hthere : f.lookup (fold name) = some ⟨name, .file data⟩) (hplain : PlainName name)
    (hnull : name.toList.contains '\x00' = false) (hname : name ≠ sentinel) (hstat : r.statFault = none)
    (hunlink : r.unlinkFault = none) : (deleteUpload fold r root name f).2 = f.erase (fold name) := by
  have htarget : resolveTarget root name = .ok (name :: root) :=
    resolveTarget_other (realpathJoin_plainName hplain root) hname
  have hfile : isFile fold r root f (name :: root) = true := by
    have hitem : Folder.get fold f name = some ⟨name, .file data⟩ := hthere
    simp only [isFile, List.tail_cons, if_true, List.headD_cons, hitem]
  unfold deleteUpload
  simp only [hroot, hnull, Bool.false_eq_true, if_false, htarget, hstat, hfile, hunlink]
  simp

/-- The encoding of a name deletes the file, and no other, unless the name reads as an
    encoding itself or a call fails. -/
theorem removesExactly_iff (t : NameTable) {safe : Percent.SafeSet} {caller : Caller} {r : Removal} {root : Path}
    {name : String} {f : Folder} {data : ByteArray} (hroot : ensureRoot t.fold f = .ok ())
    (hthere : f.lookup (t.fold name) = some ⟨name, .file data⟩) (hplain : PlainName name)
    (hnull : name.toList.contains '\x00' = false) (hname : name ≠ sentinel) :
    RemovesExactly t.fold name f (deletePath t.fold caller r root (quoted safe name) f).2 ↔
      requireAdmin caller = none ∧ r.statFault = none ∧ r.unlinkFault = none ∧
        Percent.hasEscape name.toList = false := by
  unfold RemovesExactly deletePath
  rw [unquoted_quoted, deleteFile_folder]
  constructor
  · intro h
    have hgone := h (t.fold name)
    rw [if_pos rfl] at hgone
    split at hgone
    · rename_i hadmin
      rcases deleteUpload_cases t.fold r root (unquoted name) f with
        hsame | ⟨other, hreal, -, -, hstat, hunlink, herase⟩
      · rw [hsame, hthere] at hgone
        cases hgone
      · refine ⟨hadmin, hstat, hunlink, ?_⟩
        have hfold : t.fold name = t.fold other := by
          by_contra hne
          rw [herase, AList.lookup_erase_ne hne, hthere] at hgone
          cases hgone
        by_contra hesc
        have hshort := Percent.unquote_shorter (Bool.of_not_eq_false hesc)
        have hother := length_le_of_component (mem_components_of_realpathJoin hreal)
        have hlen := NameTable.length_eq hfold
        rw [unquoted, String.toList_ofList] at hother
        omega
    · rw [hthere] at hgone
      cases hgone
  · rintro ⟨hadmin, hstat, hunlink, hesc⟩
    have hself : unquoted name = name := by
      unfold unquoted
      rw [Percent.unquote_of_no_escape hesc, String.ofList_toList]
    rw [if_pos hadmin, hself, deleteUpload_own hroot hthere hplain hnull hname hstat hunlink]
    intro q
    by_cases hq : q = t.fold name
    · rw [if_pos hq, hq, AList.lookup_erase]
    · rw [if_neg hq, AList.lookup_erase_ne hq]

/-! ## The three routes -/

/-- What a store leaves: the folder is accepted, and has the file under a name that is hidden
    and decoded as the hardened one. -/
theorem uploadFile_ok (t : NameTable) {caller : Caller} {cfg : Config} {d : Disk} {root : Path} {header : String}
    {stream : Stream} {f f' : Folder} {st : Stored}
    (h : uploadFile t.fold caller cfg d root header stream f = (.ok st, f')) :
    ensureRoot t.fold f' = .ok () ∧ st.storedAs ≠ sentinel ∧ Alike st.storedAs (safeName (unquoted header)).1 ∧
      ∃ data, f'.lookup (t.fold st.storedAs) = some ⟨st.storedAs, .file data⟩ := by
  have hstore : storeStream t.fold cfg d root stream (unquoted header) f = (.ok st, f') := by
    unfold uploadFile at h
    split at h
    · cases h
    dsimp only at h
    split at h
    · cases h
    rcases hstore : storeStream t.fold cfg d root stream (unquoted header) f with ⟨e | r, f₁⟩
    · rw [hstore] at h
      cases e <;> cases h
    · rw [hstore] at h
      obtain ⟨hr, rfl⟩ := Prod.mk.inj h
      injection hr with hr
      rw [hr]
  obtain ⟨hroot, htarget, hthere⟩ := storeStream_ok hstore
  have hsentinel := ensureRoot_iff.mp hroot
  have hkept : f'.lookup (t.fold sentinel) = f.lookup (t.fold sentinel) := by
    have hdots : t.up '-' ≠ t.up '.' := by
      rcases t.ascii with hup | hup <;> rw [hup '-' (by decide), hup '.' (by decide)] <;> decide
    have hpart : ∀ target, t.fold sentinel ≠ t.fold (target ++ partSuffix) := map_sentinel_ne_part hdots
    have hframe : (storeStream t.fold cfg d root stream (unquoted header) f).2.lookup (t.fold sentinel) =
        f.lookup (t.fold sentinel) := storeStream_frame hpart hsentinel
    rwa [hstore] at hframe
  refine ⟨ensureRoot_iff.mpr (hkept ▸ hsentinel), ?_, alike_uniqueTarget htarget, hthere⟩
  intro hname
  have hfree := uniqueTarget_free t.fold htarget
  rw [hname] at hfree
  exact hsentinel hfree

/-- For every header with which an upload succeeds: the next listing has the stored file, and
    a deletion of the encoding of its name takes it away and no other, if and only if the
    name that the header was hardened to does not end in `.part` and has no percent sign
    with two hexadecimal digits after it, and the two requests are let in and meet no fault
    on the disk. -/
theorem names_agree_iff (t : NameTable) (safe : Percent.SafeSet) {uploader lister deleter : Caller} {cfg : Config}
    {d : Disk} {root : Path} {header : String} {stream : Stream} {f f' : Folder} {st : Stored} {reading : Reading}
    {r : Removal} (h : uploadFile t.fold uploader cfg d root header stream f = (.ok st, f')) :
    (IsListed t.fold lister reading st.storedAs f' ∧
        RemovesExactly t.fold st.storedAs f' (deletePath t.fold deleter r root (quoted safe st.storedAs) f').2) ↔
      (¬ partSuffix.toList <:+ (safeName (unquoted header)).1.toList ∧
        Percent.hasEscape (safeName (unquoted header)).1.toList = false) ∧
      (requireAdmin lister = none ∧ reading.iterFault = false ∧ reading.statFault st.storedAs = false) ∧
      (requireAdmin deleter = none ∧ r.statFault = none ∧ r.unlinkFault = none) := by
  obtain ⟨hroot, hname, halike, data, hthere⟩ := uploadFile_ok t h
  rw [isListed_iff hroot hthere hname, removesExactly_iff t hroot hthere halike.plain halike.noNull hname,
    halike.sameEscape, halike.samePart]
  constructor
  · rintro ⟨⟨hlist, hiter, hstat, hpart⟩, hdelete, hfile, hunlink, hesc⟩
    exact ⟨⟨hpart, hesc⟩, ⟨hlist, hiter, hstat⟩, hdelete, hfile, hunlink⟩
  · rintro ⟨⟨hpart, hesc⟩, ⟨hlist, hiter, hstat⟩, hdelete, hfile, hunlink⟩
    exact ⟨⟨hlist, hiter, hstat, hpart⟩, hdelete, hfile, hunlink, hesc⟩

def admin : Caller := ⟨"admin", some true⟩

def exactly : NameTable := ⟨id, Or.inl fun _ _ => rfl⟩

def unreserved : Percent.SafeSet where
  mem := "ABCDEFGHIJKLMNOPQRSTUVWXYZabcdefghijklmnopqrstuvwxyz0123456789_.-~".toList.contains
  ascii c h := by
    have hall : ∀ c ∈ "ABCDEFGHIJKLMNOPQRSTUVWXYZabcdefghijklmnopqrstuvwxyz0123456789_.-~".toList, c.toNat < 128 :=
      List.all_iff_forall_prop.mp (by decide +kernel)
    exact hall c (List.contains_iff_mem.mp h)
  noPercent := by decide +kernel

def spaced : Folder :=
  ((∅ : Folder).insert sentinel ⟨sentinel, .file "test root".toUTF8⟩).insert "a b.txt"
    ⟨"a b.txt", .file "la".toUTF8⟩

/-- An upload, a listing and a deletion of a plain name. -/
theorem names_agree_iff_plain :
    ∃ st f', uploadFile exactly.fold admin {} {} ["uploads", "data"] "c%20d.txt" ⟨["la la".toUTF8], none⟩ spaced =
        (.ok st, f') ∧
      IsListed exactly.fold admin {} st.storedAs f' ∧
        RemovesExactly exactly.fold st.storedAs f'
          (deletePath exactly.fold admin {} ["uploads", "data"] (quoted unreserved st.storedAs) f').2 := by
  have hok : (match uploadFile exactly.fold admin {} {} ["uploads", "data"] "c%20d.txt" ⟨["la la".toUTF8], none⟩ spaced with
      | (.ok _, _) => true
      | _ => false) = true := by decide +kernel
  split at hok
  · rename_i st f' hpost
    refine ⟨st, f', hpost, ?_⟩
    refine (names_agree_iff exactly unreserved hpost).mpr ⟨?_, ⟨rfl, rfl, rfl⟩, rfl, rfl, rfl⟩
    decide +kernel
  · cases hok

/-- The upload of `a%20b.txt` is deleted by its own name: the file that goes is `a b.txt`. -/
theorem a_percent_sign_deletes_another_file :
    ∃ st f', uploadFile exactly.fold admin {} {} ["uploads", "data"] "a%2520b.txt" ⟨["la la".toUTF8], none⟩ spaced =
        (.ok st, f') ∧
      st.storedAs = "a%20b.txt" ∧
      ¬ RemovesExactly exactly.fold st.storedAs f'
        (deletePath exactly.fold admin {} ["uploads", "data"] (quoted unreserved st.storedAs) f').2 := by
  have hok : (match uploadFile exactly.fold admin {} {} ["uploads", "data"] "a%2520b.txt" ⟨["la la".toUTF8], none⟩ spaced with
      | (.ok st, f') => st.storedAs = "a%20b.txt" && (f'.lookup "a b.txt").isSome &&
          ((deletePath exactly.fold admin {} ["uploads", "data"] (quoted unreserved st.storedAs) f').2.lookup "a b.txt").isNone
      | _ => false) = true := by decide +kernel
  split at hok
  · rename_i st f' hpost
    simp only [Bool.and_eq_true, decide_eq_true_eq, Option.isNone_iff_eq_none] at hok
    obtain ⟨⟨hname, hthere⟩, hgone⟩ := hok
    refine ⟨st, f', hpost, hname, fun hexact => ?_⟩
    have hkept := hexact "a b.txt"
    have hother : "a b.txt" ≠ exactly.fold st.storedAs := by
      rw [hname]
      decide
    rw [if_neg hother, hgone] at hkept
    rw [← hkept] at hthere
    cases hthere
  · cases hok

end CoreHeartbeat.Uploads
