/-
  CoreHeartbeat.Uploads.Sentinel — stores and deletions on a mount that ignores case
  (`store_stream` and `delete_upload` of `services/uploads.py`).

  The sentinel is the file that tells a mounted folder from an empty mount point; without it
  every call is refused. An upload writes under a name that was free and under that name with
  `.part` after it, neither of which can be the sentinel's. A deletion takes the client's name
  as it is: `resolve_target` refuses the sentinel by its exact spelling, the mount finds it by
  any.

  The mount compares names character by character through a table (`CaseTable`), of which
  nothing is assumed beyond ASCII. The calls are uploads and deletions under any names, each
  with its own settings and faults; a deletion may lead to the folder itself or further down.

  Proved:
  - `store_keeps`: no upload touches the sentinel of a folder that has one.
  - `deleteUpload_cases`, `resolveTarget_other`: what a deletion can take away, and which
    spellings are let through.
  - `sentinel_kept_iff`: over any sequence of calls the sentinel is kept if and only if no
    deletion that goes through leads to it by another spelling (`HitsSentinel`,
    `sentinel_kept_iff_refused`).
  - `another_spelling_deletes_the_sentinel`: the name in capitals is not refused, and the file
    is deleted; from then on every call is refused (`final_refused`).
-/

import CoreHeartbeat.Lib.Machine
import CoreHeartbeat.Uploads.Store

namespace CoreHeartbeat.Uploads

open Posix Machine

/-- How the mount compares names: character by character through a table, which on ASCII is
    the upper case. -/
structure CaseTable where
  up : Char → Char
  ascii : ∀ c : Char, c.toNat < 128 → up c = c.toUpper

def CaseTable.fold (t : CaseTable) (name : String) : String := String.ofList (name.toList.map t.up)

/-! ## The deletion -/

/-- What a deletion meets on the disk: the files further down than the folder itself, and
    what `is_file` and `unlink` raise. -/
structure Removal where
  below : Path → Bool := fun _ => false
  statFault : Option String := none
  unlinkFault : Option String := none

variable (fold : String → String)

def isFile (r : Removal) (root : Path) (f : Folder) (target : Path) : Bool :=
  if target.tail = root then
    match Folder.get fold f (target.headD "") with
    | some ⟨_, .file _⟩ => true
    | _ => false
  else r.below target

def deleteUpload (r : Removal) (root : Path) (name : String) (f : Folder) : Except Raised Unit × Folder :=
  match ensureRoot fold f with
  | .error e => (.error (.upload e), f)
  | .ok () =>
    -- `Path.resolve` refuses an embedded null
    if name.toList.contains '\x00' then (.error (.exception "ValueError"), f)
    else
      match resolveTarget root name with
      | .error e => (.error (.upload e), f)
      | .ok target =>
        match r.statFault with
        | some exc => (.error (.exception exc), f)
        | none =>
          if !isFile fold r root f target then (.error (.upload ⟨404, "file not found"⟩), f)
          else
            match r.unlinkFault with
            | some exc => (.error (.upload ⟨500, "delete failed: " ++ exc⟩), f)
            | none => (.ok (), if target.tail = root then f.erase (fold (target.headD "")) else f)

/-! ## The calls -/

inductive Call where
  | store (cfg : Config) (d : Disk) (stream : Stream) (filename : String)
  | delete (r : Removal) (name : String)

inductive Answer where
  | stored (r : Except Raised Stored)
  | deleted (r : Except Raised Unit)

def serve (root : Path) (f : Folder) : Call → Folder × Answer
  | .store cfg d stream filename =>
    let (r, f) := storeStream fold cfg d root stream filename f
    (f, .stored r)
  | .delete r name =>
    let (r, f) := deleteUpload fold r root name f
    (f, .deleted r)

/-- What was under the sentinel's name still is, and the folder is still accepted. -/
def SentinelKept (f f' : Folder) : Prop :=
  f'.lookup (fold sentinel) = f.lookup (fold sentinel) ∧ ensureRoot fold f' = .ok ()

/-- A deletion that goes through, of a name that leads to the sentinel by another spelling. -/
def HitsSentinel (root : Path) : Call → Prop
  | .store .. => False
  | .delete r name =>
    name.toList.contains '\x00' = false ∧ r.statFault = none ∧ r.unlinkFault = none ∧
      ∃ other, realpathJoin root name = other :: root ∧ other ≠ sentinel ∧ fold other = fold sentinel

/-! ## What an upload can touch -/

variable {fold}

theorem ensureRoot_iff {f : Folder} : ensureRoot fold f = .ok () ↔ f.lookup (fold sentinel) ≠ none := by
  unfold ensureRoot Folder.contains Folder.get
  cases f.lookup (fold sentinel) <;> simp

/-- A folder without its sentinel is left as it is. -/
theorem serve_refused {f : Folder} (h : f.lookup (fold sentinel) = none) (root : Path) (c : Call) :
    (serve fold root f c).1 = f := by
  have hrefused : ∃ e, ensureRoot fold f = .error e := by
    unfold ensureRoot Folder.contains Folder.get
    rw [h]
    exact ⟨_, rfl⟩
  obtain ⟨e, he⟩ := hrefused
  cases c with
  | store cfg d stream filename => simp [serve, storeStream, prepare, he, bind, Except.bind]
  | delete r name => simp [serve, deleteUpload, he]

theorem openPart_lookup {d : Disk} {f f₁ : Folder} {part q : String} (h : openPart fold d f part = .ok f₁)
    (hq : q ≠ fold part) : f₁.lookup q = f.lookup q := by
  unfold openPart at h
  split at h
  · cases h
  · split at h
    · cases h
    · rw [← Except.ok.inj h, AList.lookup_insert_ne hq]
  · split at h
    · cases h
    · rw [← Except.ok.inj h, AList.lookup_insert_ne hq]

theorem closePart_lookup_ne {f : Folder} {part q : String} (data : ByteArray) (hq : q ≠ fold part) :
    (closePart fold f part data).lookup q = f.lookup q := by
  unfold closePart
  split
  · rw [AList.lookup_insert_ne hq]
  · rfl

theorem unlinkQuietly_lookup_ne {d : Disk} {f : Folder} {part q : String} (hq : q ≠ fold part) :
    (unlinkQuietly fold d f part).lookup q = f.lookup q := by
  unfold unlinkQuietly
  split
  · split
    · rw [AList.lookup_erase_ne hq]
    · rfl
  · rfl

theorem rename_lookup_ne {f : Folder} {part target q : String} (hpart : q ≠ fold part) (htarget : q ≠ fold target) :
    (rename fold f part target).lookup q = f.lookup q := by
  unfold rename
  split
  · rw [AList.lookup_insert_ne htarget, AList.lookup_erase_ne hpart]
  · rfl

/-- An upload touches its target, which was free, and its partial file. -/
theorem storeStream_frame {cfg : Config} {d : Disk} {root : Path} {stream : Stream} {filename : String} {f : Folder}
    {q : String} (hpart : ∀ target, q ≠ fold (target ++ partSuffix)) (hthere : f.lookup q ≠ none) :
    (storeStream fold cfg d root stream filename f).2.lookup q = f.lookup q := by
  unfold storeStream
  rcases hprep : prepare fold cfg d root filename f with e | ⟨hardened, rewritten, target⟩
  · rfl
  have hfree := (prepare_target fold hprep).2.2
  have htarget : q ≠ fold target := by
    rintro rfl
    exact hthere hfree
  have hp := hpart target
  dsimp only
  rcases hopen : openPart fold d f (target ++ partSuffix) with exc | f₁
  · exact unlinkQuietly_lookup_ne hp
  rcases transfer cfg.maxUploadBytes d stream with ⟨data, written, raised⟩
  have hclosed : (closePart fold f₁ (target ++ partSuffix) data).lookup q = f.lookup q := by
    rw [closePart_lookup_ne data hp, openPart_lookup hopen hp]
  have hcleaned : (unlinkQuietly fold d (closePart fold f₁ (target ++ partSuffix) data) (target ++ partSuffix)).lookup q =
      f.lookup q := by
    rw [unlinkQuietly_lookup_ne hp, hclosed]
  dsimp only
  rcases raised with _ | e | exc | exc
  · dsimp only
    split
    · exact hcleaned
    · split
      · exact hclosed
      · have hrenamed : (rename fold (closePart fold f₁ (target ++ partSuffix) data) (target ++ partSuffix) target).lookup q =
            f.lookup q := by
          rw [rename_lookup_ne hp htarget, hclosed]
        split
        · rw [AList.lookup_erase_ne htarget]
          exact hrenamed
        · exact hrenamed
  · exact hcleaned
  · exact hcleaned
  · exact hclosed

/-- Where the hyphen and the dot are told apart, no name that ends in `.part` is a spelling of
    the sentinel's. -/
theorem map_sentinel_ne_part {up : Char → Char} (h : up '-' ≠ up '.') (target : String) :
    String.ofList (sentinel.toList.map up) ≠ String.ofList ((target ++ partSuffix).toList.map up) := by
  intro hsame
  have hchars : (".uploads".toList ++ "-root".toList).map up = (target.toList ++ ".part".toList).map up := by
    have := congrArg String.toList hsame
    simpa [sentinel, partSuffix] using this
  rw [List.map_append, List.map_append] at hchars
  have htail := (List.append_inj' hchars rfl).2
  exact h (List.cons.inj htail).1

theorem sentinel_ne_part (t : CaseTable) (target : String) : t.fold sentinel ≠ t.fold (target ++ partSuffix) := by
  refine map_sentinel_ne_part ?_ target
  rw [t.ascii '-' (by decide), t.ascii '.' (by decide)]
  decide

theorem store_keeps (t : CaseTable) {root : Path} {f : Folder} (h : f.lookup (t.fold sentinel) ≠ none) (cfg : Config)
    (d : Disk) (stream : Stream) (filename : String) :
    (storeStream t.fold cfg d root stream filename f).2.lookup (t.fold sentinel) = f.lookup (t.fold sentinel) :=
  storeStream_frame (sentinel_ne_part t) h

/-! ## What a deletion can touch -/

/-- A target in the folder itself, or one further down. -/
theorem resolveTarget_ok {root target : Path} {name : String} (h : resolveTarget root name = .ok target) :
    target = realpathJoin root name ∧ target ≠ [] ∧ target.headD "" ≠ sentinel := by
  unfold resolveTarget at h
  dsimp only at h
  split at h
  · cases h
  rename_i hinside
  split at h
  · cases h
  rename_i hname
  obtain rfl := Except.ok.inj h
  have hne : realpathJoin root name ≠ [] := by
    intro hnil
    simp only [not_or, not_not] at hinside
    rw [hnil, List.suffix_nil] at hinside
    exact hinside.1 hinside.2.symm
  refine ⟨rfl, hne, ?_⟩
  obtain ⟨n, rest, hcons⟩ := List.exists_cons_of_ne_nil hne
  rw [hcons] at hname ⊢
  simpa using hname

/-- Every other spelling in the folder itself is let through. -/
theorem resolveTarget_other {root : Path} {name other : String} (h : realpathJoin root name = other :: root)
    (hother : other ≠ sentinel) : resolveTarget root name = .ok (other :: root) := by
  unfold resolveTarget
  rw [h]
  have hlen : other :: root ≠ root := fun hself => by simpa using congrArg List.length hself
  simp [hlen, hother, List.suffix_cons]

/-- A deletion takes away one file of the folder, under the name it leads to, or nothing. -/
theorem deleteUpload_cases (fold : String → String) (r : Removal) (root : Path) (name : String) (f : Folder) :
    (deleteUpload fold r root name f).2 = f ∨
      ∃ other, realpathJoin root name = other :: root ∧ other ≠ sentinel ∧ name.toList.contains '\x00' = false ∧
        r.statFault = none ∧ r.unlinkFault = none ∧ (deleteUpload fold r root name f).2 = f.erase (fold other) := by
  unfold deleteUpload
  split
  · exact Or.inl rfl
  split
  · exact Or.inl rfl
  rename_i hnull
  split
  · exact Or.inl rfl
  rename_i target htarget
  obtain ⟨hreal, hne, hname⟩ := resolveTarget_ok htarget
  split
  · exact Or.inl rfl
  rename_i hstat
  split
  · exact Or.inl rfl
  split
  · exact Or.inl rfl
  rename_i hunlink
  dsimp only
  split
  · rename_i htail
    obtain ⟨other, rest, rfl⟩ := List.exists_cons_of_ne_nil hne
    obtain rfl : rest = root := htail
    exact Or.inr ⟨other, hreal.symm, hname, by simpa using hnull, hstat, hunlink, rfl⟩
  · exact Or.inl rfl

/-- Another spelling of a file that is there goes through to it. -/
theorem deleteUpload_hit {root : Path} {r : Removal} {name : String} {f : Folder} {item : String} {data : ByteArray}
    (hthere : f.lookup (fold sentinel) = some ⟨item, .file data⟩) (hhit : HitsSentinel fold root (.delete r name)) :
    (deleteUpload fold r root name f).2 = f.erase (fold sentinel) := by
  obtain ⟨hnull, hstat, hunlink, other, hreal, hother, hfold⟩ := hhit
  have hroot : ensureRoot fold f = .ok () := ensureRoot_iff.mpr (by rw [hthere]; simp)
  have hfile : isFile fold r root f (other :: root) = true := by
    have hitem : Folder.get fold f other = some ⟨item, .file data⟩ := by
      unfold Folder.get
      rw [hfold]
      exact hthere
    simp only [isFile, List.tail_cons, if_true, List.headD_cons, hitem]
  unfold deleteUpload
  simp only [hroot, hnull, Bool.false_eq_true, if_false, resolveTarget_other hreal hother, hstat, hfile, hunlink]
  simp [hfold]

/-! ## The run -/

/-- One call keeps the sentinel, or is a deletion that takes it away. -/
theorem serve_sentinel (t : CaseTable) (root : Path) {f : Folder} {item : String} {data : ByteArray}
    (hthere : f.lookup (t.fold sentinel) = some ⟨item, .file data⟩) (c : Call) :
    (¬ HitsSentinel t.fold root c ∧
        (serve t.fold root f c).1.lookup (t.fold sentinel) = some ⟨item, .file data⟩) ∨
      (HitsSentinel t.fold root c ∧ (serve t.fold root f c).1.lookup (t.fold sentinel) = none) := by
  cases c with
  | store cfg d stream filename =>
    refine Or.inl ⟨id, ?_⟩
    rw [← hthere]
    exact store_keeps t (by rw [hthere]; simp) cfg d stream filename
  | delete r name =>
    by_cases hhit : HitsSentinel t.fold root (.delete r name)
    · refine Or.inr ⟨hhit, ?_⟩
      show (deleteUpload t.fold r root name f).2.lookup _ = none
      rw [deleteUpload_hit hthere hhit, AList.lookup_erase]
    · refine Or.inl ⟨hhit, ?_⟩
      show (deleteUpload t.fold r root name f).2.lookup _ = _
      rcases deleteUpload_cases t.fold r root name f with
        hsame | ⟨other, hreal, hother, hnull, hstat, hunlink, herase⟩
      · rw [hsame, hthere]
      · have hfold : t.fold sentinel ≠ t.fold other := fun h => hhit ⟨hnull, hstat, hunlink, other, hreal, hother, h.symm⟩
        rw [herase, AList.lookup_erase_ne hfold, hthere]

/-- Once the sentinel is gone every call is refused. -/
theorem final_refused {root : Path} {f : Folder} (h : f.lookup (fold sentinel) = none) (calls : List Call) :
    final (serve fold root) f calls = f := by
  induction calls with
  | nil => rfl
  | cons c calls ih => rw [final_cons, serve_refused h, ih]

/-- On a mount that ignores case, for every sequence of uploads and deletions under any
    names, from a folder with its sentinel: it is there at the end, with its content, and
    the folder is accepted, if and only if none of the deletions that go through leads to it
    by another spelling. -/
theorem sentinel_kept_iff (t : CaseTable) (root : Path) {f : Folder} {item : String} {data : ByteArray}
    (hthere : f.lookup (t.fold sentinel) = some ⟨item, .file data⟩) (calls : List Call) :
    SentinelKept t.fold f (final (serve t.fold root) f calls) ↔ ∀ c ∈ calls, ¬ HitsSentinel t.fold root c := by
  unfold SentinelKept
  rw [hthere]
  induction calls generalizing f with
  | nil =>
    simp [hthere, ensureRoot_iff]
  | cons c calls ih =>
    rw [final_cons, List.forall_mem_cons]
    rcases serve_sentinel t root hthere c with ⟨hspares, hkept⟩ | ⟨hhits, hgone⟩
    · rw [ih hkept]
      exact (and_iff_right hspares).symm
    · rw [final_refused hgone, hgone]
      simp [hhits]

def asciiTable : CaseTable := ⟨Char.toUpper, fun _ _ => rfl⟩

def mounted : Folder := (∅ : Folder).insert (asciiTable.fold sentinel) ⟨sentinel, .file "test root".toUTF8⟩

/-- An upload under the sentinel's name, and a deletion of it that is refused. -/
theorem sentinel_kept_iff_refused :
    SentinelKept asciiTable.fold mounted (final (serve asciiTable.fold ["uploads", "data"]) mounted
      [.store {} {} ⟨["la la".toUTF8], none⟩ ".uploads-root", .delete {} "../uploads/.uploads-root"]) := by
  have hthere : mounted.lookup (asciiTable.fold sentinel) = some ⟨sentinel, .file "test root".toUTF8⟩ :=
    AList.lookup_insert _
  refine (sentinel_kept_iff asciiTable ["uploads", "data"] hthere _).mpr ?_
  intro c hc
  simp only [List.mem_cons, List.not_mem_nil, or_false] at hc
  rcases hc with rfl | rfl
  · exact id
  · intro h
    obtain ⟨-, -, -, other, hreal, hother, -⟩ := h
    have hleads : realpathJoin ["uploads", "data"] "../uploads/.uploads-root" = [".uploads-root", "uploads", "data"] := by
      decide +kernel
    rw [hleads] at hreal
    exact hother (List.cons.inj hreal).1.symm

/-- The name in capitals is not refused, and the file is deleted. -/
theorem another_spelling_deletes_the_sentinel :
    ¬ ∀ calls : List Call, SentinelKept asciiTable.fold mounted
      (final (serve asciiTable.fold ["uploads", "data"]) mounted calls) := by
  intro h
  have hkept := congrArg Option.isSome (h [.delete {} ".UPLOADS-ROOT"]).1
  revert hkept
  decide +kernel

end CoreHeartbeat.Uploads
