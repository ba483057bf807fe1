/-
  CoreHeartbeat.Vault.StorageSync — `services/storage_sync.py`: the pre-run sync of a user's
  vault (`sync_user_vault`, `_reset_dest`) and the write-back of one file (`upload_user_file`).

  A sync lists the user's objects; unless the listing is the cached one it wipes the user's
  directory, all but the preference profile, and downloads every note in listing order. The
  sandbox user's sync always wipes and copies the notes of a mock folder. The listing can fail,
  and so can each file on its way (`SyncEnv`), which ends the sync where it is.

  The state has the local tree, the bucket, and the cached listing of the user. The tree is
  `Lib.Posix`'s, and a file is downloaded onto what `os.path.join` makes of the directory and
  the rest of its key, its folder made first. What lands where is recorded as a list (`Landed`),
  of which the last on a path is what stands there. The write-back stores one file under the
  user's prefix, and the object gets an entity tag of its own.

  Proved:
  - `sync_cases`: a sync is the reset and the loop, or does not get to the reset.
  - `sync_keeps`: a sync that does not get to the wipe (`wipes`) changes no file.
  - `sync_files`: after the wipe a file below the directory is what was last downloaded onto its
    path (`landing`); the profile alone keeps its old content when nothing was.
-/

import CoreHeartbeat.Vault.UserVault
import Mathlib.Order.Basic
import Mathlib.Data.String.Basic

namespace CoreHeartbeat.Vault

open Posix

/-! ## The bucket -/

structure Object where
  data : ByteArray
  etag : Option String

/-- The bucket's objects in the order of a listing: by key. -/
structure Bucket where
  objects : List (String × Object)
  sorted : objects.Pairwise fun x y => x.1 < y.1

def Bucket.put (b : Bucket) (key : String) (o : Object) : Bucket where
  objects := b.objects.filter (·.1 < key) ++ (key, o) :: b.objects.filter (key < ·.1)
  sorted := by
    have hlt : ∀ x ∈ b.objects.filter (·.1 < key), x.1 < key := fun x hx => by simpa using (List.mem_filter.mp hx).2
    have hgt : ∀ x ∈ b.objects.filter (key < ·.1), key < x.1 := fun x hx => by simpa using (List.mem_filter.mp hx).2
    refine List.pairwise_append.mpr ⟨b.sorted.filter _, List.pairwise_cons.mpr ⟨hgt, b.sorted.filter _⟩, ?_⟩
    intro x hx y hy
    rcases List.mem_cons.mp hy with rfl | hy
    · exact hlt x hx
    · exact (hlt x hx).trans (hgt y hy)

def Bucket.delete (b : Bucket) (key : String) : Bucket where
  objects := b.objects.filter (·.1 ≠ key)
  sorted := b.sorted.filter _

/-- The state the module works on: the local tree, the bucket, `_vault_etags[user_id]`. -/
structure VaultState where
  fs : Tree
  bucket : Bucket
  etags : Option (List (String × Option String))

/-! ## The sync -/

def vaultSuffix : String := ".md"

/-- The one file of `PRESERVED_LOCAL_FILES`. -/
def preferencesFile : String := "user_preferences.md"

variable (a : Account)

def Account.profile : Path := preferencesFile :: a.dest

def Account.prefixKey : String := a.user ++ "/"

def sandboxUserId : String := "sandbox-user"

/-- One file on its way: its name below the directory, its bytes, whether it arrives. -/
structure Incoming where
  rel : String
  data : ByteArray
  arrives : Bool

/-- What a sync finds: whether the listing comes through, each object's download, and the
    notes of the mock folder in the order they are found. -/
structure SyncEnv where
  listed : Bool
  fetched : String → Bool
  mock : List Incoming

def listing (b : Bucket) : List (String × Option String) :=
  (b.objects.filter fun x => a.prefixKey.toList.isPrefixOf x.1.toList).map fun x => (x.1, x.2.etag)

def etagsAvailable (l : List (String × Option String)) : Bool := !l.isEmpty && l.all fun x => x.2.any (· ≠ "")

/-- The skip: the listing is the one of the last complete sync, and the directory stands. -/
def unchanged (v : VaultState) : Bool :=
  etagsAvailable (listing a v.bucket) && v.etags == some (listing a v.bucket) && v.fs.isDir a.dest

/-- `_reset_dest`; `false` when it raises. -/
def resetDest (fs : Tree) : Tree × Bool :=
  let preserved := fs.fileAt a.profile
  match (fs.rmtree a.user a.root).makedirs [] a.dest.reverse with
  | (fs, none) => (fs, false)
  | (fs, some dest) =>
    match preserved with
    | none => (fs, true)
    | some data =>
      match fs.put preferencesFile dest data with
      | some fs => (fs, true)
      | none => (fs, false)

/-- What the downloads put where, in order. -/
abbrev Landed := List (Path × ByteArray)

/-- One file onto `os.path.join(dest, rel)`: its folder is made, and it replaces the file
    there. -/
def downloadFile (fs : Tree) (f : Incoming) : Tree × Option Path :=
  if '\x00' ∈ f.rel.toList then (fs, none)
  else
    let cs := components f.rel
    match fs.makedirs (if f.rel.toList.head? = some '/' then [] else a.dest) cs.dropLast with
    | (fs, none) => (fs, none)
    | (fs, some dir) =>
      if !f.arrives then (fs, none)
      else
        match fs.put (cs.getLastD "") dir f.data with
        | none => (fs, none)
        | some fs => (fs, some (cs.getLastD "" :: dir))

def lastAt (landed : Landed) (q : Path) : Option ByteArray := (landed.reverse.find? (·.1 = q)).map (·.2)

/-- The loop: what landed, and whether it came to its end. -/
def downloadAll : List Incoming → Tree → Tree × Landed × Bool
  | [], fs => (fs, [], true)
  | f :: rest, fs =>
    match downloadFile a fs f with
    | (fs, none) => (fs, [], false)
    | (fs, some path) =>
      let (fs, landed, complete) := downloadAll rest fs
      (fs, (path, f.data) :: landed, complete)

def listed (b : Bucket) : List (String × Object) :=
  b.objects.filter fun x => a.prefixKey.toList.isPrefixOf x.1.toList

/-- The objects the loop does not skip: notes, and not the bare prefix. -/
def listedNotes (env : SyncEnv) (b : Bucket) : List Incoming :=
  (listed a b).filterMap fun (key, o) =>
    let rel := String.ofList (key.toList.drop a.prefixKey.toList.length)
    if vaultSuffix.toList.isSuffixOf key.toList = false ∨ rel = "" then none else some ⟨rel, o.data, env.fetched key⟩

inductive Synced where
  /-- It raised before the directory was touched. -/
  | failed
  | skipped
  | wiped (landed : Landed) (complete : Bool)

def syncFromS3 (env : SyncEnv) (v : VaultState) : VaultState × Synced :=
  if !env.listed then (v, .failed)
  else if unchanged a v then (v, .skipped)
  else
    match resetDest a v.fs with
    | (fs, false) => ({ v with fs }, .failed)
    | (fs, true) =>
      let (fs, landed, complete) := downloadAll a (listedNotes a env v.bucket) fs
      let l := listing a v.bucket
      ({ v with fs, etags := if complete && etagsAvailable l then some l else v.etags }, .wiped landed complete)

/-- `_sync_from_mock`, and the reset before it. -/
def syncFromMock (env : SyncEnv) (v : VaultState) : VaultState × Synced :=
  match resetDest a v.fs with
  | (fs, false) => ({ v with fs }, .failed)
  | (fs, true) =>
    let (fs, landed, complete) := downloadAll a env.mock fs
    ({ v with fs }, .wiped landed complete)

def syncUserVault (env : SyncEnv) (v : VaultState) : VaultState × Synced :=
  if a.user = sandboxUserId then syncFromMock a env v else syncFromS3 a env v

/-! ## What a sync does to the files -/

theorem Account.dest_parts (a : Account) : ∀ c ∈ a.dest.reverse, c ≠ "" ∧ c ≠ "." ∧ c ≠ ".." := fun c hc =>
  have h := a.dest_plain c (List.mem_reverse.mp hc)
  ⟨h.nonempty, h.noDot, h.noDotDot⟩

/-- A standing directory is removed and made again, and nothing is left in it. -/
theorem remade {a : Account} {fs : Tree} (hdir : fs.isDir a.dest = true) :
    ∃ fs', (fs.rmtree a.user a.root).makedirs [] a.dest.reverse = (fs', some a.dest) ∧
      (∀ q, fs'.fileAt q = if a.dest <:+ q then none else fs.fileAt q) ∧ fs'.isDir a.profile = false := by
  have hgone : ∀ q, (fs.rmtree a.user a.root).fileAt q = if a.dest <:+ q then none else fs.fileAt q :=
    fun q => Fs.fileAt_rmtree hdir q
  have hkept : ∀ q, (fs.rmtree a.user a.root).isDir q = (fs.isDir q && !decide (a.dest <:+ q)) :=
    fun q => Fs.isDir_rmtree hdir q
  have hnode : fs.node a.dest ≠ none := by rw [Fs.isDir_iff.mp hdir]; simp
  obtain ⟨fs', hmk⟩ : ∃ fs', (fs.rmtree a.user a.root).makedirs [] a.dest.reverse = (fs', some a.dest) := by
    rw [show some a.dest = some (a.dest.reverse.reverse ++ []) by simp]
    refine Fs.makedirs_ok a.dest_parts (Fs.isDir_iff.mpr (Fs.root _)) fun q hq => ?_
    rw [List.reverse_reverse, List.append_nil] at hq
    rw [hgone q]
    split
    · rfl
    · rename_i hnot
      exact Fs.fileAt_above hnode hq fun h => hnot (by rw [h])
  refine ⟨fs', hmk, fun q => ?_, ?_⟩
  · have := Fs.fileAt_makedirs (fs.rmtree a.user a.root) [] a.dest.reverse q
    rw [hmk] at this
    rw [this, hgone q]
  · rw [Bool.eq_false_iff]
    intro hd
    rcases (Fs.makedirs_plain a.dest_parts hmk).2 _ hd with h | h
    · rw [hkept] at h
      simp [show a.dest <:+ a.profile from List.suffix_cons _ _] at h
    · -- only the directory and those above it were made
      rw [List.reverse_reverse, List.append_nil] at h
      have hlen := h.length_le
      simp only [Account.profile, List.length_cons] at hlen
      omega

/-- The wipe of a standing directory goes through: the directory is there again, empty but
    for the profile. -/
theorem resetDest_dir {a : Account} {fs : Tree} (hdir : fs.isDir a.dest = true) :
    ∃ fs', resetDest a fs = (fs', true) ∧ ∀ q, fs'.fileAt q =
      if a.dest <:+ q then (if q = a.profile then fs.fileAt q else none) else fs.fileAt q := by
  obtain ⟨fs₁, hmk, hfiles, hleaf⟩ := remade hdir
  unfold resetDest
  simp only [hmk]
  cases hp : fs.fileAt a.profile with
  | none =>
    refine ⟨fs₁, rfl, fun q => ?_⟩
    rw [hfiles q]
    split
    · split
      · rename_i hq; rw [hq, hp]
      · rfl
    · rfl
  | some data =>
    obtain ⟨fs₂, hput⟩ := Option.isSome_iff_exists.mp
      (Fs.put_isSome.mpr ⟨Fs.isDir_makedirs hmk, hleaf⟩ : (fs₁.put preferencesFile a.dest data).isSome = true)
    refine ⟨fs₂, by simp only [hput], fun q => ?_⟩
    rw [Fs.fileAt_put hput, hfiles q]
    by_cases hq : q = a.profile
    · subst hq
      rw [if_pos (show a.profile = preferencesFile :: a.dest from rfl),
        if_pos (show a.dest <:+ a.profile from List.suffix_cons _ _), if_pos rfl, hp]
    · rw [if_neg hq, if_neg (show q ≠ preferencesFile :: a.dest from hq)]

/-- Without the directory there is nothing to wipe: it is made, or cannot be. -/
theorem resetDest_missing {a : Account} {fs fs' : Tree} {ok : Bool} (hdir : fs.isDir a.dest = false)
    (h : resetDest a fs = (fs', ok)) : (∀ q, fs'.fileAt q = fs.fileAt q) ∧ (ok = true → fs.fileAt a.dest = none) := by
  have hsame : fs.rmtree a.user a.root = fs := by
    unfold Fs.rmtree
    rw [if_neg (by rw [show fs.isDir (a.user :: a.root) = false from hdir]; simp)]
  have hprofile : fs.fileAt a.profile = none :=
    Fs.fileAt_below hdir (List.suffix_cons _ _) fun h => by simpa [Account.profile] using congrArg List.length h
  have hfiles := Fs.fileAt_makedirs fs [] a.dest.reverse
  unfold resetDest at h
  simp only [hsame, hprofile] at h
  split at h
  · rename_i hmk
    cases h
    rw [hmk] at hfiles
    exact ⟨hfiles, nofun⟩
  · rename_i fs₁ dest hmk
    cases h
    rw [hmk] at hfiles
    refine ⟨hfiles, fun _ => ?_⟩
    have hd := (Fs.makedirs_plain a.dest_parts hmk).1 dest rfl
    rw [List.reverse_reverse, List.append_nil] at hd
    rw [← hfiles, ← hd]
    exact Fs.fileAt_of_dir (Fs.isDir_makedirs hmk)

theorem resetDest_files {a : Account} {fs fs' : Tree} {ok : Bool} (h : resetDest a fs = (fs', ok)) (q : Path) :
    fs'.fileAt q =
      if ok = true ∧ a.dest <:+ q then (if q = a.profile then fs.fileAt q else none) else fs.fileAt q := by
  cases hdir : fs.isDir a.dest with
  | true =>
    obtain ⟨fs'', hreset, hfiles⟩ := resetDest_dir hdir
    rw [hreset] at h
    cases h
    rw [hfiles q]
    simp
  | false =>
    obtain ⟨hfiles, hdest⟩ := resetDest_missing hdir h
    rw [hfiles q]
    split
    · rename_i hq
      split
      · rfl
      · by_cases heq : a.dest = q
        · rw [← heq]; exact hdest hq.1
        · exact Fs.fileAt_below hdir hq.2 heq
    · rfl

theorem downloadFile_files {a : Account} {fs fs' : Tree} {f : Incoming} {landed : Option Path}
    (h : downloadFile a fs f = (fs', landed)) (q : Path) :
    fs'.fileAt q = if landed = some q then some f.data else fs.fileAt q := by
  unfold downloadFile at h
  split at h
  · cases h; rfl
  · have hfiles := Fs.fileAt_makedirs fs (if f.rel.toList.head? = some '/' then [] else a.dest)
      (components f.rel).dropLast q
    simp only at h
    split at h
    · rename_i hmk
      cases h; rw [hmk] at hfiles; exact hfiles
    · rename_i hmk
      rw [hmk] at hfiles
      split at h
      · cases h; exact hfiles
      · split at h
        · cases h; exact hfiles
        · rename_i hput
          cases h
          rw [Fs.fileAt_put hput, hfiles]
          simp [eq_comm]

theorem lastAt_cons (p : Path) (data : ByteArray) (landed : Landed) (q : Path) :
    lastAt ((p, data) :: landed) q = (lastAt landed q).or (if p = q then some data else none) := by
  unfold lastAt
  rw [List.reverse_cons, List.find?_append]
  cases landed.reverse.find? (·.1 = q) with
  | some x => rfl
  | none => by_cases h : p = q <;> simp [h]

theorem downloadAll_files {a : Account} {files : List Incoming} {fs fs' : Tree} {landed : Landed} {complete : Bool}
    (h : downloadAll a files fs = (fs', landed, complete)) (q : Path) :
    fs'.fileAt q = (lastAt landed q).or (fs.fileAt q) := by
  induction files generalizing fs fs' landed with
  | nil => cases h; rfl
  | cons f files ih =>
    simp only [downloadAll] at h
    rcases hd : downloadFile a fs f with ⟨fs₁, _ | path⟩
    · rw [hd] at h
      cases h
      rw [downloadFile_files hd]; rfl
    · rcases hall : downloadAll a files fs₁ with ⟨fs₂, landed₂, complete₂⟩
      rw [hd] at h
      simp only [hall] at h
      cases h
      rw [ih hall, downloadFile_files hd, lastAt_cons]
      simp only [Option.some.injEq]
      cases lastAt landed₂ q with
      | some data => rfl
      | none => by_cases hq : path = q <;> simp [hq]

/-- The sync gets past the listing, the skip and the reset of the directory. -/
def wipes (a : Account) (env : SyncEnv) (v : VaultState) : Bool :=
  (a.user = sandboxUserId || env.listed && !unchanged a v) && (resetDest a v.fs).2

def landing (a : Account) (env : SyncEnv) (v : VaultState) : Landed :=
  let files := if a.user = sandboxUserId then env.mock else listedNotes a env v.bucket
  (downloadAll a files (resetDest a v.fs).1).2.1

/-- A sync is the reset and the loop, or does not get to the reset. -/
theorem sync_cases (a : Account) (env : SyncEnv) (v : VaultState) :
    (wipes a env v = false ∧ (syncUserVault a env v).1.fs = v.fs) ∨
    (wipes a env v = (resetDest a v.fs).2 ∧ (syncUserVault a env v).1.fs =
      if (resetDest a v.fs).2 then
        (downloadAll a (if a.user = sandboxUserId then env.mock else listedNotes a env v.bucket) (resetDest a v.fs).1).1
      else (resetDest a v.fs).1) := by
  unfold wipes syncUserVault
  by_cases hmock : a.user = sandboxUserId
  · right
    simp only [hmock, if_true, decide_true, Bool.true_or, Bool.true_and, syncFromMock]
    rcases resetDest a v.fs with ⟨fs, _ | _⟩ <;> simp
  · simp only [hmock, if_false, decide_false, Bool.false_or, syncFromS3]
    cases hlisted : env.listed with
    | false => exact Or.inl ⟨rfl, rfl⟩
    | true =>
      cases hsame : unchanged a v with
      | true => exact Or.inl ⟨rfl, rfl⟩
      | false =>
        right
        rcases resetDest a v.fs with ⟨fs, _ | _⟩ <;> exact ⟨rfl, rfl⟩

/-- A sync that does not get to the wipe changes no file. -/
theorem sync_keeps {a : Account} {env : SyncEnv} {v : VaultState} (h : wipes a env v = false) (q : Path) :
    (syncUserVault a env v).1.fs.fileAt q = v.fs.fileAt q := by
  rcases sync_cases a env v with ⟨-, hfs⟩ | ⟨hreset, hfs⟩
  · rw [hfs]
  · rw [h] at hreset
    have hwiped := resetDest_files (show resetDest a v.fs = ((resetDest a v.fs).1, false) by rw [hreset]) q
    rw [hfs, ← hreset, if_neg Bool.false_ne_true, hwiped]
    simp

/-- After the wipe a file at or below the directory is what was last downloaded onto its
    path, or the profile as it was. -/
theorem sync_files {a : Account} {env : SyncEnv} {v : VaultState} (h : wipes a env v = true) {q : Path}
    (hq : a.dest <:+ q) :
    (syncUserVault a env v).1.fs.fileAt q =
      (lastAt (landing a env v) q).or (if q = a.profile then v.fs.fileAt q else none) := by
  rcases sync_cases a env v with ⟨hno, -⟩ | ⟨hreset, hfs⟩
  · rw [h] at hno; cases hno
  · rw [h] at hreset
    have hwiped := resetDest_files (show resetDest a v.fs = ((resetDest a v.fs).1, true) by rw [hreset]) q
    rw [if_pos ⟨rfl, hq⟩] at hwiped
    rw [hfs, ← hreset, if_pos rfl, downloadAll_files rfl q, hwiped]
    rfl

/-! ## The write-back -/

/-- What becomes of one upload; a stored object gets an entity tag. -/
inductive Attempt where
  | stored (etag : Option String)
  | failed
  /-- Stored, and the call raises all the same. -/
  | lost (etag : Option String)

/-- `upload_user_file` of a file in the user's directory; `false` when it raises. -/
def uploadUserFile (filename : String) (attempt : Attempt) (v : VaultState) : VaultState × Bool :=
  if a.user = sandboxUserId then (v, true)
  else
    match v.fs.fileAt (filename :: a.dest) with
    | none => (v, true)
    | some data =>
      let key := a.prefixKey ++ filename
      match attempt with
      | .stored etag => ({ v with bucket := v.bucket.put key ⟨data, etag⟩ }, true)
      | .failed => (v, false)
      | .lost etag => ({ v with bucket := v.bucket.put key ⟨data, etag⟩ }, false)

theorem uploadUserFile_fs (a : Account) (filename : String) (attempt : Attempt) (v : VaultState) :
    (uploadUserFile a filename attempt v).1.fs = v.fs := by
  unfold uploadUserFile
  split
  · rfl
  · cases v.fs.fileAt (filename :: a.dest) with
    | none => rfl
    | some data => cases attempt <;> rfl

/-! ## A vault to start from -/

def someUser : Account where
  root := ["vaults", "tmp"]
  user := "u1"
  rootPlain := by
    intro name h
    simp only [List.mem_cons, List.not_mem_nil, or_false] at h
    rcases h with rfl | rfl <;> exact ⟨by decide, by decide, by decide, by decide⟩
  userPlain := ⟨by decide, by decide, by decide, by decide⟩
  userNoNul := by decide

def emptyTree : Tree where
  node p := if p = [] then some .dir else none
  root := rfl
  parent _name _p h := absurd rfl h

def emptyVault : VaultState := ⟨emptyTree, ⟨[], List.Pairwise.nil⟩, none⟩

def reliableSync : SyncEnv := ⟨true, fun _ => true, []⟩

end CoreHeartbeat.Vault
