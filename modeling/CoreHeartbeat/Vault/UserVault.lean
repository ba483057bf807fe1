/-
  CoreHeartbeat.Vault.UserVault — the note operations of `tools/user_vault.py` on one user's
  directory below the vault root.

  There are no symbolic links, so `os.path.realpath` is the arithmetic of `Posix`. A name is
  joined onto the user's directory and resolved, and the result has to be the directory itself
  or lie below it; the test is the source's, on path strings. A name is any text.

  A write makes the folder of its path and opens the file. It either happens whole or, when
  something raises after the file was opened (an unencodable text, a full disk), leaves some
  bytes in the opened file and raises (`fault`). A read decodes the file as UTF-8 with its line
  ends translated.

  Proved, as the specification of the operations for the modules on top:
  - `resolve_below`: a name that resolves, resolves to the user's directory or below it.
  - `openNote_files`, `openNote_ok`: what opening a note does to the tree.
  - `writeNote_cases`: everything a write does: nothing to any file, or it opens its path and
    leaves there the whole text, or what reached it before the fault.
  - `readNote_of_file`, `readNote_ok_iff`: what a read makes of a file.
-/

import CoreHeartbeat.Lib.Posix
import CoreHeartbeat.Lib.PyText

namespace CoreHeartbeat.Vault

open Posix

abbrev Tree := Fs ByteArray

/-- A user whose directory is one plain component below the vault root. -/
structure Account where
  root : Path
  user : String
  rootPlain : ∀ name ∈ root, PlainName name
  userPlain : PlainName user
  userNoNul : '\x00' ∉ user.toList

/-- `os.path.join(_sync_root(), user_id)`. -/
def Account.dest (a : Account) : Path := a.user :: a.root

theorem Account.dest_plain (a : Account) : ∀ name ∈ a.dest, PlainName name := by
  intro name h
  rcases List.mem_cons.mp h with rfl | h
  · exact a.userPlain
  · exact a.rootPlain name h

inductive VaultError where
  | invalidUserId (userId : String)
  | invalidFilename (filename : String)
  | escapes (filename userId : String)
  | isADirectory (filename : String)
  | notFound
  | undecodable
  /-- What the operating system or the encoder raises. -/
  | os
  deriving DecidableEq, Repr

/-! ## Path resolution -/

def userDir (root : Path) (userId : String) : Except VaultError Path :=
  if userId = "" ∨ userId = "." ∨ userId = ".." ∨ '\x00' ∈ userId.toList ∨ '/' ∈ userId.toList then
    .error (.invalidUserId userId)
  else .ok (realpathJoin root userId)

def resolveWithinVault (root : Path) (userId filename : String) : Except VaultError Path := do
  if filename = "" ∨ '\x00' ∈ filename.toList then throw (.invalidFilename filename)
  let base ← userDir root userId
  let target := realpathJoin base filename
  if target ≠ base ∧ (render base ++ "/").toList.isPrefixOf (render target).toList = false then
    throw (.escapes filename userId)
  return target

theorem userDir_account (a : Account) : userDir a.root a.user = .ok a.dest := by
  have hplain := a.userPlain
  unfold userDir
  rw [if_neg (by simp [hplain.nonempty, hplain.noDot, hplain.noDotDot, hplain.noSlash, a.userNoNul]),
    realpathJoin_plainName hplain]
  rfl

/-- A name that resolves, resolves to the user's directory or below it. -/
theorem resolve_below {a : Account} {filename : String} {path : Path}
    (h : resolveWithinVault a.root a.user filename = .ok path) :
    a.dest <:+ path ∧ ∀ name ∈ path, PlainName name := by
  unfold resolveWithinVault at h
  simp only [userDir_account, bind, Except.bind, pure, Except.pure, throw, throwThe, MonadExceptOf.throw] at h
  have hplain := realpathJoin_plain a.dest_plain filename
  split at h
  · cases h
  · split at h
    · cases h
    · rename_i hin
      obtain rfl := Except.ok.inj h
      refine ⟨?_, hplain⟩
      rw [not_and_or, not_not, Bool.not_eq_false, List.isPrefixOf_iff_prefix,
        render_startsWith (by simp [Account.dest]) a.dest_plain hplain] at hin
      rcases hin with heq | hin
      · rw [heq]
      · exact hin.1

/-! ## Reading and writing -/

def readNote (fs : Tree) (a : Account) (filename : String) : Except VaultError String := do
  let path ← resolveWithinVault a.root a.user filename
  if fs.isDir path then throw (.isADirectory filename)
  match fs.fileAt path with
  | none => throw .notFound
  | some data =>
    match PyText.readText data with
    | none => throw .undecodable
    | some text => return text

/-- `write_note` up to the opened file: its folder is made, and it can be written. -/
def openNote (fs : Tree) (a : Account) (filename : String) : Except VaultError (String × Path) × Tree :=
  match resolveWithinVault a.root a.user filename with
  | .error e => (.error e, fs)
  | .ok [] => (.error .os, fs)
  | .ok (name :: dir) =>
    match fs.makedirs [] dir.reverse with
    | (fs, none) => (.error .os, fs)
    | (fs, some dir) => if fs.isDir (name :: dir) then (.error .os, fs) else (.ok (name, dir), fs)

def writeNote (fault : Option ByteArray) (fs : Tree) (a : Account) (filename content : String) :
    Except VaultError Path × Tree :=
  match openNote fs a filename with
  | (.error e, fs) => (.error e, fs)
  | (.ok (name, dir), fs) =>
    match fault, fs.put name dir (fault.getD content.toUTF8) with
    | none, some fs => (.ok (name :: dir), fs)
    | some _, some fs => (.error .os, fs)
    | _, none => (.error .os, fs)

/-- The name resolves to `path`, and a write gets to open it. -/
def Opens (fs : Tree) (a : Account) (filename : String) (path : Path) : Prop :=
  ∃ name dir fs', openNote fs a filename = (.ok (name, dir), fs') ∧ path = name :: dir

theorem openNote_files {fs fs' : Tree} {a : Account} {filename : String} {r : Except VaultError (String × Path)}
    (h : openNote fs a filename = (r, fs')) (q : Path) : fs'.fileAt q = fs.fileAt q := by
  unfold openNote at h
  split at h
  · cases h; rfl
  · cases h; rfl
  · rename_i name dir _
    have hfiles := Fs.fileAt_makedirs fs [] dir.reverse q
    split at h
    · rename_i hmk
      cases h; rw [hmk] at hfiles; exact hfiles
    · rename_i hmk
      rw [hmk] at hfiles
      split at h <;> cases h <;> exact hfiles

theorem openNote_ok {fs fs' : Tree} {a : Account} {filename name : String} {dir : Path}
    (h : openNote fs a filename = (.ok (name, dir), fs')) :
    resolveWithinVault a.root a.user filename = .ok (name :: dir) ∧ fs'.isDir dir = true ∧
      fs'.isDir (name :: dir) = false := by
  unfold openNote at h
  split at h
  · cases h
  · cases h
  · rename_i name' dir' hres
    have hplain := (resolve_below hres).2
    split at h
    · cases h
    · rename_i fs'' dir'' hmk
      have hcs : ∀ c ∈ dir'.reverse, c ≠ "" ∧ c ≠ "." ∧ c ≠ ".." := fun c hc => by
        have := hplain c (List.mem_cons_of_mem _ (List.mem_reverse.mp hc))
        exact ⟨this.nonempty, this.noDot, this.noDotDot⟩
      have hdir := (Fs.makedirs_plain hcs hmk).1 dir'' rfl
      rw [List.reverse_reverse, List.append_nil] at hdir
      subst hdir
      split at h
      · cases h
      · rename_i hleaf
        cases h
        exact ⟨hres, Fs.isDir_makedirs hmk, by simpa using hleaf⟩

theorem Opens.resolves {fs : Tree} {a : Account} {filename : String} {path : Path} (h : Opens fs a filename path) :
    resolveWithinVault a.root a.user filename = .ok path := by
  obtain ⟨name, dir, fs', hopen, rfl⟩ := h
  exact (openNote_ok hopen).1

/-- Everything a write does: nothing to any file, or it opens its path and leaves there the
    whole text, or what reached it before the fault. -/
theorem writeNote_cases (fault : Option ByteArray) (fs : Tree) (a : Account) (filename content : String) :
    ((∃ e, (writeNote fault fs a filename content).1 = .error e) ∧ (¬ ∃ path, Opens fs a filename path) ∧
        ∀ q, (writeNote fault fs a filename content).2.fileAt q = fs.fileAt q) ∨
    ∃ path, Opens fs a filename path ∧
      (writeNote fault fs a filename content).1 = (if fault = none then .ok path else .error .os) ∧
      ∀ q, (writeNote fault fs a filename content).2.fileAt q =
        if q = path then some (fault.getD content.toUTF8) else fs.fileAt q := by
  unfold writeNote
  rcases hopen : openNote fs a filename with ⟨e | ⟨name, dir⟩, fs'⟩
  · refine Or.inl ⟨⟨e, rfl⟩, ?_, openNote_files hopen⟩
    intro h
    obtain ⟨path, name, dir, fs'', h, -⟩ := h
    rw [hopen] at h; cases h
  · right
    obtain ⟨-, hdir, hleaf⟩ := openNote_ok hopen
    refine ⟨name :: dir, ⟨name, dir, fs', hopen, rfl⟩, ?_⟩
    obtain ⟨fs'', hput⟩ := Option.isSome_iff_exists.mp
      (Fs.put_isSome.mpr ⟨hdir, hleaf⟩ : (fs'.put name dir (fault.getD content.toUTF8)).isSome = true)
    have hfiles : ∀ q, fs''.fileAt q = if q = name :: dir then some (fault.getD content.toUTF8) else fs.fileAt q := by
      intro q
      rw [Fs.fileAt_put hput, openNote_files hopen]
    cases fault with
    | none => simp only [hput]; exact ⟨rfl, hfiles⟩
    | some partialData => simp only [hput]; exact ⟨rfl, hfiles⟩

/-- A read of a name whose file is there returns its text. -/
theorem readNote_of_file {fs : Tree} {a : Account} {filename : String} {path : Path} {data : ByteArray}
    (hres : resolveWithinVault a.root a.user filename = .ok path) (hfile : fs.fileAt path = some data) :
    readNote fs a filename = match PyText.readText data with
      | none => .error .undecodable
      | some text => .ok text := by
  have hdir : fs.isDir path = false := by
    have := Fs.fileAt_eq_some.mp hfile
    simp [Fs.isDir, this]
  simp only [readNote, hres, hdir, hfile, bind, Except.bind, pure, Except.pure, Bool.false_eq_true, if_false]
  cases PyText.readText data <;> rfl

/-- What a read returns for a name that resolves to `path`. -/
theorem readNote_ok_iff {fs : Tree} {a : Account} {filename text : String} {path : Path}
    (hres : resolveWithinVault a.root a.user filename = .ok path) :
    readNote fs a filename = .ok text ↔ ∃ data, fs.fileAt path = some data ∧ PyText.readText data = some text := by
  cases hfile : fs.fileAt path with
  | none =>
    have : readNote fs a filename ≠ .ok text := by
      simp only [readNote, hres, hfile, bind, Except.bind, throw, throwThe, MonadExceptOf.throw]
      split <;> simp
    simp [this]
  | some data =>
    rw [readNote_of_file hres hfile]
    cases hread : PyText.readText data <;> simp [hread]

end CoreHeartbeat.Vault
