/-
  CoreHeartbeat.Vault.WriteNote — what `write_note` does to the user's directory, and with it to
  the next `_reset_dest`.

  The containment check lets the directory itself through. Where it stands, the open fails on a
  directory; where it does not yet, the parent is made and the note becomes a file in the
  directory's place, which `os.makedirs(dest, exist_ok=True)` never gets past again. A user has
  no directory before the first sync that gets to its reset.

  A write that returns has to leave three things (`LeavesVault`): a note strictly below the
  directory, the directory, and a reset that goes through. The name is any text, the tree
  anything, and the write may fail at any point. A name that stands for the directory is `.`,
  `notes/..`, the absolute path of the directory, and more (`NamesDirectory`). A file may also
  stand above the directory, where the root should be (`RootBlocked`); then no write returns.

  Proved:
  - `writeNote_keeps_dirs`: no write, returned or raised, takes a directory away.
  - `writeNote_onto_dest`: a name that resolves to the missing directory is written there.
  - `writeNote_leaves_iff`: a write that returns leaves a vault the next reset can recreate,
    unless its name stands for a directory that is still missing.
  - `a_note_takes_the_directory`: the first note of a new user, named `.`.
  - `blocked_syncs`: after a file took the directory's place, no later sync gets past the reset
    or changes a file.
-/

import CoreHeartbeat.Vault.StorageSync
import CoreHeartbeat.Vault.Tools

namespace CoreHeartbeat.Vault

open Posix

/-- What a write that returns has to leave: a note strictly below the user's directory, the
    directory, and a reset that goes through. -/
def LeavesVault (a : Account) (written : Except VaultError Path × Tree) : Prop :=
  ∀ path, written.1 = .ok path →
    (a.dest <:+ path ∧ a.dest ≠ path) ∧ written.2.isDir a.dest = true ∧ (resetDest a written.2).2 = true

/-- The name stands for the directory itself: `.`, `notes/..`, its absolute path. -/
def NamesDirectory (a : Account) (filename : String) : Prop :=
  (filename ≠ "" ∧ '\x00' ∉ filename.toList) ∧ realpathJoin a.dest filename = a.dest

/-- A file stands where a directory above the user's would have to be. -/
def RootBlocked (a : Account) (fs : Tree) : Prop := ∃ q, q <:+ a.root ∧ fs.fileAt q ≠ none

/-! ## A write that returns -/

theorem resolve_dest_iff (a : Account) (filename : String) :
    resolveWithinVault a.root a.user filename = .ok a.dest ↔ NamesDirectory a filename := by
  unfold resolveWithinVault NamesDirectory
  simp only [userDir_account, bind, Except.bind, pure, Except.pure, throw, throwThe, MonadExceptOf.throw]
  split
  · rename_i hbad
    simp only [reduceCtorEq, false_iff]
    intro h
    rcases hbad with hempty | hnul
    · exact h.1.1 hempty
    · exact h.1.2 hnul
  · rename_i hgood
    rw [not_or] at hgood
    split
    · rename_i hout
      simp only [reduceCtorEq, false_iff]
      intro h
      exact hout.1 h.2
    · simp only [Except.ok.injEq]
      exact ⟨fun h => ⟨hgood, h⟩, fun h => h.2⟩

/-- A write that returns made the folder of its path and put the note into it. -/
theorem writeNote_ok {fault : Option ByteArray} {fs fs' : Tree} {a : Account} {filename content : String} {path : Path}
    (h : writeNote fault fs a filename content = (.ok path, fs')) :
    fault = none ∧ resolveWithinVault a.root a.user filename = .ok path ∧
      ∃ name dir fs₁, path = name :: dir ∧ fs.makedirs [] dir.reverse = (fs₁, some dir) ∧
        fs₁.put name dir content.toUTF8 = some fs' := by
  unfold writeNote at h
  split at h
  · cases h
  · rename_i name dir fs₁ hopen
    have hmade : fs.makedirs [] dir.reverse = (fs₁, some dir) := by
      have hres := (openNote_ok hopen).1
      unfold openNote at hopen
      rw [hres] at hopen
      simp only at hopen
      split at hopen
      · cases hopen
      · rename_i hmk
        split at hopen
        · cases hopen
        · cases hopen
          exact hmk
    split at h
    · rename_i hput
      cases h
      exact ⟨rfl, (openNote_ok hopen).1, name, dir, fs₁, rfl, hmade, hput⟩
    · cases h
    · cases h

/-- A name that resolves to the missing directory is written there, if the root can be made. -/
theorem writeNote_onto_dest {fs : Tree} {a : Account} {filename : String} (content : String)
    (hname : NamesDirectory a filename) (hmissing : fs.isDir a.dest = false) (hroot : ¬ RootBlocked a fs) :
    ∃ fs', writeNote none fs a filename content = (.ok a.dest, fs') := by
  have hres := (resolve_dest_iff a filename).mpr hname
  have hplain : ∀ c ∈ a.root.reverse, c ≠ "" ∧ c ≠ "." ∧ c ≠ ".." := makeable a.rootPlain
  obtain ⟨fs₁, hmk⟩ : ∃ fs₁, fs.makedirs [] a.root.reverse = (fs₁, some a.root) := by
    have hfree : ∀ q, q <:+ a.root.reverse.reverse ++ [] → fs.fileAt q = none := fun q hq => by
      by_contra hfile
      exact hroot ⟨q, by simpa using hq, hfile⟩
    simpa using Fs.makedirs_ok hplain (Fs.isDir_iff.mpr fs.root) hfree
  have hleaf : fs₁.isDir (a.user :: a.root) = false := by
    rw [Bool.eq_false_iff]
    intro hdir
    rcases (Fs.makedirs_plain hplain hmk).2 _ hdir with h | h
    · rw [show fs.isDir (a.user :: a.root) = false from hmissing] at h
      cases h
    · have hlen := h.length_le
      simp at hlen
  obtain ⟨fs', hput⟩ := Option.isSome_iff_exists.mp
    (Fs.put_isSome.mpr ⟨Fs.isDir_makedirs hmk, hleaf⟩ : (fs₁.put a.user a.root content.toUTF8).isSome = true)
  have hopen : openNote fs a filename = (.ok (a.user, a.root), fs₁) := by
    simp only [openNote, hres, Account.dest, hmk, hleaf, Bool.false_eq_true, if_false]
  exact ⟨fs', by simp only [writeNote, hopen, Option.getD_none, hput, Account.dest]⟩

/-- No write, returned or raised, takes a directory away. -/
theorem writeNote_keeps_dirs (fault : Option ByteArray) (fs : Tree) (a : Account) (filename content : String) {q : Path}
    (hq : fs.isDir q = true) : (writeNote fault fs a filename content).2.isDir q = true := by
  have hopened : (openNote fs a filename).2.isDir q = true := by
    unfold openNote
    split
    · exact hq
    · exact hq
    · rename_i name dir _
      have hmade := Fs.isDir_makedirs_of [] dir.reverse hq
      split
      · rename_i hmk; rw [hmk] at hmade; exact hmade
      · rename_i hmk
        rw [hmk] at hmade
        split <;> exact hmade
  unfold writeNote
  split
  · rename_i hopen; rw [hopen] at hopened; exact hopened
  · rename_i hopen
    rw [hopen] at hopened
    split
    · rename_i hput; rw [Fs.isDir_put hput]; exact hopened
    · rename_i hput; rw [Fs.isDir_put hput]; exact hopened
    · exact hopened

/-! ## What the write leaves -/

/-- A write that returns a path below the directory leaves the directory standing. -/
theorem dest_stands {fault : Option ByteArray} {fs fs' : Tree} {a : Account} {filename content : String} {path : Path}
    (h : writeNote fault fs a filename content = (.ok path, fs')) (hne : a.dest ≠ path) : fs'.isDir a.dest = true := by
  obtain ⟨-, hres, name, dir, fs₁, rfl, hmk, hput⟩ := writeNote_ok h
  have hbelow : a.dest <:+ dir := by
    rcases List.suffix_cons_iff.mp (resolve_below hres).1 with heq | hdir
    · exact absurd heq hne
    · exact hdir
  rw [Fs.isDir_put hput]
  exact Fs.isDir_above (Fs.isDir_makedirs hmk) hbelow

/-- For every filename and every tree: a write that returns leaves its note below the
    directory, the directory, and a reset that goes through, if and only if the name does not
    stand for a directory that is missing and could be written over. -/
theorem writeNote_leaves_iff (fault : Option ByteArray) (fs : Tree) (a : Account) (filename content : String) :
    LeavesVault a (writeNote fault fs a filename content) ↔
      (fault = none → NamesDirectory a filename → fs.isDir a.dest = true ∨ RootBlocked a fs) := by
  constructor
  · intro hleaves hfault hname
    subst hfault
    by_contra hno
    rw [not_or, Bool.not_eq_true] at hno
    obtain ⟨fs', hwrite⟩ := writeNote_onto_dest content hname hno.1 hno.2
    exact (hleaves a.dest (by rw [hwrite])).1.2 rfl
  · intro hcond path hpath
    have hwrite : writeNote fault fs a filename content = (.ok path, (writeNote fault fs a filename content).2) :=
      Prod.ext hpath rfl
    obtain ⟨hfault, hres, name, dir, fs₁, hcons, hmk, hput⟩ := writeNote_ok hwrite
    have hne : a.dest ≠ path := by
      intro heq
      subst heq
      obtain ⟨rfl, rfl⟩ := List.cons.inj hcons
      rcases hcond hfault ((resolve_dest_iff a filename).mp hres) with hdir | ⟨q, hq, hfile⟩
      · -- the open would have met a directory
        obtain ⟨-, hleaf, -⟩ := Fs.put_eq_some.mp hput
        have hstill := Fs.isDir_makedirs_of [] a.root.reverse hdir
        rw [hmk] at hstill
        rw [show fs₁.isDir a.dest = false from hleaf] at hstill
        cases hstill
      · -- the root would not have been made
        have hfiles := Fs.fileAt_makedirs fs [] a.root.reverse q
        rw [hmk] at hfiles
        exact hfile (hfiles ▸ Fs.fileAt_of_dir (Fs.isDir_above (Fs.isDir_makedirs hmk) hq))
    have hdir := dest_stands hwrite hne
    obtain ⟨fs'', hreset, -⟩ := resetDest_dir hdir
    exact ⟨⟨(resolve_below hres).1, hne⟩, hdir, by rw [hreset]⟩

/-- The first note of a new user, named `.`: the file takes the directory's place, and the
    reset of the next sync raises. -/
theorem a_note_takes_the_directory :
    (writeNote none emptyTree someUser "." "hello").1 = .ok someUser.dest ∧
      (writeNote none emptyTree someUser "." "hello").2.isDir someUser.dest = false ∧
      (resetDest someUser (writeNote none emptyTree someUser "." "hello").2).2 = false ∧
      ¬ LeavesVault someUser (writeNote none emptyTree someUser "." "hello") := by
  have hleaves : ¬ LeavesVault someUser (writeNote none emptyTree someUser "." "hello") := fun h =>
    (h someUser.dest (by decide +kernel)).1.2 rfl
  exact ⟨by decide +kernel, by decide +kernel, by decide +kernel, hleaves⟩

/-! ## The syncs after it -/

/-- A file in the directory's place stays, and the reset raises on it. -/
theorem resetDest_blocked {a : Account} {fs : Tree} (hfile : fs.fileAt a.dest ≠ none) :
    (resetDest a fs).2 = false ∧ ∀ q, (resetDest a fs).1.fileAt q = fs.fileAt q := by
  have hdir : fs.isDir a.dest = false := by
    cases hd : fs.isDir a.dest with
    | false => rfl
    | true => exact absurd (Fs.fileAt_of_dir hd) hfile
  obtain ⟨hsame, hok⟩ := resetDest_missing hdir (show resetDest a fs = (_, _) from rfl)
  refine ⟨?_, hsame⟩
  rw [Bool.eq_false_iff]
  exact fun h => hfile (hok h)

/-- No later sync, whatever it finds, gets past the reset or changes a file. -/
theorem blocked_syncs {a : Account} (envs : List SyncEnv) {v : VaultState} (hfile : v.fs.fileAt a.dest ≠ none) :
    let v' := envs.foldl (fun v env => (syncUserVault a env v).1) v
    (∀ env, wipes a env v' = false) ∧ ∀ q, v'.fs.fileAt q = v.fs.fileAt q := by
  have hblocked : ∀ {v : VaultState}, v.fs.fileAt a.dest ≠ none → ∀ env, wipes a env v = false := by
    intro v hfile env
    rw [wipes, (resetDest_blocked hfile).1, Bool.and_false]
  induction envs generalizing v with
  | nil => exact ⟨hblocked hfile, fun _ => rfl⟩
  | cons env envs ih =>
    have hkept := sync_keeps (hblocked hfile env)
    obtain ⟨hlater, hfiles⟩ := ih (v := (syncUserVault a env v).1) (by rw [hkept]; exact hfile)
    exact ⟨hlater, fun q => (hfiles q).trans (hkept q)⟩

end CoreHeartbeat.Vault
