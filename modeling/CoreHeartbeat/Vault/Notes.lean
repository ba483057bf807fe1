/-
  CoreHeartbeat.Vault.Notes — do the notes the assistant writes persist?

  The operations on one user's vault in one process, in any order: the sync before a turn, a
  `write_user_note` call, a recorded preference with its write-back. Each meets anything: a
  listing that fails, downloads that fail, a write that raises half-way, uploads that are lost,
  a bucket that somebody else changed.

  A ledger keeps, for every path, the note last written there with success; a preference
  recorded onto the profile replaces the note of that path. A note goes into the local directory
  only, and a sync that finds the listing changed, or without entity tags, wipes that directory
  for what the bucket holds.

  What is compared is what a read returns: a text file is read with its line ends translated, so
  a note with a carriage return is not read back as it was written.

  Proved:
  - `sync_keeps_notes_iff`, `write_keeps_notes_iff`, `record_keeps_notes_iff`: one operation of
    each kind.
  - `notes_persist_iff`: every note stays readable in exactly the runs where each such sync
    downloads every note of the ledger again onto its path, no note has a carriage return, and
    no write fails half-way onto a note.
  - `a_note_is_wiped_by_the_next_sync`: written in the first turn, gone when the second begins.
-/

import CoreHeartbeat.Lib.Machine
import CoreHeartbeat.Vault.Profile

namespace CoreHeartbeat.Vault

open Posix PyText

inductive TurnOp where
  | sync (env : SyncEnv)
  | write (fault : Option ByteArray) (filename content : String)
  | record (env : RecordEnv)

/-- The vault, and by path the name and the content of the note last written there. -/
structure NoteLedger where
  vault : VaultState
  notes : Path → Option (String × String)

inductive TurnAnswer where
  | synced (r : Synced)
  | wrote (r : Except VaultError Path)
  | recorded (line : Option String)

variable (toolOwned : String → String → Bool) (a : Account)

def NoteLedger.step (l : NoteLedger) : TurnOp → NoteLedger × TurnAnswer
  | .sync env =>
    let (vault, r) := syncUserVault a env l.vault
    ({ l with vault }, .synced r)
  | .write fault filename content =>
    let (r, fs) := writeNote fault l.vault.fs a filename content
    let notes := match r with
      | .ok path => Function.update l.notes path (some (filename, content))
      | .error _ => l.notes
    (⟨{ l.vault with fs }, notes⟩, .wrote r)
  | .record env =>
    let (vault, line) := extractAndRecordPreference toolOwned a env l.vault
    (⟨vault, if line.isSome then Function.update l.notes a.profile none else l.notes⟩, .recorded line)

def NoteLedger.init (v : VaultState) : NoteLedger := ⟨v, fun _ => none⟩

def Readable (l : NoteLedger) : Prop :=
  ∀ path filename content, l.notes path = some (filename, content) → readNote l.vault.fs a filename = .ok content

/-- The operation keeps the notes there are, and a note it writes can be read back. -/
def KeepsNotes (l : NoteLedger) : TurnOp → Prop
  | .sync env => wipes a env l.vault = true → ∀ path filename content, l.notes path = some (filename, content) →
      match lastAt (landing a env l.vault) path with
      | some data => readText data = some content
      | none => path = a.profile
  | .write none filename content => ∀ path, Opens l.vault.fs a filename path → '\r' ∉ content.toList
  | .write (some leftover) filename _ => ∀ path, Opens l.vault.fs a filename path →
      ∀ old content, l.notes path = some (old, content) → readText leftover = some content
  | .record env => ∀ pref leftover, recordable toolOwned env = some pref → env.fault = some leftover →
      Opens l.vault.fs a preferencesFile a.profile →
      ∀ old content, l.notes a.profile = some (old, content) → readText leftover = some content

/-! ## One operation -/

/-- The name a note was written under resolves to its path. -/
def Resolved (l : NoteLedger) : Prop :=
  ∀ path filename content, l.notes path = some (filename, content) →
    resolveWithinVault a.root a.user filename = .ok path

theorem resolved_step (l : NoteLedger) (op : TurnOp) (h : Resolved a l) : Resolved a (l.step toolOwned a op).1 := by
  cases op with
  | sync env => exact h
  | write fault filename content =>
    intro path old oldContent hnote
    rcases writeNote_cases fault l.vault.fs a filename content with ⟨⟨e, he⟩, -, -⟩ | ⟨opened, hopen, hr, -⟩
    · simp only [NoteLedger.step, he] at hnote
      exact h path old oldContent hnote
    · cases fault with
      | some leftover =>
        rw [if_neg (by simp)] at hr
        simp only [NoteLedger.step, hr] at hnote
        exact h path old oldContent hnote
      | none =>
        rw [if_pos rfl] at hr
        simp only [NoteLedger.step, hr] at hnote
        by_cases hp : path = opened
        · subst hp
          rw [Function.update_self, Option.some.injEq, Prod.mk.injEq] at hnote
          rw [← hnote.1]; exact hopen.resolves
        · rw [Function.update_of_ne hp] at hnote
          exact h path old oldContent hnote
  | record env =>
    intro path old oldContent hnote
    simp only [NoteLedger.step] at hnote
    split at hnote
    · by_cases hp : path = a.profile
      · rw [hp, Function.update_self] at hnote; cases hnote
      · rw [Function.update_of_ne hp] at hnote
        exact h path old oldContent hnote
    · exact h path old oldContent hnote

/-- Readability is about the files alone. -/
theorem readable_iff {l : NoteLedger} (h : Resolved a l) :
    Readable a l ↔ ∀ path filename content, l.notes path = some (filename, content) →
      ∃ data, l.vault.fs.fileAt path = some data ∧ readText data = some content := by
  refine ⟨?_, ?_⟩
  · intro hr path filename content hnote
    exact (readNote_ok_iff (h path filename content hnote)).mp (hr path filename content hnote)
  · intro hr path filename content hnote
    exact (readNote_ok_iff (h path filename content hnote)).mpr (hr path filename content hnote)

/-- Where one file is overwritten, and the ledger changes at its path at most, the notes
    stay readable just when the one of that path, if any, is what was written. -/
theorem overwritten_iff {fs fs' : Tree} {notes notes' : Path → Option (String × String)} {opened : Path}
    {data : ByteArray} (hfiles : ∀ q, fs'.fileAt q = if q = opened then some data else fs.fileAt q)
    (hnotes : ∀ q, q ≠ opened → notes' q = notes q)
    (hold : ∀ path filename content, notes path = some (filename, content) →
      ∃ data, fs.fileAt path = some data ∧ readText data = some content) :
    (∀ path filename content, notes' path = some (filename, content) →
      ∃ data, fs'.fileAt path = some data ∧ readText data = some content) ↔
      ∀ filename content, notes' opened = some (filename, content) → readText data = some content := by
  refine ⟨?_, ?_⟩
  · intro h filename content hnote
    obtain ⟨data', hfile, htext⟩ := h opened filename content hnote
    rw [hfiles, if_pos rfl, Option.some.injEq] at hfile
    rw [hfile]; exact htext
  · intro h path filename content hnote
    rw [hfiles]
    by_cases hp : path = opened
    · subst hp
      exact ⟨data, if_pos rfl, h filename content hnote⟩
    · rw [hnotes path hp] at hnote
      rw [if_neg hp]
      exact hold path filename content hnote

theorem sync_keeps_notes_iff (l : NoteLedger) (env : SyncEnv) (hres : Resolved a l) (hread : Readable a l) :
    Readable a (l.step toolOwned a (.sync env)).1 ↔ KeepsNotes toolOwned a l (.sync env) := by
  rw [readable_iff a (resolved_step toolOwned a l (.sync env) hres)]
  have hold := (readable_iff a hres).mp hread
  cases hw : wipes a env l.vault with
  | false =>
    simp only [KeepsNotes, hw, Bool.false_eq_true, false_implies, iff_true]
    intro path filename content hnote
    obtain ⟨data, hfile, htext⟩ := hold path filename content hnote
    exact ⟨data, (sync_keeps hw path).trans hfile, htext⟩
  | true =>
    have hfiles : ∀ path filename content, l.notes path = some (filename, content) →
        (l.step toolOwned a (.sync env)).1.vault.fs.fileAt path =
          (lastAt (landing a env l.vault) path).or (if path = a.profile then l.vault.fs.fileAt path else none) :=
      fun path filename content hnote => sync_files hw (resolve_below (hres path filename content hnote)).1
    simp only [KeepsNotes, hw, true_implies]
    refine forall_congr' fun path => forall_congr' fun filename => forall_congr' fun content => ?_
    refine imp_congr_right fun hnote => ?_
    rw [hfiles path filename content hnote]
    cases lastAt (landing a env l.vault) path with
    | some data => simp
    | none =>
      obtain ⟨data, hfile, htext⟩ := hold path filename content hnote
      by_cases hp : path = a.profile
      · subst hp
        simp [hfile, htext]
      · simp [hp]

theorem write_keeps_notes_iff (l : NoteLedger) (fault : Option ByteArray) (filename content : String)
    (hres : Resolved a l) (hread : Readable a l) :
    Readable a (l.step toolOwned a (.write fault filename content)).1 ↔
      KeepsNotes toolOwned a l (.write fault filename content) := by
  rw [readable_iff a (resolved_step toolOwned a l (.write fault filename content) hres)]
  have hold := (readable_iff a hres).mp hread
  rcases writeNote_cases fault l.vault.fs a filename content with ⟨⟨e, he⟩, hno, hfiles⟩ | ⟨opened, hopen, hr, hfiles⟩
  · -- nothing was opened
    have hkeeps : KeepsNotes toolOwned a l (.write fault filename content) := by
      cases fault <;> exact fun path hpath => absurd ⟨path, hpath⟩ hno
    simp only [hkeeps, iff_true, NoteLedger.step, he]
    intro path old oldContent hnote
    obtain ⟨data, hfile, htext⟩ := hold path old oldContent hnote
    exact ⟨data, (hfiles path).trans hfile, htext⟩
  · have hone : ∀ path, Opens l.vault.fs a filename path → path = opened := fun path hpath =>
      Except.ok.inj (hpath.resolves.symm.trans hopen.resolves)
    cases fault with
    | none =>
      rw [if_pos rfl] at hr
      simp only [KeepsNotes, NoteLedger.step, hr]
      rw [overwritten_iff hfiles (fun q hq => Function.update_of_ne hq _ _) hold, Function.update_self]
      refine ⟨?_, ?_⟩
      · intro h path hpath
        exact readText_toUTF8_eq_self_iff.mp (h filename content rfl)
      · intro h old oldContent hnote
        rw [Option.some.injEq, Prod.mk.injEq] at hnote
        rw [← hnote.2]
        exact readText_toUTF8_eq_self_iff.mpr (h opened hopen)
    | some leftover =>
      rw [if_neg (by simp)] at hr
      have hfiles' : ∀ q, (writeNote (some leftover) l.vault.fs a filename content).2.fileAt q =
          if q = opened then some leftover else l.vault.fs.fileAt q := hfiles
      simp only [KeepsNotes, NoteLedger.step, hr]
      rw [overwritten_iff hfiles' (fun _ _ => rfl) hold]
      refine ⟨?_, ?_⟩
      · intro h path hpath
        obtain rfl := hone path hpath
        exact h
      · intro h
        exact h opened hopen

theorem record_keeps_notes_iff (l : NoteLedger) (env : RecordEnv) (hres : Resolved a l) (hread : Readable a l) :
    Readable a (l.step toolOwned a (.record env)).1 ↔ KeepsNotes toolOwned a l (.record env) := by
  rw [readable_iff a (resolved_step toolOwned a l (.record env) hres)]
  have hold := (readable_iff a hres).mp hread
  simp only [NoteLedger.step]
  rcases task_cases toolOwned a env l.vault with ⟨hno, hline, hfiles⟩ | ⟨pref, hpref, hopen, hline, hfiles⟩
  · -- the profile was not opened
    have hkeeps : KeepsNotes toolOwned a l (.record env) := fun pref _ hpref _ hopen => absurd hopen (hno pref hpref)
    simp only [hkeeps, iff_true, hline, Option.isSome_none, Bool.false_eq_true, if_false]
    intro path old oldContent hnote
    obtain ⟨data, hfile, htext⟩ := hold path old oldContent hnote
    exact ⟨data, (hfiles path).trans hfile, htext⟩
  · cases hfault : env.fault with
    | none =>
      -- the new profile replaces the note of its path
      have hkeeps : KeepsNotes toolOwned a l (.record env) := fun _ leftover _ h => by rw [hfault] at h; cases h
      simp only [hkeeps, iff_true, hline, hfault, if_true, Option.isSome_some]
      rw [overwritten_iff hfiles (fun q hq => Function.update_of_ne hq _ _) hold, Function.update_self]
      intro old oldContent hnote
      cases hnote
    | some leftover =>
      rw [hfault] at hfiles
      simp only [hline, hfault, reduceCtorEq, if_false, Option.isSome_none, Bool.false_eq_true]
      rw [overwritten_iff hfiles (fun _ _ => rfl) hold]
      refine ⟨?_, ?_⟩
      · intro h pref' leftover' _ hfault' _
        rw [hfault, Option.some.injEq] at hfault'
        rw [← hfault']; exact h
      · intro h
        exact h pref leftover hpref hfault hopen

theorem step_keeps_notes_iff (l : NoteLedger) (op : TurnOp) (hres : Resolved a l) (hread : Readable a l) :
    Readable a (l.step toolOwned a op).1 ↔ KeepsNotes toolOwned a l op := by
  cases op with
  | sync env => exact sync_keeps_notes_iff toolOwned a l env hres hread
  | write fault filename content => exact write_keeps_notes_iff toolOwned a l fault filename content hres hread
  | record env => exact record_keeps_notes_iff toolOwned a l env hres hread

/-! ## Whole histories -/

/-- From any vault, over every sequence of syncs, writes and recorded preferences: after
    each of them every note is readable as it was last written, if and only if each of them
    meets `KeepsNotes`. -/
theorem notes_persist_iff (v : VaultState) (ops : List TurnOp) :
    (∀ l m, ops = l ++ m → Readable a (Machine.final (NoteLedger.step toolOwned a) (NoteLedger.init v) l)) ↔
      Machine.Meets (NoteLedger.step toolOwned a) (KeepsNotes toolOwned a) (NoteLedger.init v) ops :=
  Machine.always_iff_meets (I := Resolved a) (resolved_step toolOwned a) (step_keeps_notes_iff toolOwned a)
    (by intro _ _ _ h; cases h) (by intro _ _ _ h; cases h) ops

/-- Two turns of a user with nothing in the bucket; the first writes a note. -/
def noteThenSync : List TurnOp := [.sync reliableSync, .write none "plan.md" "Ship on Friday.", .sync reliableSync]

/-- The note that the first turn wrote is gone when the second begins. -/
theorem a_note_is_wiped_by_the_next_sync :
    ¬ ∀ l m, noteThenSync = l ++ m → Readable someUser
      (Machine.final (NoteLedger.step (fun _ _ => false) someUser) (NoteLedger.init emptyVault) l) := by
  intro h
  have hread := h noteThenSync [] (List.append_nil _).symm ["plan.md", "u1", "vaults", "tmp"] "plan.md" "Ship on Friday." rfl
  have hgone : readNote (Machine.final (NoteLedger.step (fun _ _ => false) someUser) (NoteLedger.init emptyVault)
      noteThenSync).vault.fs someUser "plan.md" = .error .notFound := rfl
  rw [hgone] at hread
  cases hread

end CoreHeartbeat.Vault
