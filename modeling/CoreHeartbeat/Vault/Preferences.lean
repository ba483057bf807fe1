/-
  CoreHeartbeat.Vault.Preferences — is a recorded preference ever lost?

  The operations on one user's vault, one at a time under the user's lock: syncs, runs of the
  background task with any fate of its uploads, and changes of another party to the objects
  other than the profile. A ledger keeps, for every key, the bullet last recorded for it.

  The wipe of a sync carries the profile over, and then the loop downloads the profile's own
  object onto it. When both uploads of a record failed, that object is older than the file, and
  the next sync that wipes puts the older profile in its place. A sync wipes when the listing
  changed, which another party's object is enough for.

  That a bullet is there is a matter of the lines of the file, as `_record_preference` reads
  them; so a bullet with a line break in it is not there as a line, and a record whose key is
  the beginning of another key's text takes that key's bullet (`ProfileStore`).

  Proved:
  - `record_step`: a run of the task records nothing, or the bullet of its extraction under its
    key.
  - `sync_keeps_bullets_iff`, `record_keeps_bullets_iff`: one operation of each kind.
  - `bullets_persist_iff`: every bullet stays a line of the profile in exactly the runs where no
    wiping sync puts onto the profile a file without one of them, no bullet with a line break is
    recorded, and no record takes the bullet of another key for its own.
  - `an_older_profile_comes_back`: the sync puts the older profile in the place of the recorded
    one.
-/

import CoreHeartbeat.Lib.Machine
import CoreHeartbeat.Vault.Profile

namespace CoreHeartbeat.Vault

open Posix PyText

def Account.profileKey (a : Account) : String := a.prefixKey ++ preferencesFile

inductive VaultOp (a : Account) where
  | sync (env : SyncEnv)
  | record (env : RecordEnv)
  /-- Another party stores or deletes an object. -/
  | remote (key : String) (other : key ≠ a.profileKey) (o : Option Object)

/-- What an upsert replaces by. -/
def MemoryExtraction.key (pref : MemoryExtraction) : PreferenceType × String := (pref.preferenceType, pref.keyInsight)

/-- The vault, and by key the bullet last recorded. -/
structure ProfileLedger where
  vault : VaultState
  live : PreferenceType × String → Option String

variable (toolOwned : String → String → Bool) (a : Account)

def ProfileLedger.step (l : ProfileLedger) : VaultOp a → ProfileLedger × Option String
  | .sync env => ({ l with vault := (syncUserVault a env l.vault).1 }, none)
  | .record env =>
    let (vault, line) := extractAndRecordPreference toolOwned a env l.vault
    let live := match recordable toolOwned env, line with
      | some pref, some line => Function.update l.live pref.key (some line)
      | _, _ => l.live
    (⟨vault, live⟩, line)
  | .remote key _ (some o) => ({ l with vault := { l.vault with bucket := l.vault.bucket.put key o } }, none)
  | .remote key _ none => ({ l with vault := { l.vault with bucket := l.vault.bucket.delete key } }, none)

def ProfileLedger.init (v : VaultState) : ProfileLedger := ⟨v, fun _ => none⟩

def Remembered (l : ProfileLedger) : Prop :=
  ∀ key b, l.live key = some b →
    ∃ text, readNote l.vault.fs a preferencesFile = .ok text ∧ b.toList ∈ splitlines [] text.toList

def Holds (l : ProfileLedger) (data : ByteArray) : Prop := ∀ key b, l.live key = some b → b.toList ∈ linesOf data

/-- The operation keeps the bullets there are, and a bullet it records is a line. -/
def KeepsBullets (l : ProfileLedger) : VaultOp a → Prop
  | .sync env => wipes a env l.vault = true → ∀ data, lastAt (landing a env l.vault) a.profile = some data → Holds l data
  | .record env => ∀ pref, recordable toolOwned env = some pref → Opens l.vault.fs a preferencesFile a.profile →
      match env.fault with
      | some leftover => Holds l leftover
      | none => NoBreak (bullet pref).toList ∧ ∀ key b, key ≠ pref.key → l.live key = some b →
          (keyPrefix pref).toList <+: b.toList → b = bullet pref
  | .remote _ _ _ => True

/-! ## One operation -/

def Bulleted (l : ProfileLedger) : Prop := ∀ key b, l.live key = some b → "- ".toList <+: b.toList

theorem bullet_dash (pref : MemoryExtraction) : "- ".toList <+: (bullet pref).toList := by
  unfold bullet keyPrefix
  simp only [String.toList_append, List.append_assoc]
  exact ⟨_, rfl⟩

/-- A run of the task records nothing, or the bullet of its extraction under its key. -/
theorem record_step (l : ProfileLedger) (env : RecordEnv) :
    ((l.step toolOwned a (.record env)).1.live = l.live ∧
        (l.step toolOwned a (.record env)).1.vault.fs.fileAt a.profile = l.vault.fs.fileAt a.profile ∧
        KeepsBullets toolOwned a l (.record env)) ∨
    ∃ pref, recordable toolOwned env = some pref ∧ Opens l.vault.fs a preferencesFile a.profile ∧
      (l.step toolOwned a (.record env)).1.live =
        (if env.fault = none then Function.update l.live pref.key (some (bullet pref)) else l.live) ∧
      (l.step toolOwned a (.record env)).1.vault.fs.fileAt a.profile = some (env.fault.getD
        (profileText (keptBullets pref (existingProfile l.vault.fs a) ++ [(bullet pref).toList])).toUTF8) := by
  rcases task_cases toolOwned a env l.vault with ⟨hno, hline, hfiles⟩ | ⟨pref, hpref, hopen, hline, hfiles⟩
  · refine Or.inl ⟨?_, hfiles a.profile, fun pref hpref hopen => absurd hopen (hno pref hpref)⟩
    simp only [ProfileLedger.step, hline]
    cases recordable toolOwned env <;> rfl
  · refine Or.inr ⟨pref, hpref, hopen, ?_, (hfiles a.profile).trans (if_pos rfl)⟩
    simp only [ProfileLedger.step, hpref, hline]
    by_cases hf : env.fault = none
    · rw [if_pos hf, if_pos hf]
    · rw [if_neg hf, if_neg hf]

theorem bulleted_step (l : ProfileLedger) (op : VaultOp a) (h : Bulleted l) : Bulleted (l.step toolOwned a op).1 := by
  cases op with
  | sync env => exact h
  | remote key other o => cases o <;> exact h
  | record env =>
    intro key b hb
    rcases record_step toolOwned a l env with ⟨hlive, -, -⟩ | ⟨pref, -, -, hlive, -⟩
    · rw [hlive] at hb
      exact h key b hb
    · rw [hlive] at hb
      split at hb
      · by_cases hk : key = pref.key
        · rw [hk, Function.update_self, Option.some.injEq] at hb
          rw [← hb]; exact bullet_dash pref
        · rw [Function.update_of_ne hk] at hb
          exact h key b hb
      · exact h key b hb

/-- The ledger is remembered by the bytes of the profile. -/
theorem remembered_iff (l : ProfileLedger) :
    Remembered a l ↔ ∀ key b, l.live key = some b →
      ∃ data, l.vault.fs.fileAt a.profile = some data ∧ b.toList ∈ linesOf data := by
  have hread : ∀ text, readNote l.vault.fs a preferencesFile = .ok text ↔
      ∃ data, l.vault.fs.fileAt a.profile = some data ∧ readText data = some text :=
    fun _ => readNote_ok_iff (resolve_profile a)
  refine forall_congr' fun key => forall_congr' fun b => imp_congr_right fun _ => ?_
  refine ⟨?_, ?_⟩
  · intro h
    obtain ⟨text, hok, hmem⟩ := h
    obtain ⟨data, hfile, htext⟩ := (hread text).mp hok
    refine ⟨data, hfile, ?_⟩
    unfold linesOf
    rw [htext]; exact hmem
  · intro h
    obtain ⟨data, hfile, hmem⟩ := h
    unfold linesOf at hmem
    split at hmem
    · rename_i text htext
      exact ⟨text, (hread text).mpr ⟨data, hfile, htext⟩, hmem⟩
    · cases hmem

/-- The bullets are remembered after the profile is overwritten just when it holds them. -/
theorem remembered_overwritten {l : ProfileLedger} {data : ByteArray}
    (hfile : l.vault.fs.fileAt a.profile = some data) :
    Remembered a l ↔ Holds l data := by
  rw [remembered_iff]
  refine forall_congr' fun key => forall_congr' fun b => imp_congr_right fun _ => ?_
  refine ⟨?_, ?_⟩
  · intro h
    obtain ⟨data', hfile', hmem⟩ := h
    rw [hfile, Option.some.injEq] at hfile'
    rw [hfile']; exact hmem
  · intro hmem
    exact ⟨data, hfile, hmem⟩

/-- What a step leaves of the profile and of the ledger is all that counts. -/
theorem remembered_same {l l' : ProfileLedger} (hlive : l'.live = l.live)
    (hfile : l'.vault.fs.fileAt a.profile = l.vault.fs.fileAt a.profile) : Remembered a l' ↔ Remembered a l := by
  rw [remembered_iff, remembered_iff, hlive, hfile]

theorem sync_keeps_bullets_iff (l : ProfileLedger) (env : SyncEnv) (hrem : Remembered a l) :
    Remembered a (l.step toolOwned a (.sync env)).1 ↔ KeepsBullets toolOwned a l (.sync env) := by
  have hlive : (l.step toolOwned a (.sync env)).1.live = l.live := rfl
  cases hw : wipes a env l.vault with
  | false =>
    have hkeeps : KeepsBullets toolOwned a l (.sync env) := fun h => by rw [hw] at h; cases h
    have hfile : (l.step toolOwned a (.sync env)).1.vault.fs.fileAt a.profile = l.vault.fs.fileAt a.profile :=
      sync_keeps hw a.profile
    rw [remembered_same a hlive hfile]
    exact iff_of_true hrem hkeeps
  | true =>
    have hfile : (l.step toolOwned a (.sync env)).1.vault.fs.fileAt a.profile =
        (lastAt (landing a env l.vault) a.profile).or (l.vault.fs.fileAt a.profile) := by
      have := sync_files (q := a.profile) hw (List.suffix_cons _ _)
      rwa [if_pos rfl] at this
    cases hlast : lastAt (landing a env l.vault) a.profile with
    | none =>
      rw [hlast, Option.none_or] at hfile
      have hkeeps : KeepsBullets toolOwned a l (.sync env) := fun _ data h => by rw [hlast] at h; cases h
      rw [remembered_same a hlive hfile]
      exact iff_of_true hrem hkeeps
    | some data =>
      rw [hlast] at hfile
      rw [remembered_overwritten a hfile]
      refine ⟨?_, ?_⟩
      · intro h _ data' hdata
        rw [hlast, Option.some.injEq] at hdata
        rw [← hdata]; exact h
      · intro h
        exact h hw data hlast

/-- The lines a record without a fault leaves of the bullets there were. -/
theorem kept_iff {fs : Tree} {data : ByteArray} (hfile : fs.fileAt a.profile = some data) {pref : MemoryExtraction}
    {b : List Char} (hdash : "- ".toList <+: b) (hline : b ∈ linesOf data) :
    b ∈ keptBullets pref (existingProfile fs a) ↔ ¬ (keyPrefix pref).toList <+: b := by
  have hexisting : ∀ text, readText data = some text → existingProfile fs a = text := by
    intro text htext
    unfold existingProfile
    rw [(readNote_ok_iff (resolve_profile a)).mpr ⟨data, hfile, htext⟩]
  unfold linesOf at hline
  split at hline
  · rename_i text htext
    unfold keptBullets
    rw [hexisting text htext]
    simp only [List.mem_filter, hline, List.isPrefixOf_iff_prefix.mpr hdash, true_and, and_self, Bool.not_eq_true',
      ← List.isPrefixOf_iff_prefix, Bool.not_eq_true]
  · cases hline

theorem keptBullets_noBreak (pref : MemoryExtraction) (existing : String) :
    ∀ b ∈ keptBullets pref existing, NoBreak b := by
  intro b hb
  unfold keptBullets at hb
  exact splitlines_noBreak (by intro c hc; cases hc) b (List.mem_of_mem_filter (List.mem_of_mem_filter hb))

/-- A recorded profile holds every bullet when the new one is a line and takes no other
    bullet for its own key's. -/
theorem holds_recorded_iff {l l' : ProfileLedger} {pref : MemoryExtraction}
    (hlive : l'.live = Function.update l.live pref.key (some (bullet pref))) (hdash : Bulleted l)
    (hrem : ∀ key b, l.live key = some b → ∃ data, l.vault.fs.fileAt a.profile = some data ∧ b.toList ∈ linesOf data) :
    Holds l' (profileText (keptBullets pref (existingProfile l.vault.fs a) ++ [(bullet pref).toList])).toUTF8 ↔
      NoBreak (bullet pref).toList ∧ ∀ key b, key ≠ pref.key → l.live key = some b →
        (keyPrefix pref).toList <+: b.toList → b = bullet pref := by
  set kept := keptBullets pref (existingProfile l.vault.fs a) with hkept
  have hown : l'.live pref.key = some (bullet pref) := by rw [hlive, Function.update_self]
  have hlines : NoBreak (bullet pref).toList → linesOf (profileText (kept ++ [(bullet pref).toList])).toUTF8 =
      "# User Preferences".toList :: [] :: (kept ++ [(bullet pref).toList]) := by
    intro hbreak
    refine linesOf_profileText (by simp) fun b hb => ?_
    rcases List.mem_append.mp hb with hb | hb
    · exact keptBullets_noBreak pref _ b hb
    · rw [List.mem_singleton.mp hb]; exact hbreak
  refine ⟨?_, ?_⟩
  · intro h
    have hbreak := linesOf_noBreak (h pref.key _ hown)
    refine ⟨hbreak, fun key b hk hb hprefix => ?_⟩
    obtain ⟨data, hfile, hline⟩ := hrem key b hb
    have hmem := h key b (by rw [hlive, Function.update_of_ne hk]; exact hb)
    rw [hlines hbreak] at hmem
    have hstart := hdash key b hb
    rcases List.mem_cons.mp hmem with hhead | hmem
    · exact absurd hstart (by rw [hhead]; decide)
    · rcases List.mem_cons.mp hmem with hhead | hmem
      · exact absurd hstart (by rw [hhead]; decide)
      · rcases List.mem_append.mp hmem with hmem | hmem
        · exact absurd hprefix ((kept_iff a hfile hstart hline).mp hmem)
        · exact String.toList_inj.mp (List.mem_singleton.mp hmem)
  · rintro ⟨hbreak, htakes⟩ key b hb
    rw [hlines hbreak]
    refine List.mem_cons_of_mem _ (List.mem_cons_of_mem _ (List.mem_append.mpr ?_))
    by_cases hk : key = pref.key
    · rw [hk, hown, Option.some.injEq] at hb
      exact Or.inr (List.mem_singleton.mpr (by rw [hb]))
    · rw [hlive, Function.update_of_ne hk] at hb
      obtain ⟨data, hfile, hline⟩ := hrem key b hb
      by_cases hprefix : (keyPrefix pref).toList <+: b.toList
      · exact Or.inr (List.mem_singleton.mpr (by rw [htakes key b hk hb hprefix]))
      · exact Or.inl ((kept_iff a hfile (hdash key b hb) hline).mpr hprefix)

theorem record_keeps_bullets_iff (l : ProfileLedger) (env : RecordEnv) (hdash : Bulleted l) (hrem : Remembered a l) :
    Remembered a (l.step toolOwned a (.record env)).1 ↔ KeepsBullets toolOwned a l (.record env) := by
  rcases record_step toolOwned a l env with ⟨hlive, hfile, hkeeps⟩ | ⟨pref, hpref, hopen, hlive, hfile⟩
  · rw [remembered_same a hlive hfile]
    exact iff_of_true hrem hkeeps
  · have hcond : KeepsBullets toolOwned a l (.record env) ↔ match env.fault with
        | some leftover => Holds l leftover
        | none => NoBreak (bullet pref).toList ∧ ∀ key b, key ≠ pref.key → l.live key = some b →
            (keyPrefix pref).toList <+: b.toList → b = bullet pref := by
      refine ⟨?_, ?_⟩
      · intro h
        exact h pref hpref hopen
      · intro h pref' hpref' _
        rw [hpref, Option.some.injEq] at hpref'
        rw [← hpref']; exact h
    rw [remembered_overwritten a hfile, hcond]
    cases hfault : env.fault with
    | some leftover =>
      rw [hfault, if_neg (by simp)] at hlive
      unfold Holds
      rw [hlive]; rfl
    | none =>
      rw [hfault, if_pos rfl] at hlive
      show Holds _ (profileText (keptBullets pref (existingProfile l.vault.fs a) ++ [(bullet pref).toList])).toUTF8 ↔ _
      exact holds_recorded_iff a hlive hdash ((remembered_iff a l).mp hrem)

theorem step_keeps_bullets_iff (l : ProfileLedger) (op : VaultOp a) (hdash : Bulleted l) (hrem : Remembered a l) :
    Remembered a (l.step toolOwned a op).1 ↔ KeepsBullets toolOwned a l op := by
  cases op with
  | sync env => exact sync_keeps_bullets_iff toolOwned a l env hrem
  | record env => exact record_keeps_bullets_iff toolOwned a l env hdash hrem
  | remote key other o =>
    -- the objects change, no file does
    have hsame : Remembered a (l.step toolOwned a (.remote key other o)).1 := by cases o <;> exact hrem
    exact iff_of_true hsame trivial

/-! ## Whole histories -/

/-- From any vault, over every sequence of syncs, records and remote changes: after each of
    them the profile holds every bullet that was recorded and not replaced by a newer one of
    its key, if and only if each of them meets `KeepsBullets`. -/
theorem bullets_persist_iff (v : VaultState) (ops : List (VaultOp a)) :
    (∀ l m, ops = l ++ m → Remembered a (Machine.final (ProfileLedger.step toolOwned a) (ProfileLedger.init v) l)) ↔
      Machine.Meets (ProfileLedger.step toolOwned a) (KeepsBullets toolOwned a) (ProfileLedger.init v) ops :=
  Machine.always_iff_meets (I := Bulleted) (bulleted_step toolOwned a) (step_keeps_bullets_iff toolOwned a)
    (by intro _ _ h; cases h) (by intro _ _ h; cases h) ops

def olderProfile : VaultState :=
  { emptyVault with
    bucket := emptyVault.bucket.put "u1/user_preferences.md"
      ⟨"# User Preferences\n\n- **favorite** | editor: emacs (confidence 0.90)\n".toUTF8, some "e1"⟩ }

def vim : MemoryExtraction := ⟨.favorite, "editor", "vim", 9 / 10, by norm_num, by norm_num⟩

/-- Both uploads of the new favourite fail, and before the next turn a note is added to the
    bucket. -/
def failedWriteBack : List (VaultOp someUser) :=
  [.sync reliableSync, .record ⟨"Noted.", true, some vim, none, .failed, .failed⟩,
    .remote "u1/todo.md" (by decide) (some ⟨"Call Ann.".toUTF8, some "e2"⟩), .sync reliableSync]

/-- The sync puts the older profile in the place of the recorded one. -/
theorem an_older_profile_comes_back :
    ¬ ∀ l m, failedWriteBack = l ++ m → Remembered someUser
      (Machine.final (ProfileLedger.step (fun _ _ => false) someUser) (ProfileLedger.init olderProfile) l) := by
  intro h
  have hrem := h failedWriteBack [] (List.append_nil _).symm
  have hlive : (Machine.final (ProfileLedger.step (fun _ _ => false) someUser) (ProfileLedger.init olderProfile)
      failedWriteBack).live (.favorite, "editor") = some "- **favorite** | editor: vim (confidence 0.90)" := by
    decide +kernel
  have hold : (readNote (Machine.final (ProfileLedger.step (fun _ _ => false) someUser) (ProfileLedger.init olderProfile)
      failedWriteBack).vault.fs someUser preferencesFile).toOption =
      some "# User Preferences\n\n- **favorite** | editor: emacs (confidence 0.90)\n" := by
    decide +kernel
  obtain ⟨text, hread, hline⟩ := hrem (.favorite, "editor") _ hlive
  rw [hread] at hold
  obtain rfl := Option.some.inj hold
  revert hline
  decide +kernel

end CoreHeartbeat.Vault
