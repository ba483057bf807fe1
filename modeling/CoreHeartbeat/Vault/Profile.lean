/-
  CoreHeartbeat.Vault.Profile — the preference profile: one bullet a key in
  `user_preferences.md` (`_record_preference`), recorded in the background after a turn and
  mirrored to the bucket (`extract_and_record_preference`).

  The model that extracts, its client, and the filter for state a tool owns are given from
  outside. An extraction is recorded when it is a preference of enough confidence and no state
  that a tool owns. A confidence is the exact value of its float, and its two decimals are
  rounded as Python rounds them, half to even on that value.

  A record reads the profile, keeps the bullets that do not start with its own key's text,
  appends its own, and writes the file whole; a write that raises leaves what had reached the
  file. The task then uploads the file, and tries once more when that raises.

  Proved:
  - `record_cases`: a record writes the profile whole, or leaves there what reached it before a
    fault.
  - `task_cases`: the task records nothing and changes no file, or it writes the profile of its
    extraction, whole or up to a fault.
  - `linesOf_profileText`: the profile of bullets without a line break is read back line by
    line.
-/

import CoreHeartbeat.Vault.StorageSync
import Mathlib.Data.Rat.Floor

namespace CoreHeartbeat.Vault

open Posix PyText

inductive PreferenceType where
  | favorite | projectStack | toolSetting | personalFact | workflow | none
  deriving DecidableEq, Repr

def PreferenceType.str : PreferenceType → String
  | .favorite => "favorite"
  | .projectStack => "project_stack"
  | .toolSetting => "tool_setting"
  | .personalFact => "personal_fact"
  | .workflow => "workflow"
  | .none => "none"

structure MemoryExtraction where
  preferenceType : PreferenceType
  keyInsight : String
  value : String
  confidenceScore : ℚ
  inRange : 0 ≤ confidenceScore ∧ confidenceScore ≤ 1

/-- The float `0.6`. -/
def memoryConfidenceThreshold : ℚ := 5404319552844595 / 9007199254740992

/-- The nearest integer, ties to even. -/
def roundHalfEven (q : ℚ) : ℤ :=
  let r := q - ⌊q⌋
  if r < 1 / 2 then ⌊q⌋ else if 1 / 2 < r then ⌊q⌋ + 1 else if ⌊q⌋ % 2 = 0 then ⌊q⌋ else ⌊q⌋ + 1

/-- `f"{q:.2f}"` of a number that is not negative. -/
def twoDecimals (q : ℚ) : String :=
  let n := (roundHalfEven (100 * q)).toNat
  toString (n / 100) ++ "." ++ toString (n / 10 % 10) ++ toString (n % 10)

/-! ## The profile's text -/

def keyPrefix (pref : MemoryExtraction) : String :=
  "- **" ++ pref.preferenceType.str ++ "** | " ++ pref.keyInsight ++ ":"

def bullet (pref : MemoryExtraction) : String :=
  keyPrefix pref ++ " " ++ pref.value ++ " (confidence " ++ twoDecimals pref.confidenceScore ++ ")"

/-- The bullets of the old profile that the new one replaces nothing of. -/
def keptBullets (pref : MemoryExtraction) (existing : String) : List (List Char) :=
  ((splitlines [] existing.toList).filter fun b => "- ".toList.isPrefixOf b).filter
    fun b => !(keyPrefix pref).toList.isPrefixOf b

def profileText (bullets : List (List Char)) : String :=
  String.ofList ("# User Preferences\n\n".toList ++ (List.intercalate ['\n'] bullets ++ ['\n']))

def existingProfile (fs : Tree) (a : Account) : String :=
  match readNote fs a preferencesFile with
  | .ok text => text
  | .error _ => ""

def recordPreference (fault : Option ByteArray) (fs : Tree) (a : Account) (pref : MemoryExtraction) :
    Except VaultError String × Tree :=
  let bullets := keptBullets pref (existingProfile fs a) ++ [(bullet pref).toList]
  match writeNote fault fs a preferencesFile (profileText bullets) with
  | (.ok _, fs) => (.ok (bullet pref), fs)
  | (.error e, fs) => (.error e, fs)

/-! ## The background task -/

structure RecordEnv where
  assistantReply : String
  hasClient : Bool
  extracted : Option MemoryExtraction
  fault : Option ByteArray
  first : Attempt
  second : Attempt

def recordable (toolOwned : String → String → Bool) (env : RecordEnv) : Option MemoryExtraction :=
  if env.assistantReply = "" ∨ env.hasClient = false then none
  else env.extracted.filter fun pref =>
    pref.preferenceType ≠ .none ∧ memoryConfidenceThreshold ≤ pref.confidenceScore ∧
      toolOwned pref.keyInsight pref.value = false

/-- The upload, tried once more when it raises. -/
def writeBack (a : Account) (env : RecordEnv) (v : VaultState) : VaultState :=
  match uploadUserFile a preferencesFile env.first v with
  | (v, true) => v
  | (v, false) => (uploadUserFile a preferencesFile env.second v).1

def extractAndRecordPreference (toolOwned : String → String → Bool) (a : Account) (env : RecordEnv) (v : VaultState) :
    VaultState × Option String :=
  match recordable toolOwned env with
  | none => (v, none)
  | some pref =>
    match recordPreference env.fault v.fs a pref with
    | (.error _, fs) => ({ v with fs }, none)
    | (.ok line, fs) => (writeBack a env { v with fs }, some line)

/-! ## What a record does -/

theorem resolve_profile (a : Account) : resolveWithinVault a.root a.user preferencesFile = .ok a.profile := by
  have hname : PlainName preferencesFile := ⟨by decide, by decide, by decide, by decide⟩
  have htarget : realpathJoin a.dest preferencesFile = a.profile := realpathJoin_plainName hname a.dest
  have hplain : ∀ name ∈ a.profile, PlainName name := by
    intro name h
    rcases List.mem_cons.mp h with rfl | h
    · exact hname
    · exact a.dest_plain name h
  have hin : (render a.dest ++ "/").toList.isPrefixOf (render a.profile).toList = true := by
    rw [List.isPrefixOf_iff_prefix, render_startsWith (by simp [Account.dest]) a.dest_plain hplain]
    exact ⟨List.suffix_cons _ _, fun h => by simpa [Account.profile] using congrArg List.length h⟩
  simp only [resolveWithinVault, userDir_account, htarget, hin, bind, Except.bind, pure, Except.pure]
  rw [if_neg (by decide)]
  simp

/-- A record writes the profile whole, or leaves there what reached it before a fault. -/
theorem record_cases (fault : Option ByteArray) (fs : Tree) (a : Account) (pref : MemoryExtraction) :
    ((∃ e, (recordPreference fault fs a pref).1 = .error e) ∧ (¬ Opens fs a preferencesFile a.profile) ∧
        ∀ q, (recordPreference fault fs a pref).2.fileAt q = fs.fileAt q) ∨
    (Opens fs a preferencesFile a.profile ∧
      (recordPreference fault fs a pref).1 = (if fault = none then .ok (bullet pref) else .error .os) ∧
      ∀ q, (recordPreference fault fs a pref).2.fileAt q =
        if q = a.profile then
          some (fault.getD (profileText (keptBullets pref (existingProfile fs a) ++ [(bullet pref).toList])).toUTF8)
        else fs.fileAt q) := by
  set content := profileText (keptBullets pref (existingProfile fs a) ++ [(bullet pref).toList]) with hcontent
  have hrecord : recordPreference fault fs a pref =
      ((writeNote fault fs a preferencesFile content).1.map fun _ => bullet pref,
        (writeNote fault fs a preferencesFile content).2) := by
    unfold recordPreference
    simp only [← hcontent]
    rcases writeNote fault fs a preferencesFile content with ⟨_ | _, fs'⟩ <;> rfl
  rw [hrecord]
  rcases writeNote_cases fault fs a preferencesFile content with ⟨⟨e, he⟩, hno, hfiles⟩ | ⟨path, hopen, hr, hfiles⟩
  · exact Or.inl ⟨⟨e, by rw [he]; rfl⟩, fun h => hno ⟨_, h⟩, hfiles⟩
  · obtain rfl : a.profile = path := Except.ok.inj ((resolve_profile a).symm.trans hopen.resolves)
    refine Or.inr ⟨hopen, ?_, hfiles⟩
    rw [hr]
    split <;> rfl

theorem writeBack_fs (a : Account) (env : RecordEnv) (v : VaultState) : (writeBack a env v).fs = v.fs := by
  unfold writeBack
  have h1 := uploadUserFile_fs a preferencesFile env.first v
  rcases hu : uploadUserFile a preferencesFile env.first v with ⟨v₁, _ | _⟩ <;> rw [hu] at h1
  · exact (uploadUserFile_fs a preferencesFile env.second v₁).trans h1
  · exact h1

/-- What the record of an extraction does to the files, the task does. -/
theorem extractAndRecord_files {toolOwned : String → String → Bool} {a : Account} {env : RecordEnv} {v : VaultState}
    {pref : MemoryExtraction} (h : recordable toolOwned env = some pref) :
    (extractAndRecordPreference toolOwned a env v).1.fs = (recordPreference env.fault v.fs a pref).2 ∧
      (extractAndRecordPreference toolOwned a env v).2 = (recordPreference env.fault v.fs a pref).1.toOption := by
  unfold extractAndRecordPreference
  rw [h]
  dsimp only
  rcases recordPreference env.fault v.fs a pref with ⟨e | line, fs⟩
  · exact ⟨rfl, rfl⟩
  · exact ⟨writeBack_fs a env { v with fs }, rfl⟩

/-- The task records nothing and changes no file, or it writes the profile of its
    extraction, whole or up to a fault. -/
theorem task_cases (toolOwned : String → String → Bool) (a : Account) (env : RecordEnv) (v : VaultState) :
    ((∀ pref, recordable toolOwned env = some pref → ¬ Opens v.fs a preferencesFile a.profile) ∧
        (extractAndRecordPreference toolOwned a env v).2 = none ∧
        ∀ q, (extractAndRecordPreference toolOwned a env v).1.fs.fileAt q = v.fs.fileAt q) ∨
    ∃ pref, recordable toolOwned env = some pref ∧ Opens v.fs a preferencesFile a.profile ∧
      (extractAndRecordPreference toolOwned a env v).2 = (if env.fault = none then some (bullet pref) else none) ∧
      ∀ q, (extractAndRecordPreference toolOwned a env v).1.fs.fileAt q =
        if q = a.profile then
          some (env.fault.getD (profileText (keptBullets pref (existingProfile v.fs a) ++ [(bullet pref).toList])).toUTF8)
        else v.fs.fileAt q := by
  cases hpref : recordable toolOwned env with
  | none =>
    have hsame : extractAndRecordPreference toolOwned a env v = (v, none) := by
      unfold extractAndRecordPreference
      rw [hpref]
    refine Or.inl ⟨fun pref h => (by cases h), ?_, fun q => ?_⟩
    · rw [hsame]
    · rw [hsame]
  | some pref =>
    obtain ⟨hfs, hline⟩ := extractAndRecord_files (a := a) (v := v) hpref
    rw [hfs, hline]
    rcases record_cases env.fault v.fs a pref with ⟨⟨e, he⟩, hno, hfiles⟩ | ⟨hopen, hr, hfiles⟩
    · exact Or.inl ⟨fun _ _ => hno, by rw [he]; rfl, hfiles⟩
    · refine Or.inr ⟨pref, rfl, hopen, ?_, hfiles⟩
      rw [hr]
      split <;> rfl

/-! ## The profile, line by line -/

def linesOf (data : ByteArray) : List (List Char) :=
  match readText data with
  | some text => splitlines [] text.toList
  | none => []

theorem linesOf_noBreak {data : ByteArray} {l : List Char} (h : l ∈ linesOf data) : NoBreak l := by
  unfold linesOf at h
  split at h
  · exact splitlines_noBreak (by intro c hc; cases hc) l h
  · cases h

/-- The profile of bullets without a line break is read back line by line. -/
theorem linesOf_profileText {bullets : List (List Char)} (hne : bullets ≠ []) (h : ∀ b ∈ bullets, NoBreak b) :
    linesOf (profileText bullets).toUTF8 = "# User Preferences".toList :: [] :: bullets := by
  have htext : (profileText bullets).toList = unlines ("# User Preferences".toList :: [] :: bullets) := by
    unfold profileText
    rw [String.toList_ofList, join_newline bullets hne]
    simp only [unlines, List.flatMap_cons, ← List.append_assoc]
    rfl
  have hbreak : ∀ l ∈ "# User Preferences".toList :: [] :: bullets, NoBreak l := by
    intro l hl
    rcases List.mem_cons.mp hl with rfl | hl
    · exact noBreak_of_all (by decide)
    · rcases List.mem_cons.mp hl with rfl | hl
      · intro c hc; cases hc
      · exact h l hl
  have hret : '\r' ∉ (profileText bullets).toList := by
    rw [htext]
    intro hr
    obtain ⟨l, hl, hc⟩ := List.mem_flatMap.mp hr
    rcases List.mem_append.mp hc with hc | hc
    · have := hbreak l hl '\r' hc
      simp [isLineBreak] at this
    · simp at hc
  unfold linesOf
  rw [readText_toUTF8_eq_self_iff.mpr hret]
  show splitlines [] (profileText bullets).toList = _
  rw [htext]
  exact splitlines_unlines hbreak

end CoreHeartbeat.Vault
