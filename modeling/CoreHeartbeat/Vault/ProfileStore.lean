/-
  CoreHeartbeat.Vault.ProfileStore — the preference profile as a keyed store.

  A record parses the profile, drops the bullets that start with its own key's text and appends
  its own. A bullet is a type, a key, a value and a confidence on one line; the text of a key
  ends at the first colon the reader finds, which may be a colon of another key or value:
  "editor" drops the bullets of "editor: terminal".

  The store that is meant is `Lib.Keyed`'s: one value for each pair of type and key, the last
  one recorded. The extractions have single lines as their texts (`LinePreference`), since a
  line break is another matter (`Preferences`); their keys and values are arbitrary otherwise,
  and a record may raise, which records nothing.

  Proved:
  - `recorded_step`: a record that writes replaces the bullets its key's text starts.
  - `step_keyed_iff`: one record keeps the rendering just when its key's text starts no bullet
    of another live pair (`TakesOwnOnly`).
  - `profile_keyed_iff`: the profile holds exactly the last bullet of each recorded pair in just
    the runs where that is so of every record (`profile_keyed_iff_nested`).
  - `a_key_takes_the_bullet_of_a_longer_one`: the second record drops the bullet of the first.
-/

import CoreHeartbeat.Lib.Keyed
import CoreHeartbeat.Vault.Preferences

namespace CoreHeartbeat.Vault

open Posix PyText

/-- An extraction whose texts are single lines. -/
structure LinePreference extends MemoryExtraction where
  keyLine : NoBreak keyInsight.toList
  valueLine : NoBreak value.toList

/-- A user's files, and what was recorded so far. -/
structure Recorded where
  fs : Tree
  prefs : List LinePreference

variable (a : Account)

/-- One call of `_record_preference`; a call that raises records nothing. -/
def Recorded.step (s : Recorded) (pref : LinePreference) : Recorded × Except VaultError String :=
  match recordPreference none s.fs a pref.toMemoryExtraction with
  | (.ok line, fs) => (⟨fs, s.prefs ++ [pref]⟩, .ok line)
  | (.error e, fs) => (⟨fs, s.prefs⟩, .error e)

def profileBullets (fs : Tree) : List (List Char) :=
  ((match fs.fileAt a.profile with
    | some data => linesOf data
    | none => []).filter fun b => "- ".toList.isPrefixOf b)

def LinePreference.pair (pref : LinePreference) : PreferenceType × String := pref.toMemoryExtraction.key

def LinePreference.line (pref : LinePreference) : List Char := (bullet pref.toMemoryExtraction).toList

/-- The last extraction of every recorded pair. -/
def Recorded.live (s : Recorded) : List LinePreference := Keyed.upserts LinePreference.pair s.prefs

/-- One extraction for each recorded pair, the last of it. -/
theorem Recorded.live_spec (s : Recorded) :
    (s.live.map LinePreference.pair).Nodup ∧
      ∀ pref, pref ∈ s.live ↔ ∃ l m, s.prefs = l ++ pref :: m ∧ ∀ later ∈ m, later.pair ≠ pref.pair :=
  ⟨Keyed.keys_nodup _ _, fun _ => Keyed.mem_upserts_iff _⟩

/-- The profile has exactly one bullet for each recorded pair, with its last value and
    confidence. -/
def KeyedProfile (s : Recorded) : Prop := (profileBullets a s.fs).Perm (s.live.map LinePreference.line)

/-- If the profile can be written, the key's text starts no bullet of another live pair. -/
def TakesOwnOnly (s : Recorded) (pref : LinePreference) : Prop :=
  Opens s.fs a preferencesFile a.profile →
    ∀ other ∈ s.live, other.pair ≠ pref.pair → ¬ (keyPrefix pref.toMemoryExtraction).toList <+: other.line

/-! ## Bullets are lines -/

theorem noBreak_append {s t : String} (hs : NoBreak s.toList) (ht : NoBreak t.toList) : NoBreak (s ++ t).toList := by
  rw [String.toList_append]
  intro c hc
  rcases List.mem_append.mp hc with hc | hc
  · exact hs c hc
  · exact ht c hc

theorem noBreak_toString (n : Nat) : NoBreak (toString n).toList := by
  intro c hc
  have hdigit : c.isDigit = true := by
    rw [Nat.toString_eq_ofList_toDigits, String.toList_ofList] at hc
    exact Nat.isDigit_of_mem_toDigits (by decide) (by decide) hc
  exact isLineBreak_of_isDigit hdigit

theorem noBreak_twoDecimals (q : ℚ) : NoBreak (twoDecimals q).toList :=
  noBreak_append (noBreak_append (noBreak_append (noBreak_toString _) (noBreak_of_all (by decide))) (noBreak_toString _))
    (noBreak_toString _)

theorem LinePreference.line_noBreak (pref : LinePreference) : NoBreak pref.line := by
  have htype : NoBreak pref.preferenceType.str.toList := by
    cases pref.preferenceType <;> exact noBreak_of_all (by decide)
  have hkey : NoBreak (keyPrefix pref.toMemoryExtraction).toList :=
    noBreak_append (noBreak_append (noBreak_append (noBreak_append (noBreak_of_all (by decide)) htype)
      (noBreak_of_all (by decide))) pref.keyLine) (noBreak_of_all (by decide))
  exact noBreak_append (noBreak_append (noBreak_append (noBreak_append (noBreak_append hkey (noBreak_of_all (by decide)))
    pref.valueLine) (noBreak_of_all (by decide))) (noBreak_twoDecimals _)) (noBreak_of_all (by decide))

theorem LinePreference.line_dash (pref : LinePreference) : "- ".toList.isPrefixOf pref.line = true :=
  List.isPrefixOf_iff_prefix.mpr (bullet_dash pref.toMemoryExtraction)

/-- A pair's bullet starts with the pair's own text. -/
theorem keyPrefix_line {pref other : LinePreference} (h : other.pair = pref.pair) :
    (keyPrefix pref.toMemoryExtraction).toList.isPrefixOf other.line = true := by
  have hbullet : keyPrefix pref.toMemoryExtraction = keyPrefix other.toMemoryExtraction := by
    obtain ⟨htype, hkey⟩ := Prod.mk.inj h
    unfold keyPrefix
    rw [htype, hkey]
  rw [hbullet, List.isPrefixOf_iff_prefix, LinePreference.line, bullet]
  simp only [String.toList_append, List.append_assoc]
  exact List.prefix_append _ _

/-! ## One record -/

theorem existing_lines (fs : Tree) :
    ((splitlines [] (existingProfile fs a).toList).filter fun b => "- ".toList.isPrefixOf b) = profileBullets a fs := by
  unfold profileBullets existingProfile
  congr 1
  cases hfile : fs.fileAt a.profile with
  | none =>
    cases hread : readNote fs a preferencesFile with
    | error e => rfl
    | ok text =>
      obtain ⟨data, hdata, -⟩ := (readNote_ok_iff (resolve_profile a)).mp hread
      rw [hfile] at hdata; cases hdata
  | some data =>
    rw [readNote_of_file (resolve_profile a) hfile]
    cases hread : readText data with
    | none => simp [linesOf, hread, splitlines]
    | some text => simp [linesOf, hread]

theorem Recorded.step_ok {s : Recorded} {pref : LinePreference} {line : String}
    (h : (recordPreference none s.fs a pref.toMemoryExtraction).1 = .ok line) :
    (s.step a pref).1 = ⟨(recordPreference none s.fs a pref.toMemoryExtraction).2, s.prefs ++ [pref]⟩ := by
  unfold Recorded.step
  split <;> rename_i hrec
  · rw [hrec]
  · rw [hrec] at h; cases h

theorem Recorded.step_error {s : Recorded} {pref : LinePreference} {e : VaultError}
    (h : (recordPreference none s.fs a pref.toMemoryExtraction).1 = .error e) :
    (s.step a pref).1 = ⟨(recordPreference none s.fs a pref.toMemoryExtraction).2, s.prefs⟩ := by
  unfold Recorded.step
  split <;> rename_i hrec
  · rw [hrec] at h; cases h
  · rw [hrec]

/-- The bullets of a profile that was written are those it was written from. -/
theorem profileBullets_written {fs : Tree} {bullets : List (List Char)} (hne : bullets ≠ [])
    (hbreak : ∀ b ∈ bullets, NoBreak b) (hdash : ∀ b ∈ bullets, "- ".toList.isPrefixOf b = true)
    (hfile : fs.fileAt a.profile = some (profileText bullets).toUTF8) :
    profileBullets a fs = bullets := by
  have hhead : ¬ "- ".toList.isPrefixOf "# User Preferences".toList = true := by decide
  have hblank : ¬ "- ".toList.isPrefixOf [] = true := by decide
  unfold profileBullets
  rw [hfile]
  refine (congrArg _ (linesOf_profileText hne hbreak)).trans ?_
  rw [List.filter_cons_of_neg hhead, List.filter_cons_of_neg hblank, List.filter_eq_self]
  exact hdash


/-- A record that writes replaces the bullets its key's text starts. -/
theorem recorded_step (s : Recorded) (pref : LinePreference) :
    (¬ Opens s.fs a preferencesFile a.profile ∧ (s.step a pref).1.prefs = s.prefs ∧
      profileBullets a (s.step a pref).1.fs = profileBullets a s.fs) ∨
    (Opens s.fs a preferencesFile a.profile ∧ (s.step a pref).1.prefs = s.prefs ++ [pref] ∧
      profileBullets a (s.step a pref).1.fs =
        (profileBullets a s.fs).filter (fun b => !(keyPrefix pref.toMemoryExtraction).toList.isPrefixOf b) ++
          [pref.line]) := by
  rcases record_cases none s.fs a pref.toMemoryExtraction with ⟨⟨e, he⟩, hno, hfiles⟩ | ⟨hopen, hr, hfiles⟩
  · rw [Recorded.step_error a he]
    refine Or.inl ⟨hno, rfl, ?_⟩
    rw [profileBullets, hfiles]
    rfl
  · rw [Recorded.step_ok a hr]
    refine Or.inr ⟨hopen, rfl, ?_⟩
    have hkept : keptBullets pref.toMemoryExtraction (existingProfile s.fs a) =
        (profileBullets a s.fs).filter fun b => !(keyPrefix pref.toMemoryExtraction).toList.isPrefixOf b := by
      rw [← existing_lines]; rfl
    have hfile : (recordPreference none s.fs a pref.toMemoryExtraction).2.fileAt a.profile = some
        (profileText (keptBullets pref.toMemoryExtraction (existingProfile s.fs a) ++ [pref.line])).toUTF8 := by
      rw [hfiles, if_pos rfl]; rfl
    rw [← hkept]
    refine profileBullets_written a (by simp) (fun b hb => ?_) (fun b hb => ?_) hfile
    · rcases List.mem_append.mp hb with hb | hb
      · exact keptBullets_noBreak _ _ b hb
      · rw [List.mem_singleton.mp hb]; exact pref.line_noBreak
    · rcases List.mem_append.mp hb with hb | hb
      · rw [hkept] at hb
        exact (List.mem_filter.mp (List.mem_filter.mp hb).1).2
      · rw [List.mem_singleton.mp hb]; exact pref.line_dash

theorem step_keyed_iff (s : Recorded) (pref : LinePreference) (h : KeyedProfile a s) :
    KeyedProfile a (s.step a pref).1 ↔ TakesOwnOnly a s pref := by
  rcases recorded_step a s pref with ⟨hno, hprefs, hbullets⟩ | ⟨hopen, hprefs, hbullets⟩
  · refine iff_of_true ?_ fun hopen => absurd hopen hno
    unfold KeyedProfile Recorded.live
    rw [hprefs, hbullets]
    exact h
  · have hown : ∀ other ∈ s.live, other.pair = pref.pair →
        (keyPrefix pref.toMemoryExtraction).toList.isPrefixOf other.line = true := fun _ _ => keyPrefix_line
    have hreplace := Keyed.replace_perm_iff LinePreference.pair hown h
    unfold KeyedProfile
    rw [hbullets, Recorded.live, hprefs, Keyed.upserts_snoc]
    refine hreplace.trans ?_
    simp only [TakesOwnOnly, hopen, true_imp_iff, ← List.isPrefixOf_iff_prefix, Bool.not_eq_true]

/-! ## Whole runs -/

/-- From a profile without bullets, over every sequence of one-line extractions: after each
    record the profile has exactly the last bullet of every recorded pair, if and only if no
    record takes the bullet of another pair for its own. -/
theorem profile_keyed_iff (fs : Tree) (hempty : profileBullets a fs = []) (prefs : List LinePreference) :
    (∀ l m, prefs = l ++ m → KeyedProfile a (Machine.final (Recorded.step a) ⟨fs, []⟩ l)) ↔
      Machine.Meets (Recorded.step a) (TakesOwnOnly a) ⟨fs, []⟩ prefs := by
  have h0 : KeyedProfile a ⟨fs, []⟩ := by
    unfold KeyedProfile
    rw [hempty]
    exact List.Perm.refl _
  exact Machine.always_iff_meets (I := fun _ => True) (fun _ _ _ => trivial)
    (fun s pref _ h => step_keyed_iff a s pref h) trivial h0 prefs

def toolSetting (key value : String) (hkey : NoBreak key.toList) (hvalue : NoBreak value.toList) : LinePreference :=
  ⟨{ vim with preferenceType := .toolSetting, keyInsight := key, value }, hkey, hvalue⟩

/-- A setting of the terminal's editor, then one of the editor. -/
def nestedKeys : List LinePreference :=
  [toolSetting "editor: terminal" "vim" (noBreak_of_all (by decide)) (noBreak_of_all (by decide)),
    toolSetting "editor" "zed" (noBreak_of_all (by decide)) (noBreak_of_all (by decide))]

theorem profile_keyed_iff_nested :
    (∀ l m, nestedKeys = l ++ m → KeyedProfile someUser (Machine.final (Recorded.step someUser) ⟨emptyTree, []⟩ l)) ↔
      Machine.Meets (Recorded.step someUser) (TakesOwnOnly someUser) ⟨emptyTree, []⟩ nestedKeys :=
  profile_keyed_iff someUser emptyTree (by decide +kernel) nestedKeys

/-- The second record drops the bullet of the first. -/
theorem a_key_takes_the_bullet_of_a_longer_one :
    ¬ ∀ l m, nestedKeys = l ++ m → KeyedProfile someUser (Machine.final (Recorded.step someUser) ⟨emptyTree, []⟩ l) := by
  intro h
  have hcount := (h nestedKeys [] (List.append_nil _).symm).length_eq
  revert hcount
  decide +kernel

end CoreHeartbeat.Vault
