/-
  CoreHeartbeat.Vault.SyncPaths — where the download loop of `_sync_from_s3` writes, for any
  user id and any keys.

  The part of a key after `<user_id>/` is joined onto the user's directory as it stands, and
  `os.path.join` does not look at what it joins: dots and double dots lead where they lead, and
  an absolute part replaces the base. No containment is checked. The bucket is written by more
  than one party, and its keys are texts without a rule.

  The loop runs on any tree that the reset of the directory leaves, over any listing, with any
  downloads that fail; a folder is made for each file first, and where it cannot be made the
  loop raises and ends. For the accounts of `StorageSync` it is the loop there. A path lies
  inside when it is strictly below the directory once it is resolved; the condition is on the
  components of the key alone (`Posix.LeadsBelow`).

  Proved:
  - `mem_outs_iff`: the paths of a run are those of the keys that get to their download.
  - `downloads_inside_iff`: the paths handed to `download_file` all lie strictly inside the
    directory in exactly the runs where each key that gets so far leads below it.
  - `landed_mem_loop`, `landing_inside`: the loop of an account's sync, and where its notes
    land.
  - `a_key_climbs_out`: a key with the user's prefix puts a note into another user's directory.
-/

import CoreHeartbeat.Vault.StorageSync
import CoreHeartbeat.Lib.Machine

namespace CoreHeartbeat.Vault

open Posix

structure ListedObject where
  key : String
  data : ByteArray
  /-- `download_file` returns. -/
  arrives : Bool

variable (dest : Path) (userId : String)

/-- `key[len(prefix):]` of a key with the prefix. -/
def relOf (key : String) : String :=
  if (userId ++ "/").toList.isPrefixOf key.toList then String.ofList (key.toList.drop (userId ++ "/").toList.length)
  else key

def isNote (key : String) : Bool := vaultSuffix.toList.isSuffixOf key.toList && relOf userId key != ""

/-- The loop over the keys: the tree, and whether it has raised. -/
structure Loop where
  fs : Tree
  raised : Bool := false

/-- `os.makedirs(os.path.dirname(local_path), exist_ok=True)`. -/
def makeFolder (fs : Tree) (rel : String) : Tree × Option Path :=
  if '\x00' ∈ rel.toList then (fs, none)
  else fs.makedirs (if rel.toList.head? = some '/' then [] else dest) (components rel).dropLast

/-- One key, and where `download_file` is told to put it. -/
def loopStep (l : Loop) (o : ListedObject) : Loop × Option Path :=
  if l.raised || !isNote userId o.key then (l, none)
  else
    let rel := relOf userId o.key
    match makeFolder dest l.fs rel with
    | (fs, none) => (⟨fs, true⟩, none)
    | (fs, some dir) =>
      (if !o.arrives then ⟨fs, true⟩
        else
          match fs.put ((components rel).getLastD "") dir o.data with
          | none => ⟨fs, true⟩
          | some fs => ⟨fs, false⟩,
        some (realpathJoin dest rel))

def Downloads (l : Loop) (o : ListedObject) : Prop :=
  l.raised = false ∧ isNote userId o.key = true ∧ (makeFolder dest l.fs (relOf userId o.key)).2.isSome = true

/-- What the step hands to `download_file`. -/
theorem loopStep_out (l : Loop) (o : ListedObject) (p : Path) :
    (loopStep dest userId l o).2 = some p ↔ Downloads dest userId l o ∧ p = realpathJoin dest (relOf userId o.key) := by
  unfold loopStep Downloads
  by_cases hskip : (l.raised || !isNote userId o.key) = true
  · rw [if_pos hskip]
    refine iff_of_false nofun fun h => ?_
    simp [h.1.1, h.1.2.1] at hskip
  · rw [if_neg hskip]
    simp only [Bool.or_eq_true, Bool.not_eq_true', not_or, Bool.not_eq_true, Bool.not_eq_false] at hskip
    rcases hmk : makeFolder dest l.fs (relOf userId o.key) with ⟨fs, _ | dir⟩
    · exact iff_of_false (by simp only [hmk]; exact nofun) fun h => by simpa using h.1.2.2
    · simp only [hmk, Option.some.injEq, hskip.1, hskip.2, Option.isSome_some, true_and]
      exact eq_comm

/-- The paths of a run of the loop are those of the keys that get to their download. -/
theorem mem_outs_iff (fs : Tree) (objects : List ListedObject) (p : Path) :
    some p ∈ Machine.outs (loopStep dest userId) ⟨fs, false⟩ objects ↔
      ∃ ev ∈ Machine.trace (loopStep dest userId) ⟨fs, false⟩ objects,
        Downloads dest userId ev.pre ev.op ∧ p = realpathJoin dest (relOf userId ev.op.key) := by
  unfold Machine.outs
  rw [List.mem_map]
  refine exists_congr fun ev => and_congr_right fun hev => ?_
  rw [Machine.out_of_trace _ hev]
  exact loopStep_out dest userId ev.pre ev.op p

/-- Every path that a run of the loop downloads to lies strictly inside the directory just
    when every key that gets to its download leads below it. -/
theorem downloads_inside_iff (fs : Tree) (objects : List ListedObject) :
    (∀ p, some p ∈ Machine.outs (loopStep dest userId) ⟨fs, false⟩ objects → dest <:+ p ∧ dest ≠ p) ↔
      Machine.Meets (loopStep dest userId)
        (fun l o => Downloads dest userId l o → LeadsBelow dest (relOf userId o.key)) ⟨fs, false⟩ objects := by
  constructor
  · intro hall ev hev hdown
    rw [leadsBelow_iff]
    exact hall _ ((mem_outs_iff dest userId fs objects _).mpr ⟨ev, hev, hdown, rfl⟩)
  · intro hmeets p hp
    obtain ⟨ev, hev, hdown, rfl⟩ := (mem_outs_iff dest userId fs objects p).mp hp
    exact (leadsBelow_iff dest _).mp (hmeets ev hev hdown)

/-- A note's relative part ends as a note's name does. -/
theorem relOf_note {key : String} (hstart : (userId ++ "/").toList <+: key.toList) (hnote : isNote userId key = true) :
    vaultSuffix.toList <:+ (relOf userId key).toList := by
  obtain ⟨rel, hkey⟩ := hstart
  simp only [isNote, Bool.and_eq_true, List.isSuffixOf_iff_suffix] at hnote
  have hrel : (relOf userId key).toList = rel := by
    rw [relOf, if_pos (List.isPrefixOf_iff_prefix.mpr ⟨rel, hkey⟩), String.toList_ofList, ← hkey]
    simp
  have hslash : key.toList = userId.toList ++ '/' :: rel := by simp [← hkey]
  rw [hrel]
  exact suffix_of_slash (by decide) (hslash ▸ hnote.1)

theorem plainName_note {name : String} (hslash : '/' ∉ name.toList) (hsuffix : vaultSuffix.toList <:+ name.toList) :
    PlainName name := by
  have hlen : 3 ≤ name.toList.length := hsuffix.length_le
  refine ⟨hslash, ?_, ?_, ?_⟩ <;> intro h <;> rw [h] at hlen <;> exact absurd hlen (by decide)

theorem getLastD_components (path : String) : '/' ∉ ((components path).getLastD "").toList := by
  cases h : (components path).getLast? with
  | none => simp [List.getLastD_eq_getLast?, h]
  | some name =>
    rw [List.getLastD_eq_getLast?, h]
    exact components_noSlash (List.mem_of_getLast? h)

/-- The file that is put for a note is the one `download_file` was told to. -/
theorem target_eq {fs fs' : Tree} {key : String} {dir : Path} (hstart : (userId ++ "/").toList <+: key.toList)
    (hnote : isNote userId key = true) (hmk : makeFolder dest fs (relOf userId key) = (fs', some dir)) :
    (components (relOf userId key)).getLastD "" :: dir = realpathJoin dest (relOf userId key) := by
  have hlast := getLast_components (by decide) (relOf_note userId hstart hnote)
  refine realpathJoin_file (plainName_note (getLastD_components _) hlast) ?_
  unfold makeFolder at hmk
  split at hmk
  · cases hmk
  · exact makedirs_normalize hmk

/-! ## The loop of an account -/

/-- A key of the listing as `downloadAll` takes it. -/
def incoming (o : ListedObject) : Option Incoming :=
  if isNote userId o.key then some ⟨relOf userId o.key, o.data, o.arrives⟩ else none

theorem loop_raised (objects : List ListedObject) (fs : Tree) :
    Machine.final (loopStep dest userId) ⟨fs, true⟩ objects = ⟨fs, true⟩ := by
  induction objects with
  | nil => rfl
  | cons o objects ih => exact ih

theorem downloadFile_eq (a : Account) (fs : Tree) (f : Incoming) :
    downloadFile a fs f =
      match makeFolder a.dest fs f.rel with
      | (fs, none) => (fs, none)
      | (fs, some dir) =>
        if !f.arrives then (fs, none)
        else
          match fs.put ((components f.rel).getLastD "") dir f.data with
          | none => (fs, none)
          | some fs => (fs, some ((components f.rel).getLastD "" :: dir)) := by
  unfold downloadFile makeFolder
  split <;> rfl

/-- For an account the loop is that of its sync: it ends in the same tree, raises alike, and
    what lands was handed to `download_file`. -/
theorem landed_mem_loop (a : Account) (fs : Tree) (objects : List ListedObject)
    (hkeys : ∀ o ∈ objects, a.prefixKey.toList <+: o.key.toList) :
    let done := downloadAll a (objects.filterMap (incoming a.user)) fs
    Machine.final (loopStep a.dest a.user) ⟨fs, false⟩ objects = ⟨done.1, !done.2.2⟩ ∧
      ∀ x ∈ done.2.1, some x.1 ∈ Machine.outs (loopStep a.dest a.user) ⟨fs, false⟩ objects := by
  induction objects generalizing fs with
  | nil => exact ⟨rfl, fun x hx => by cases hx⟩
  | cons o objects ih =>
    have ih := fun fs => ih fs fun o' ho' => hkeys o' (List.mem_cons_of_mem o ho')
    by_cases hnote : isNote a.user o.key = true
    · rw [List.filterMap_cons_some (show incoming a.user o = some ⟨relOf a.user o.key, o.data, o.arrives⟩ by
        simp [incoming, hnote])]
      simp only [downloadAll, downloadFile_eq, Machine.final_cons, Machine.outs_cons, loopStep, hnote, Bool.not_true,
        Bool.or_self, Bool.false_eq_true, if_false]
      rcases hmk : makeFolder a.dest fs (relOf a.user o.key) with ⟨fs₁, _ | dir⟩
      · exact ⟨loop_raised _ _ _ _, fun x hx => by cases hx⟩
      · have htarget := target_eq a.dest a.user (hkeys o List.mem_cons_self) hnote hmk
        cases harr : o.arrives with
        | false =>
          simp only [Bool.not_false, if_true]
          exact ⟨loop_raised _ _ _ _, fun x hx => by cases hx⟩
        | true =>
          simp only [Bool.not_true, Bool.false_eq_true, if_false]
          cases hput : fs₁.put ((components (relOf a.user o.key)).getLastD "") dir o.data with
          | none => exact ⟨loop_raised _ _ _ _, fun x hx => by cases hx⟩
          | some fs₂ =>
            obtain ⟨hfinal, hlanded⟩ := ih fs₂
            refine ⟨hfinal, fun x hx => ?_⟩
            rcases List.mem_cons.mp hx with rfl | hx
            · rw [htarget]; exact List.mem_cons_self
            · exact List.mem_cons_of_mem _ (hlanded x hx)
    · rw [List.filterMap_cons_none (show incoming a.user o = none by simp [incoming, hnote])]
      have hstep : loopStep a.dest a.user ⟨fs, false⟩ o = (⟨fs, false⟩, none) := by simp [loopStep, hnote]
      simp only [Machine.final_cons, Machine.outs_cons, hstep]
      obtain ⟨hfinal, hlanded⟩ := ih fs
      exact ⟨hfinal, fun x hx => List.mem_cons_of_mem _ (hlanded x hx)⟩

def listedObjects (a : Account) (env : SyncEnv) (b : Bucket) : List ListedObject :=
  (listed a b).map fun (key, o) => ⟨key, o.data, env.fetched key⟩

theorem listedObjects_start (a : Account) (env : SyncEnv) (b : Bucket) :
    ∀ o ∈ listedObjects a env b, a.prefixKey.toList <+: o.key.toList := by
  intro o ho
  obtain ⟨x, hx, rfl⟩ := List.mem_map.mp ho
  exact List.isPrefixOf_iff_prefix.mp (List.mem_filter.mp hx).2

theorem listedNotes_eq (a : Account) (env : SyncEnv) (b : Bucket) :
    listedNotes a env b = (listedObjects a env b).filterMap (incoming a.user) := by
  unfold listedNotes listedObjects
  rw [List.filterMap_map]
  refine List.filterMap_congr fun x hx => ?_
  have hstart : (a.user ++ "/").toList.isPrefixOf x.1.toList = true := (List.mem_filter.mp hx).2
  have hrel : relOf a.user x.1 = String.ofList (x.1.toList.drop a.prefixKey.toList.length) := by
    rw [relOf, if_pos hstart]
    rfl
  simp only [Function.comp_apply, incoming, isNote, hrel]
  by_cases hsuffix : vaultSuffix.toList.isSuffixOf x.1.toList = true <;>
    by_cases hempty : String.ofList (x.1.toList.drop a.prefixKey.toList.length) = "" <;>
      simp [hsuffix, hempty]

/-- A sync of an account whose notes all lead below its directory puts nothing elsewhere. -/
theorem landing_inside {a : Account} {env : SyncEnv} {v : VaultState} (hreal : a.user ≠ sandboxUserId)
    (hkeys : ∀ o ∈ listedObjects a env v.bucket, LeadsBelow a.dest (relOf a.user o.key)) :
    ∀ x ∈ landing a env v, a.dest <:+ x.1 ∧ a.dest ≠ x.1 := by
  intro x hx
  have hloop := (landed_mem_loop a (resetDest a v.fs).1 _ (listedObjects_start a env v.bucket)).2
  rw [← listedNotes_eq] at hloop
  simp only [landing, if_neg hreal] at hx
  obtain ⟨ev, hev, -, hpath⟩ := (mem_outs_iff a.dest a.user _ _ x.1).mp (hloop x hx)
  rw [hpath]
  exact (leadsBelow_iff a.dest _).mp (hkeys ev.op (Machine.op_mem_of_trace _ hev))

def freshVault : Tree := (emptyTree.makedirs [] ["tmp", "vaults", "u1"]).1

/-- A key with the user's prefix puts a note into another user's directory. -/
theorem a_key_climbs_out :
    "u1/".toList <+: "u1/../u2/plan.md".toList ∧
      some ["plan.md", "u2", "vaults", "tmp"] ∈
        Machine.outs (loopStep someUser.dest someUser.user) ⟨freshVault, false⟩ [⟨"u1/../u2/plan.md", .empty, true⟩] ∧
      ¬ someUser.dest <:+ ["plan.md", "u2", "vaults", "tmp"] := by
  decide +kernel

end CoreHeartbeat.Vault
