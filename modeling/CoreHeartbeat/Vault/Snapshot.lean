/-
  CoreHeartbeat.Vault.Snapshot — call after call of `_sync_from_s3` for one user, between which
  the bucket changes at will and in which any download can fail.

  `_vault_etags` is written by a complete sync of a listing that shows something; the directory
  is wiped by every sync that is not skipped. So the cached listing can be one that the
  directory no longer holds: a sync of an empty listing wipes the directory and leaves the
  cache, and a sync that fails half-way does too.

  A call that returns promises a snapshot: the notes of its listing, all of them and no others,
  on their paths. Every listed object has an entity tag, and the tag settles the content, so
  that equal listings are equal buckets. The process remembers the last wipe (`Wipe`), which the
  program does not; the condition on a skip is about it.

  Proved:
  - `landed_eq`: a download that comes to its end has put each note where its key leads.
  - `wiped_snapshot`: it left a snapshot just when its notes are well placed.
  - `snapshots_iff`: every call that returns leaves the notes of its listing, all of them and no
    others, if and only if each listing that is downloaded to its end has notes that lead into
    the directory, those on one path alike, and each skip comes after the sync whose listing it
    finds, with no other wipe in between, or after one that left the same notes.
  - `an_empty_listing_then_a_skip`: one note, then none, then the one again; the last call is
    skipped, and returns without it.
-/

import CoreHeartbeat.Vault.SyncPaths

namespace CoreHeartbeat.Vault

open Posix Machine

/-- What a call finds in the bucket: every listed object has an entity tag, and the tag
    settles the content. -/
structure Remote (contentOf : String → ByteArray) (a : Account) where
  bucket : Bucket
  env : SyncEnv
  tagged : ∀ x ∈ listed a bucket, ∃ e, x.2.etag = some e ∧ e ≠ "" ∧ x.2.data = contentOf e

/-- The last sync that wiped the directory: what it downloaded, and whether its listing was
    kept. -/
structure Wipe where
  landed : Landed
  recorded : Bool

structure Process where
  vault : VaultState
  last : Option Wipe

/-- A process starts with nothing cached, on whatever files there are. -/
def Process.start (fs : Tree) : Process := ⟨{ emptyVault with fs }, none⟩

def Synced.returned : Synced → Bool
  | .failed => false
  | .skipped => true
  | .wiped _ complete => complete

variable {contentOf : String → ByteArray} (a : Account)

/-- The bucket is now another, and `_sync_from_s3` is called. -/
def syncStep (s : Process) (r : Remote contentOf a) : Process × Synced :=
  let (v, out) := syncFromS3 a r.env { s.vault with bucket := r.bucket }
  (⟨v, match out with
    | .wiped landed complete => some ⟨landed, complete && etagsAvailable (listing a r.bucket)⟩
    | _ => s.last⟩, out)

/-! ## Snapshots -/

/-- The notes of a bucket: where each one's key leads, and its content. -/
def notesOf (b : Bucket) : Landed :=
  (listed a b).filterMap fun (key, o) =>
    if isNote a.user key then some (realpathJoin a.dest (relOf a.user key), o.data) else none

def NoteName (q : Path) : Prop := vaultSuffix.toList <:+ (q.headD "").toList

/-- The notes below the directory, the profile aside, are these and no others. -/
def Snapshot (files : Path → Option ByteArray) (notes : Landed) : Prop :=
  ∀ q data, q ≠ a.profile → ((a.dest <:+ q ∧ NoteName q ∧ files q = some data) ↔ (q, data) ∈ notes)

/-- The notes lead into the directory, and those on one path are alike. -/
def WellPlaced (notes : Landed) : Prop :=
  ∀ x ∈ notes, x.1 ≠ a.profile → a.dest <:+ x.1 ∧ ∀ y ∈ notes, y.1 = x.1 → y.2 = x.2

/-- The call returns, with the notes of its listing in the directory. -/
def LeavesSnapshot (s : Process) (r : Remote contentOf a) : Prop :=
  (syncStep a s r).2.returned = true → Snapshot a (syncStep a s r).1.vault.fs.fileAt (notesOf a r.bucket)

/-- A download to the end is of well placed notes; a skip finds the listing of the last wipe,
    or one of the notes that were downloaded in it. -/
def SkipsOwn (s : Process) (r : Remote contentOf a) : Prop :=
  match (syncStep a s r).2 with
  | .failed => True
  | .wiped _ complete => complete = true → WellPlaced a (notesOf a r.bucket)
  | .skipped =>
    ∃ w, s.last = some w ∧ (w.recorded = true ∨ Snapshot a (lastAt w.landed) (notesOf a r.bucket))

/-! ## What a download puts where -/

variable {a}

theorem noteName_target {rel : String} (dest : Path) (hnote : vaultSuffix.toList <:+ rel.toList) :
    NoteName (realpathJoin dest rel) := by
  have hlast := getLast_components (by decide) hnote
  have hplain : PlainName ((components rel).getLastD "") := plainName_note (getLastD_components _) hlast
  unfold NoteName
  rw [← realpathJoin_file hplain rfl]
  exact hlast

theorem downloadFile_path {fs fs' : Tree} {f : Incoming} {path : Path} (hnote : vaultSuffix.toList <:+ f.rel.toList)
    (h : downloadFile a fs f = (fs', some path)) : path = realpathJoin a.dest f.rel := by
  have hlast := getLast_components (by decide) hnote
  have hplain : PlainName ((components f.rel).getLastD "") := plainName_note (getLastD_components _) hlast
  rw [downloadFile_eq] at h
  split at h
  · cases h
  · rename_i fs₁ dir hmk
    split at h
    · cases h
    · split at h
      · cases h
      · obtain rfl : (components f.rel).getLastD "" :: dir = path := by
          simpa using congrArg Prod.snd h
        refine realpathJoin_file hplain ?_
        unfold makeFolder at hmk
        split at hmk
        · cases hmk
        · exact makedirs_normalize hmk

/-- What landed is the notes in their order, and all of them when the loop came to its end. -/
theorem downloadAll_landed {files : List Incoming} {fs fs' : Tree} {landed : Landed}
    (hnotes : ∀ f ∈ files, vaultSuffix.toList <:+ f.rel.toList)
    (h : downloadAll a files fs = (fs', landed, true)) :
    landed = files.map fun f => (realpathJoin a.dest f.rel, f.data) := by
  induction files generalizing fs fs' landed with
  | nil =>
    cases h
    rfl
  | cons f files ih =>
    simp only [downloadAll] at h
    rcases hd : downloadFile a fs f with ⟨fs₁, _ | path⟩
    · rw [hd] at h
      cases h
    · rcases hall : downloadAll a files fs₁ with ⟨fs₂, landed₂, complete₂⟩
      rw [hd] at h
      simp only [hall] at h
      cases h
      rw [List.map_cons, downloadFile_path (hnotes f List.mem_cons_self) hd,
        ih (fun g hg => hnotes g (List.mem_cons_of_mem f hg)) hall]

theorem listedNotes_suffix (a : Account) (env : SyncEnv) (b : Bucket) :
    ∀ f ∈ listedNotes a env b, vaultSuffix.toList <:+ f.rel.toList := by
  intro f hf
  rw [listedNotes_eq] at hf
  obtain ⟨o, ho, hincoming⟩ := List.mem_filterMap.mp hf
  unfold incoming at hincoming
  split at hincoming
  · rename_i hnote
    obtain rfl := Option.some.inj hincoming
    exact relOf_note a.user (listedObjects_start a env b o ho) hnote
  · cases hincoming

theorem listedNotes_map (a : Account) (env : SyncEnv) (b : Bucket) :
    (listedNotes a env b).map (fun f => (realpathJoin a.dest f.rel, f.data)) = notesOf a b := by
  rw [listedNotes_eq]
  unfold listedObjects notesOf
  rw [List.filterMap_map, List.map_filterMap]
  refine List.filterMap_congr fun x _ => ?_
  simp only [Function.comp_apply, incoming]
  split <;> rfl

/-- A download that comes to its end has put each note where its key leads. -/
theorem landed_eq {env : SyncEnv} {b : Bucket} {fs fs' : Tree} {landed : Landed}
    (h : downloadAll a (listedNotes a env b) fs = (fs', landed, true)) : landed = notesOf a b := by
  rw [downloadAll_landed (listedNotes_suffix a env b) h, listedNotes_map]

theorem notesOf_names (a : Account) (b : Bucket) : ∀ x ∈ notesOf a b, NoteName x.1 := by
  intro x hx
  obtain ⟨o, ho, hnote⟩ := List.mem_filterMap.mp hx
  have hstart : a.prefixKey.toList <+: o.1.toList := List.isPrefixOf_iff_prefix.mp (List.mem_filter.mp ho).2
  dsimp only at hnote
  split at hnote
  · rename_i his
    obtain rfl := Option.some.inj hnote
    exact noteName_target a.dest (relOf_note a.user hstart his)
  · cases hnote

/-- Two buckets with one listing have the same notes: the tags settle the contents. -/
theorem notesOf_eq {r r' : Remote contentOf a} (h : listing a r.bucket = listing a r'.bucket) :
    notesOf a r.bucket = notesOf a r'.bucket := by
  have hread : ∀ r : Remote contentOf a, notesOf a r.bucket = (listing a r.bucket).filterMap fun (key, etag) =>
      if isNote a.user key then some (realpathJoin a.dest (relOf a.user key), contentOf (etag.getD "")) else none := by
    intro r
    unfold notesOf listing
    rw [List.filterMap_map]
    refine List.filterMap_congr fun x hx => ?_
    obtain ⟨e, hetag, -, hdata⟩ := r.tagged x hx
    simp only [Function.comp_apply, hetag, hdata, Option.getD_some]
  rw [hread r, hread r', h]

/-! ## Snapshots of what was downloaded -/

theorem mem_of_lastAt {landed : Landed} {q : Path} {data : ByteArray} (h : lastAt landed q = some data) :
    (q, data) ∈ landed := by
  obtain ⟨x, hx, hdata⟩ := Option.map_eq_some_iff.mp h
  have hq : x.1 = q := by simpa using List.find?_some hx
  rw [← hdata, ← hq]
  exact List.mem_reverse.mp (List.mem_of_find?_eq_some hx)

theorem lastAt_of_mem {landed : Landed} {q : Path} {data : ByteArray} (h : (q, data) ∈ landed) :
    ∃ data', lastAt landed q = some data' := by
  have hfound : (landed.reverse.find? (·.1 = q)).isSome = true :=
    List.find?_isSome.mpr ⟨(q, data), List.mem_reverse.mpr h, by simp⟩
  obtain ⟨x, hx⟩ := Option.isSome_iff_exists.mp hfound
  exact ⟨x.2, by unfold lastAt; rw [hx]; rfl⟩

/-- Only the files below the directory, the profile aside, matter to a snapshot. -/
theorem snapshot_congr {files files' : Path → Option ByteArray}
    (h : ∀ q, a.dest <:+ q → q ≠ a.profile → files q = files' q) (notes : Landed) :
    Snapshot a files notes ↔ Snapshot a files' notes := by
  unfold Snapshot
  refine forall_congr' fun q => forall_congr' fun data => forall_congr' fun hq => ?_
  refine iff_congr (and_congr_right fun hbelow => ?_) Iff.rfl
  rw [h q hbelow hq]

/-- Notes downloaded one over the other are all there just when they are well placed. -/
theorem snapshot_lastAt_iff {notes : Landed} (hnames : ∀ x ∈ notes, NoteName x.1) :
    Snapshot a (lastAt notes) notes ↔ WellPlaced a notes := by
  constructor
  · intro h x hx hprofile
    obtain ⟨hbelow, -, hlast⟩ := (h x.1 x.2 hprofile).mpr hx
    refine ⟨hbelow, fun y hy hyx => ?_⟩
    obtain ⟨-, -, hlast'⟩ := (h x.1 y.2 hprofile).mpr (hyx ▸ hy)
    rw [hlast] at hlast'
    exact (Option.some.inj hlast').symm
  · intro h q data hprofile
    constructor
    · intro hthere
      exact mem_of_lastAt hthere.2.2
    · intro hmem
      obtain ⟨hbelow, halike⟩ := h (q, data) hmem hprofile
      obtain ⟨data', hlast⟩ := lastAt_of_mem hmem
      have hsame := halike (q, data') (mem_of_lastAt hlast) rfl
      exact ⟨hbelow, hnames _ hmem, hlast.trans (congrArg some hsame)⟩

/-! ## One call -/

/-- All that a call can do. -/
theorem syncStep_cases (s : Process) (r : Remote contentOf a) :
    ((syncStep a s r).2 = .failed ∧ (∀ q, (syncStep a s r).1.vault.fs.fileAt q = s.vault.fs.fileAt q) ∧
      (syncStep a s r).1.vault.etags = s.vault.etags ∧ (syncStep a s r).1.last = s.last) ∨
    ((syncStep a s r).2 = .skipped ∧ (syncStep a s r).1.vault.fs = s.vault.fs ∧
      (syncStep a s r).1.vault.etags = s.vault.etags ∧ (syncStep a s r).1.last = s.last ∧
      s.vault.etags = some (listing a r.bucket)) ∨
    ∃ landed complete, (syncStep a s r).2 = .wiped landed complete ∧
      (∀ q, a.dest <:+ q → q ≠ a.profile → (syncStep a s r).1.vault.fs.fileAt q = lastAt landed q) ∧
      (complete = true → landed = notesOf a r.bucket) ∧
      (syncStep a s r).1.vault.etags =
        (if complete && etagsAvailable (listing a r.bucket) then some (listing a r.bucket) else s.vault.etags) ∧
      (syncStep a s r).1.last = some ⟨landed, complete && etagsAvailable (listing a r.bucket)⟩ := by
  unfold syncStep syncFromS3
  cases hlisted : r.env.listed with
  | false => exact Or.inl ⟨rfl, fun _ => rfl, rfl, rfl⟩
  | true =>
    cases hsame : unchanged a { s.vault with bucket := r.bucket } with
    | true =>
      have hcached : s.vault.etags = some (listing a r.bucket) := by
        unfold unchanged at hsame
        simp only [Bool.and_eq_true, beq_iff_eq] at hsame
        exact hsame.1.2
      exact Or.inr (Or.inl ⟨rfl, rfl, rfl, rfl, hcached⟩)
    | false =>
      rcases hreset : resetDest a s.vault.fs with ⟨fs, _ | _⟩
      · refine Or.inl ⟨rfl, fun q => ?_, rfl, rfl⟩
        show fs.fileAt q = _
        rw [resetDest_files hreset q, if_neg (by simp)]
      · rcases hall : downloadAll a (listedNotes a r.env r.bucket) fs with ⟨fs', landed, complete⟩
        refine Or.inr (Or.inr ⟨landed, complete, by simp [hall], fun q hq hprofile => ?_, fun hcomplete => ?_,
          by simp [hall], by simp [hall]⟩)
        · have hwiped : fs.fileAt q = none := by
            rw [resetDest_files hreset q, if_pos ⟨rfl, hq⟩, if_neg hprofile]
          simp [hall, downloadAll_files hall q, hwiped]
        · rw [hcomplete] at hall
          exact landed_eq hall

/-- What is cached was cached by a wipe; the directory is as the last wipe left it; and where
    that is the one whose listing is cached, it is the listing's snapshot. -/
structure Synced.Inv (contentOf : String → ByteArray) (a : Account) (s : Process) : Prop where
  cached : s.vault.etags ≠ none → s.last ≠ none
  files : ∀ w, s.last = some w → ∀ q, a.dest <:+ q → q ≠ a.profile → s.vault.fs.fileAt q = lastAt w.landed q
  recorded : ∀ w, s.last = some w → w.recorded = true →
    ∃ r : Remote contentOf a, s.vault.etags = some (listing a r.bucket) ∧
      Snapshot a s.vault.fs.fileAt (notesOf a r.bucket)

theorem start_inv (fs : Tree) : Synced.Inv contentOf a (Process.start fs) where
  cached h := absurd rfl h
  files w h := by cases h
  recorded w h := by cases h

/-- A download that came to its end left a snapshot, just when its notes are well placed. -/
theorem wiped_snapshot {s : Process} {r : Remote contentOf a} {landed : Landed}
    (hfiles : ∀ q, a.dest <:+ q → q ≠ a.profile → (syncStep a s r).1.vault.fs.fileAt q = lastAt landed q)
    (hlanded : landed = notesOf a r.bucket) :
    Snapshot a (syncStep a s r).1.vault.fs.fileAt (notesOf a r.bucket) ↔ WellPlaced a (notesOf a r.bucket) := by
  rw [← snapshot_lastAt_iff (notesOf_names a r.bucket)]
  refine snapshot_congr (fun q hq hprofile => ?_) _
  rw [hfiles q hq hprofile, hlanded]

theorem syncStep_inv (s : Process) (r : Remote contentOf a) (h : Synced.Inv contentOf a s) (hown : SkipsOwn a s r) :
    Synced.Inv contentOf a (syncStep a s r).1 := by
  rcases syncStep_cases s r with ⟨-, hfs, hetags, hlast⟩ | ⟨-, hfs, hetags, hlast, -⟩ |
    ⟨landed, complete, hout, hfiles, hcomplete, hetags, hlast⟩
  · refine ⟨?_, ?_, ?_⟩
    · rw [hetags, hlast]
      exact h.cached
    · intro w hw q hq hprofile
      rw [hlast] at hw
      rw [hfs, h.files w hw q hq hprofile]
    · intro w hw hrec
      rw [hlast] at hw
      obtain ⟨r₀, hcached, hsnap⟩ := h.recorded w hw hrec
      exact ⟨r₀, hetags.trans hcached, (snapshot_congr (fun q _ _ => hfs q) _).mpr hsnap⟩
  · refine ⟨?_, ?_, ?_⟩
    · rw [hetags, hlast]
      exact h.cached
    · intro w hw
      rw [hlast] at hw
      rw [hfs]
      exact h.files w hw
    · intro w hw hrec
      rw [hlast] at hw
      rw [hfs, hetags]
      exact h.recorded w hw hrec
  · refine ⟨?_, ?_, ?_⟩
    · rw [hlast]
      simp
    · intro w hw q hq hprofile
      rw [hlast] at hw
      obtain rfl := Option.some.inj hw
      exact hfiles q hq hprofile
    · intro w hw hrec
      rw [hlast] at hw
      obtain rfl := Option.some.inj hw
      have hrec : (complete && etagsAvailable (listing a r.bucket)) = true := hrec
      refine ⟨r, by rw [hetags, if_pos hrec], ?_⟩
      have hdone : complete = true := (Bool.and_eq_true _ _ ▸ hrec).1
      have hplaced : WellPlaced a (notesOf a r.bucket) := by
        unfold SkipsOwn at hown
        rw [hout] at hown
        exact hown hdone
      exact (wiped_snapshot hfiles (hcomplete hdone)).mpr hplaced

theorem leavesSnapshot_iff (s : Process) (r : Remote contentOf a) (h : Synced.Inv contentOf a s) :
    LeavesSnapshot a s r ↔ SkipsOwn a s r := by
  unfold LeavesSnapshot SkipsOwn
  rcases syncStep_cases s r with ⟨hout, -, -, -⟩ | ⟨hout, hfs, -, -, hcached⟩ |
    ⟨landed, complete, hout, hfiles, hcomplete, -, -⟩
  · rw [hout]
    exact iff_of_true (fun hret => by cases hret) trivial
  · rw [hout, hfs]
    obtain ⟨w, hw⟩ := Option.ne_none_iff_exists'.mp (h.cached (by rw [hcached]; simp))
    have hsame := snapshot_congr (h.files w hw) (notesOf a r.bucket)
    constructor
    · intro hsnap
      exact ⟨w, hw, Or.inr (hsame.mp (hsnap rfl))⟩
    · intro hown _
      obtain ⟨w', hw', hrec | hleft⟩ := hown
      · obtain ⟨r₀, hcached₀, hsnap⟩ := h.recorded w' hw' hrec
        rw [hcached] at hcached₀
        rw [notesOf_eq (Option.some.inj hcached₀)]
        exact hsnap
      · rw [hw] at hw'
        obtain rfl := Option.some.inj hw'
        exact hsame.mpr hleft
  · rw [hout]
    refine forall_congr' fun hdone => ?_
    exact wiped_snapshot hfiles (hcomplete hdone)

/-- For one user in one process, whatever is on the disk at its start, every sequence of
    calls, of the bucket's contents they find and of the downloads that fail: each call that
    returns leaves the notes of its listing, and no others, if and only if each call skips
    only what it downloaded itself and downloads only what it can place. -/
theorem snapshots_iff (a : Account) (fs : Tree) (calls : List (Remote contentOf a)) :
    Meets (syncStep a) (LeavesSnapshot a) (Process.start fs) calls ↔
      Meets (syncStep a) (SkipsOwn a) (Process.start fs) calls :=
  meets_iff_of_inv syncStep_inv leavesSnapshot_iff (start_inv fs) calls

/-- One note, then none, then the one again. -/
def noted : Remote (fun _ => "pick up".toUTF8) someUser where
  bucket := ⟨[("u1/a.md", ⟨"pick up".toUTF8, some "e-a"⟩)], List.pairwise_singleton _ _⟩
  env := reliableSync
  tagged := by
    intro x hx
    obtain rfl : x = ("u1/a.md", ⟨"pick up".toUTF8, some "e-a"⟩) := List.mem_singleton.mp (List.mem_filter.mp hx).1
    exact ⟨"e-a", rfl, by decide, rfl⟩

def cleared : Remote (fun _ => "pick up".toUTF8) someUser where
  bucket := emptyVault.bucket
  env := reliableSync
  tagged := fun x hx => by cases hx

/-- The note is restored in the bucket, and the call returns without it. -/
theorem an_empty_listing_then_a_skip :
    ¬ Meets (syncStep someUser) (LeavesSnapshot someUser) (Process.start emptyTree) [noted, cleared, noted] := by
  intro h
  have hlast := (Meets.at (syncStep someUser) (l := [noted, cleared]) (m := []) h) (by decide +kernel)
  have hpaths : (notesOf someUser noted.bucket).map Prod.fst = [["a.md", "u1", "vaults", "tmp"]] := by decide +kernel
  obtain ⟨x, hx, hpath⟩ := List.mem_map.mp (hpaths ▸ List.mem_singleton_self ["a.md", "u1", "vaults", "tmp"])
  have hthere := congrArg Option.isSome ((hlast x.1 x.2 (by rw [hpath]; decide)).mpr hx).2.2
  rw [hpath, Option.isSome_some] at hthere
  revert hthere
  decide +kernel

end CoreHeartbeat.Vault
