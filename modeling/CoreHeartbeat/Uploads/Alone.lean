/-
  CoreHeartbeat.Uploads.Alone — an upload that has the mount to itself, step after step, against
  `storeStream`, which does it at once.

  There are two models of one function. `Store` has `store_stream` as a function of the folder,
  which is what is said about one upload; `Concurrent` cuts it at its awaits, with a buffer, an
  inode and a cancellation between any two steps. Here the second is shown to come to the first
  when nothing else happens, so that what is said of either is said of one function.

  `outcome` is what is still to come of an upload in the middle of its run, in the words of
  `Store`. On a disk that works a step leaves it as it is, however many of the buffered bytes it
  passes on; so the steps come to what `storeStream` returns, and leave the folder that it
  leaves.

  Proved:
  - `storeStream_outcome`: `storeStream` is what is to come of an upload that has picked its
    name.
  - `advance_outcome`: a step on a disk that works leaves what is to come as it is.
  - `alone_eq_storeStream`: the run of the steps is `storeStream`.
  - `ended_of_length`: an upload ends whatever the disk does.
-/

import CoreHeartbeat.Uploads.Concurrent

namespace CoreHeartbeat.Uploads

open Posix Machine Inodes

variable (fold : String → String)

structure Turn.Works (t : Turn) (cfg : Config) (d : Disk) : Prop where
  cfg : t.cfg = cfg
  free : t.free = d.free
  quarantined : t.quarantined = d.quarantined
  fault : t.fault = none
  cancelled : t.cancelled = false

structure Disk.Works (d : Disk) : Prop where
  openFault : d.openFault = none
  writeFault : d.writeFault = fun _ => none
  closeFault : d.closeFault = none
  unlinks : d.unlinks = true
  renameFault : d.renameFault = none

/-! ## What is still to come -/

def dropped (names : String → Option Item) (k : String) : String → Option Item :=
  fun q => if q = k then none else names q

/-- What comes of a partial file of `data` once it is renamed. -/
def placed (d : Disk) (up : Upload) (p : Picked) (names : String → Option Item) (data : ByteArray) (written : Nat) :
    Except Raised Stored × (String → Option Item) :=
  if d.quarantined then
    (.error (.upload ⟨502, "file was stored but immediately removed by Windows Defender"⟩),
      dropped (dropped names (fold p.part)) (fold p.target))
  else
    (.ok (stored up p written),
      fun q => if q = fold p.target then some ⟨p.target, .file data⟩ else dropped names (fold p.part) q)

def concluded (d : Disk) (up : Upload) (p : Picked) (names : String → Option Item) (data : ByteArray) (written : Nat) :
    Option Raised → Except Raised Stored × (String → Option Item)
  | some (.upload e) => (.error (.upload e), dropped names (fold p.part))
  | some (.exception exc) => (.error (writeFailed exc), dropped names (fold p.part))
  | some (.base exc) =>
    (.error (.base exc), fun q =>
      if q = fold p.part then some ⟨((names q).map (·.name)).getD p.part, .file data⟩ else names q)
  | none =>
    if written = 0 then (.error (.upload ⟨400, "empty file"⟩), dropped names (fold p.part))
    else placed fold d up p names data written

def transferred (d : Disk) (up : Upload) (p : Picked) (names : String → Option Item) (chunks : List ByteArray)
    (data : ByteArray) (written : Nat) : Except Raised Stored × (String → Option Item) :=
  let (data, written, raised) := receive p.cap d up.stream.raises chunks 0 data written
  concluded fold d up p names data written raised

def namesOf (m : Mount) : String → Option Item := fun q => m.folder.lookup q

def isFileAt (names : String → Option Item) (k : String) : Bool :=
  match names k with
  | some ⟨_, .file _⟩ => true
  | _ => false

/-- What an upload at this place comes to and leaves, if nothing else happens. -/
def outcome (cfg : Config) (d : Disk) (root : Path) (up : Upload) (m : Mount) :
    Phase → Except Raised Stored × (String → Option Item)
  | .waiting =>
    let (r, f) := storeStream fold cfg d root up.stream up.filename m.folder
    (r, fun q => f.lookup q)
  | .opening p =>
    match namesOf m (fold p.part) with
    | some ⟨_, .dir⟩ => (.error (writeFailed "IsADirectoryError"), namesOf m)
    | _ => transferred fold d up p (namesOf m) up.stream.chunks ByteArray.empty 0
  | .writing p h chunks written => transferred fold d up p (namesOf m) chunks (h.all m) written
  | .closing p h written raised => concluded fold d up p (namesOf m) (h.all m) written raised
  | .cleaning p e =>
    (.error e, if isFileAt (namesOf m) (fold p.part) then dropped (namesOf m) (fold p.part) else namesOf m)
  | .replacing p written =>
    match namesOf m (fold p.part) with
    | some ⟨_, .file data⟩ => placed fold d up p (namesOf m) data written
    | _ => (.error (.exception "FileNotFoundError"), namesOf m)
  | .checking p written =>
    if d.quarantined then
      (.error (.upload ⟨502, "file was stored but immediately removed by Windows Defender"⟩),
        dropped (namesOf m) (fold p.target))
    else (.ok (stored up p written), namesOf m)
  | .ended r => (r, namesOf m)

def Ready (m : Mount) : Phase → Prop
  | .opening p => m.links.lookup (fold p.target) = none
  | .writing p h _ _ => Opened fold m p h ∧ (fold p.target = fold p.part ∨ m.links.lookup (fold p.target) = none)
  | .closing p h _ _ => Opened fold m p h ∧ (fold p.target = fold p.part ∨ m.links.lookup (fold p.target) = none)
  | .replacing p _ =>
    (∃ name i, m.links.lookup (fold p.part) = some (name, .file i)) ∧
      (fold p.target = fold p.part ∨ m.links.lookup (fold p.target) = none)
  | .checking p _ => (m.links.lookup (fold p.target)).isSome = true
  | _ => True

/-! ## Names -/

variable {fold}

theorem namesOf_eq (m : Mount) (q : String) : namesOf m q = (m.links.lookup q).map m.item := folder_lookup m q

theorem namesOf_file {m : Mount} {q name : String} {i : Nat} (h : m.links.lookup q = some (name, .file i)) :
    namesOf m q = some ⟨name, .file (m.content i)⟩ := by
  rw [namesOf_eq, h]
  rfl

/-- A name that no step has come near stands for what it did. -/
theorem namesOf_kept {m m' : Mount} {q : String} (hlink : m'.links.lookup q = m.links.lookup q)
    (hkeep : Keeps m m' q) : namesOf m' q = namesOf m q := by
  rw [namesOf_eq, namesOf_eq, hlink]
  cases h : m.links.lookup q with
  | none => rfl
  | some link =>
    obtain ⟨name, _ | i⟩ := link
    · rfl
    · have hsame := (hkeep name i h).2
      simp only [Option.map_some, Mount.item, hsame]

theorem dropped_congr {names names' : String → Option Item} {k : String} (h : ∀ q, q ≠ k → names' q = names q) :
    dropped names' k = dropped names k := by
  funext q
  unfold dropped
  by_cases hq : q = k
  · rw [if_pos hq, if_pos hq]
  · rw [if_neg hq, if_neg hq, h q hq]

/-- What is to come depends on the partial name by its spelling alone. -/
theorem concluded_congr {d : Disk} {up : Upload} {p : Picked} {names names' : String → Option Item}
    (h : ∀ q, q ≠ fold p.part → names' q = names q)
    (hname : ((names' (fold p.part)).map (·.name)).getD p.part = ((names (fold p.part)).map (·.name)).getD p.part)
    (data : ByteArray) (written : Nat) (raised : Option Raised) :
    concluded fold d up p names' data written raised = concluded fold d up p names data written raised := by
  have hdropped := dropped_congr h
  unfold concluded placed
  rw [hdropped]
  cases raised with
  | none => rfl
  | some e =>
    cases e with
    | upload e => rfl
    | exception exc => rfl
    | base exc =>
      refine Prod.ext rfl (funext fun q => ?_)
      dsimp only
      by_cases hq : q = fold p.part
      · rw [if_pos hq, if_pos hq, hq, hname]
      · rw [if_neg hq, if_neg hq, h q hq]

theorem transferred_congr {d : Disk} {up : Upload} {p : Picked} {names names' : String → Option Item}
    (h : ∀ q, q ≠ fold p.part → names' q = names q)
    (hname : ((names' (fold p.part)).map (·.name)).getD p.part = ((names (fold p.part)).map (·.name)).getD p.part)
    (chunks : List ByteArray) (data : ByteArray) (written : Nat) :
    transferred fold d up p names' chunks data written = transferred fold d up p names chunks data written :=
  concluded_congr h hname _ _ _

/-! ## One step -/

/-- On a disk that works the writes are not told apart by their number. -/
theorem receive_number {d : Disk} (hd : d.Works) (cap : Int) (raises : Option Raised) (chunks : List ByteArray)
    (n : Nat) (data : ByteArray) (written : Nat) :
    receive cap d raises chunks n data written = receive cap d raises chunks 0 data written := by
  induction chunks generalizing n data written with
  | nil => rfl
  | cons chunk chunks ih =>
    simp only [receive, hd.writeFault]
    split
    · exact ih _ _ _
    · split
      · rfl
      · rw [ih (n + 1), ih (0 + 1)]

section
variable {d : Disk} {f f₁ : Folder} {p : Picked} {data : ByteArray}

theorem unlinked_names (hd : d.Works) (hopen : openPart fold d f p.part = .ok f₁) :
    (fun q => (unlinkQuietly fold d (closePart fold f₁ p.part data) p.part).lookup q) =
      dropped (fun q => f.lookup q) (fold p.part) := by
  obtain ⟨name, -, -, hclosed⟩ := closePart_lookup fold hopen data
  funext q
  rw [unlinkQuietly_lookup fold ((hclosed _).trans (if_pos rfl)), hd.unlinks, hclosed]
  unfold dropped
  by_cases hq : q = fold p.part <;> simp [hq]

theorem closed_names (hopen : openPart fold d f p.part = .ok f₁) :
    (fun q => (closePart fold f₁ p.part data).lookup q) = fun q =>
      if q = fold p.part then some ⟨((f.lookup q).map (·.name)).getD p.part, .file data⟩ else f.lookup q := by
  obtain ⟨name, hname, -, hclosed⟩ := closePart_lookup fold hopen data
  funext q
  rw [hclosed]
  by_cases hq : q = fold p.part
  · rw [if_pos hq, if_pos hq, hq, hname]
  · rw [if_neg hq, if_neg hq]

theorem renamed_names (hopen : openPart fold d f p.part = .ok f₁) :
    (fun q => (rename fold (closePart fold f₁ p.part data) p.part p.target).lookup q) = fun q =>
      if q = fold p.target then some ⟨p.target, .file data⟩ else dropped (fun q => f.lookup q) (fold p.part) q := by
  obtain ⟨name, -, -, hclosed⟩ := closePart_lookup fold hopen data
  funext q
  rw [rename_lookup fold ((hclosed _).trans (if_pos rfl)), hclosed]
  unfold dropped
  by_cases hq : q = fold p.part <;> simp [hq]

end

theorem erased_names (f : Folder) (k : String) : (fun q => (f.erase k).lookup q) = dropped (fun q => f.lookup q) k := by
  funext q
  unfold dropped
  by_cases hq : q = k
  · rw [if_pos hq, hq, AList.lookup_erase]
  · rw [if_neg hq, AList.lookup_erase_ne hq]

/-- Dropping a name again, or one that has just been given, drops it. -/
theorem dropped_given {names : String → Option Item} {k : String} {item : Option Item} :
    dropped (fun q => if q = k then item else names q) k = dropped names k :=
  dropped_congr fun _ hq => if_neg hq

theorem outcome_opening {cfg : Config} {d : Disk} {root : Path} {up : Upload} {m : Mount} {p : Picked}
    (h : ∀ spelling, namesOf m (fold p.part) ≠ some ⟨spelling, .dir⟩) :
    outcome fold cfg d root up m (.opening p) =
      transferred fold d up p (namesOf m) up.stream.chunks ByteArray.empty 0 := by
  simp only [outcome]

/-- A disk that works opens what is not a directory. -/
theorem openPart_error {d : Disk} (hd : d.Works) {f : Folder} {part exc : String}
    (h : openPart fold d f part = .error exc) :
    ∃ spelling, f.lookup (fold part) = some ⟨spelling, .dir⟩ ∧ exc = "IsADirectoryError" := by
  unfold openPart Folder.get at h
  split at h
  · rename_i spelling hdir
    exact ⟨spelling, hdir, (Except.error.inj h).symm⟩
  · simp only [hd.openFault] at h
    cases h
  · simp only [hd.openFault] at h
    cases h

/-- `storeStream` is what is to come of an upload that has picked its name. -/
theorem storeStream_outcome {cfg : Config} {d : Disk} (hd : d.Works) {root : Path} {up : Upload} {m : Mount}
    {p : Picked} (hcap : p.cap = cfg.maxUploadBytes)
    (hprep : prepare fold cfg d root up.filename m.folder = .ok (p.name, p.rewritten, p.target)) :
    outcome fold cfg d root up m .waiting = outcome fold cfg d root up m (.opening p) := by
  have hpart : p.target ++ partSuffix = p.part := rfl
  show (let (r, f) := storeStream fold cfg d root up.stream up.filename m.folder; (r, fun q => f.lookup q)) = _
  unfold storeStream
  simp only [hprep, hpart]
  rcases hopen : openPart fold d m.folder p.part with exc | f₁
  · obtain ⟨spelling, hlookup, rfl⟩ := openPart_error hd hopen
    simp only [outcome, namesOf, hlookup, unlinkQuietly, Folder.get, writeFailed]
    rfl
  · have hfile : ∀ spelling, namesOf m (fold p.part) ≠ some ⟨spelling, .dir⟩ := by
      intro spelling h
      have hlookup : m.folder.lookup (fold p.part) = some ⟨spelling, .dir⟩ := h
      simp only [openPart, Folder.get, hlookup] at hopen
      cases hopen
    rw [outcome_opening hfile]
    unfold transferred
    rw [hcap]
    simp only [transfer, hd.closeFault]
    rcases receive cfg.maxUploadBytes d up.stream.raises up.stream.chunks 0 ByteArray.empty 0 with
      ⟨data, written, raised⟩
    cases raised with
    | some e =>
      cases e with
      | upload e => exact Prod.ext rfl (unlinked_names hd hopen)
      | exception exc => exact Prod.ext rfl (unlinked_names hd hopen)
      | base exc => exact Prod.ext rfl (closed_names hopen)
    | none =>
      simp only [concluded, placed, hd.renameFault]
      split
      · exact Prod.ext rfl (unlinked_names hd hopen)
      · split
        · refine Prod.ext rfl ?_
          refine (erased_names _ _).trans ?_
          rw [renamed_names hopen]
          exact dropped_given
        · exact Prod.ext rfl (renamed_names hopen)

/-! ## The steps -/

section
variable {cfg : Config} {d : Disk} {root : Path} {up : Upload} {t : Turn} {m : Mount} {p : Picked}

theorem stepCheck_outcome (hd : d.Works) (ht : t.Works cfg d) :
    outcome fold cfg d root up (stepCheck fold root up t m).1 (stepCheck fold root up t m).2 =
        outcome fold cfg d root up m .waiting ∧
      Ready fold (stepCheck fold root up t m).1 (stepCheck fold root up t m).2 := by
  have hsame : prepare fold t.cfg { free := t.free } root up.filename m.folder =
      prepare fold cfg d root up.filename m.folder := by
    rw [ht.cfg, ht.free]
    rfl
  unfold stepCheck
  rw [hsame]
  rcases hprep : prepare fold cfg d root up.filename m.folder with e | ⟨name, rewritten, target⟩
  · refine ⟨?_, trivial⟩
    simp only [outcome, storeStream, hprep]
    rfl
  · have hfree := (prepare_target fold hprep).2.2
    rw [folder_lookup, Option.map_eq_none_iff] at hfree
    have hcap : (Picked.mk name rewritten target t.cfg.maxUploadBytes).cap = cfg.maxUploadBytes := by rw [ht.cfg]
    exact ⟨(storeStream_outcome hd hcap hprep).symm, hfree⟩

theorem stepOpen_outcome (ht : t.Works cfg d) (hready : Ready fold m (.opening p)) :
    outcome fold cfg d root up (stepOpen fold up t m p).1 (stepOpen fold up t m p).2 =
        outcome fold cfg d root up m (.opening p) ∧
      Ready fold (stepOpen fold up t m p).1 (stepOpen fold up t m p).2 := by
  unfold stepOpen openInode
  simp only [ht.cancelled, ht.fault]
  cases hlink : m.links.lookup (fold p.part) with
  | none =>
    have hnone : namesOf m (fold p.part) = none := by rw [namesOf_eq, hlink]; rfl
    rw [outcome_opening (by rw [hnone]; exact fun _ h => by cases h)]
    simp only [Bool.false_eq_true, if_false]
    refine ⟨?_, ⟨⟨p.part, Dir.create_lookup⟩, ?_⟩, ?_⟩
    · simp only [outcome, Handle.all, Dir.create_content, ByteArray.append_empty]
      refine transferred_congr (fun q hq => ?_) ?_ _ _ _
      · exact namesOf_kept (Dir.create_lookup_ne hq) fun name j h =>
          ⟨(Dir.create_lookup_ne hq).trans h, Dir.create_content_old h⟩
      · rw [namesOf_file Dir.create_lookup, hnone]
        rfl
    · unfold Handle.AtEnd
      rw [Dir.create_content]
      rfl
    · by_cases htarget : fold p.target = fold p.part
      · exact Or.inl htarget
      · exact Or.inr ((Dir.create_lookup_ne htarget).trans hready)
  | some link =>
    obtain ⟨spelling, _ | i⟩ := link
    · have hdir : namesOf m (fold p.part) = some ⟨spelling, .dir⟩ := by rw [namesOf_eq, hlink]; rfl
      refine ⟨?_, trivial⟩
      simp only [Bool.false_eq_true, if_false, outcome, hdir, isFileAt]
    · have hfile := namesOf_file hlink
      rw [outcome_opening (by rw [hfile]; exact fun _ h => by cases h)]
      simp only [Bool.false_eq_true, if_false]
      refine ⟨?_, ⟨⟨spelling, hlink⟩, ?_⟩, Or.inr hready⟩
      · simp only [outcome, Handle.all, Dir.write_content, ByteArray.append_empty]
        refine transferred_congr (fun q hq => ?_) ?_ _ _ _
        · exact namesOf_kept (m := m) rfl (keeps_write hlink hq)
        · rw [namesOf_file (m := m.write i ByteArray.empty) hlink, hfile]
          rfl
      · unfold Handle.AtEnd
        rw [Dir.write_content]
        rfl

/-- Bytes that are passed on leave all names but the partial one, and its spelling. -/
theorem namesOf_flush {h : Handle} (hopen : Opened fold m p h) (n : Nat) :
    (∀ q, q ≠ fold p.part → namesOf (flush m h n).1 q = namesOf m q) ∧
      ((namesOf (flush m h n).1 (fold p.part)).map (·.name)).getD p.part =
        ((namesOf m (fold p.part)).map (·.name)).getD p.part := by
  refine ⟨fun q hq => namesOf_kept rfl (flush_elsewhere hopen hq n), ?_⟩
  obtain ⟨⟨name, hlink⟩, -⟩ := hopen
  rw [namesOf_file hlink, namesOf_file (m := (flush m h n).1) hlink]
  rfl

theorem stepWrite_outcome (hd : d.Works) (ht : t.Works cfg d) {h : Handle} {chunks : List ByteArray} {written : Nat}
    (hready : Ready fold m (.writing p h chunks written)) :
    outcome fold cfg d root up (stepWrite up t m p h written chunks).1 (stepWrite up t m p h written chunks).2 =
        outcome fold cfg d root up m (.writing p h chunks written) ∧
      Ready fold (stepWrite up t m p h written chunks).1 (stepWrite up t m p h written chunks).2 := by
  cases chunks with
  | nil => exact ⟨rfl, hready⟩
  | cons chunk chunks =>
    simp only [stepWrite]
    split
    · rename_i hsize
      refine ⟨?_, hready⟩
      simp only [outcome, transferred, receive, hsize, if_true]
    · rename_i hsize
      split
      · rename_i hover
        refine ⟨?_, hready⟩
        simp only [outcome, transferred, receive, hsize, hover, if_true, if_false]
      · rename_i hover
        have hbuffered : Opened fold m p { h with pending := h.pending ++ chunk } := hready.1
        obtain ⟨hnames, hname⟩ := namesOf_flush hbuffered t.flushed
        simp only [ht.cancelled, ht.fault, Bool.false_eq_true, if_false]
        refine ⟨?_, opened_flush hbuffered t.flushed, hready.2⟩
        simp only [outcome]
        rw [transferred_congr hnames hname, flush_all hbuffered.2]
        simp only [transferred, receive, hsize, hover, if_false, hd.writeFault]
        rw [receive_number hd p.cap up.stream.raises chunks (0 + 1)]
        simp only [Handle.all, ByteArray.append_assoc]

theorem stepClose_outcome (ht : t.Works cfg d) {h : Handle} {written : Nat} {raised : Option Raised}
    (hready : Ready fold m (.closing p h written raised)) :
    outcome fold cfg d root up (stepClose t m p h written raised).1 (stepClose t m p h written raised).2 =
        outcome fold cfg d root up m (.closing p h written raised) ∧
      Ready fold (stepClose t m p h written raised).1 (stepClose t m p h written raised).2 := by
  obtain ⟨hopen, htarget⟩ := hready
  obtain ⟨hnames, hname⟩ := namesOf_flush hopen h.pending.size
  obtain ⟨⟨name, hlink⟩, hend⟩ := hopen
  have hfile : namesOf (flush m h h.pending.size).1 (fold p.part) = some ⟨name, .file (h.all m)⟩ := by
    rw [namesOf_file (m := (flush m h h.pending.size).1) hlink, flush_rest hend]
  have hcleaned : isFileAt (namesOf (flush m h h.pending.size).1) (fold p.part) = true := by
    unfold isFileAt
    rw [hfile]
  unfold stepClose
  simp only [ht.fault, ht.cancelled, Bool.false_eq_true, if_false]
  show _ = concluded fold d up p (namesOf m) (h.all m) written raised ∧ _
  rw [← concluded_congr hnames hname]
  cases raised with
  | some e =>
    cases e with
    | upload e => exact ⟨by simp only [outcome, hcleaned, if_true, concluded], trivial⟩
    | exception exc => exact ⟨by simp only [outcome, hcleaned, if_true, concluded], trivial⟩
    | base exc =>
      refine ⟨Prod.ext rfl (funext fun q => ?_), trivial⟩
      show namesOf (flush m h h.pending.size).1 q = if q = fold p.part then _ else _
      by_cases hq : q = fold p.part
      · rw [if_pos hq, hq, hfile]
        rfl
      · rw [if_neg hq]
  | none =>
    simp only [concluded]
    split
    · exact ⟨by simp only [outcome, hcleaned, if_true], trivial⟩
    · refine ⟨?_, ⟨name, h.inode, hlink⟩, htarget⟩
      simp only [outcome, hfile]

theorem namesOf_unlink (k : String) : namesOf (m.unlink k) = dropped (namesOf m) k := by
  funext q
  unfold dropped
  by_cases hq : q = k
  · have hgone : (m.unlink k).links.lookup k = none := AList.lookup_erase _ _
    rw [if_pos hq, hq, namesOf_eq, hgone]
    rfl
  · rw [if_neg hq]
    exact namesOf_kept (Dir.unlink_lookup_ne hq) (unlink_elsewhere hq)

theorem stepClean_outcome (ht : t.Works cfg d) {e : Raised} :
    outcome fold cfg d root up (stepClean fold t m p e).1 (stepClean fold t m p e).2 =
      outcome fold cfg d root up m (.cleaning p e) := by
  unfold stepClean
  simp only [ht.cancelled, ht.fault, outcome, Bool.false_eq_true, if_false]
  refine Prod.ext rfl ?_
  cases hlink : m.links.lookup (fold p.part) with
  | none =>
    have hnone : isFileAt (namesOf m) (fold p.part) = false := by
      unfold isFileAt
      rw [namesOf_eq, hlink]
      rfl
    simp only [hnone, Bool.false_eq_true, if_false]
  | some link =>
    obtain ⟨name, _ | i⟩ := link
    · have hdir : isFileAt (namesOf m) (fold p.part) = false := by
        unfold isFileAt
        rw [namesOf_eq, hlink]
        rfl
      simp only [hdir, Bool.false_eq_true, if_false]
    · have hfile : isFileAt (namesOf m) (fold p.part) = true := by
        unfold isFileAt
        rw [namesOf_file hlink]
      simp only [hfile, if_true]
      exact namesOf_unlink _

/-- The names after the rename of the partial file. -/
theorem namesOf_rename {name : String} {i : Nat} (hlink : m.links.lookup (fold p.part) = some (name, .file i)) :
    namesOf (m.rename (fold p.part) (fold p.target) p.target) = fun q =>
      if q = fold p.target then some ⟨p.target, .file (m.content i)⟩ else dropped (namesOf m) (fold p.part) q := by
  funext q
  unfold dropped
  by_cases htarget : q = fold p.target
  · rw [if_pos htarget, htarget, namesOf_file (Dir.rename_lookup hlink), Dir.rename_content]
  · rw [if_neg htarget]
    by_cases hpart : q = fold p.part
    · rw [if_pos hpart, hpart, namesOf_eq, Dir.rename_lookup_old (by rw [← hpart]; exact htarget)]
      rfl
    · rw [if_neg hpart]
      refine namesOf_kept (Dir.rename_lookup_ne hpart htarget) fun name j h => ?_
      exact ⟨(Dir.rename_lookup_ne hpart htarget).trans h, by rw [Dir.rename_content]⟩

theorem stepRename_outcome (ht : t.Works cfg d) {written : Nat} (hready : Ready fold m (.replacing p written)) :
    outcome fold cfg d root up (stepRename fold t m p written).1 (stepRename fold t m p written).2 =
        outcome fold cfg d root up m (.replacing p written) ∧
      Ready fold (stepRename fold t m p written).1 (stepRename fold t m p written).2 := by
  obtain ⟨⟨name, i, hlink⟩, htarget⟩ := hready
  have hnone : renameFault fold t m p = none := by
    unfold renameFault
    rcases htarget with hsame | hfree
    · rw [hsame, hlink, ht.fault]
    · rw [hlink, hfree, ht.fault]
  unfold stepRename
  rw [hnone]
  simp only [ht.cancelled, Bool.false_eq_true, if_false]
  refine ⟨?_, by rw [Ready, Dir.rename_lookup hlink]; rfl⟩
  simp only [outcome, namesOf_file hlink, placed, namesOf_rename hlink, dropped_given]

theorem stepExists_outcome (ht : t.Works cfg d) {written : Nat} (hready : Ready fold m (.checking p written)) :
    outcome fold cfg d root up (stepExists fold up t m p written).1 (stepExists fold up t m p written).2 =
      outcome fold cfg d root up m (.checking p written) := by
  have hthere : (m.links.lookup (fold p.target)).isSome = true := hready
  unfold stepExists
  simp only [ht.cancelled, ht.fault, ht.quarantined, outcome, Bool.false_eq_true, if_false]
  cases d.quarantined with
  | false => simp only [Bool.false_eq_true, if_false, hthere, if_true]
  | true =>
    have hgone : (m.unlink (fold p.target)).links.lookup (fold p.target) = none := AList.lookup_erase _ _
    simp only [if_true, hgone, Option.isSome_none, Bool.false_eq_true, if_false, namesOf_unlink]

/-- A step on a disk that works leaves what is to come as it is. -/
theorem advance_outcome (hd : d.Works) (ht : t.Works cfg d) {ph : Phase} (hready : Ready fold m ph) :
    outcome fold cfg d root up (advance fold root up t m ph).1 (advance fold root up t m ph).2 =
        outcome fold cfg d root up m ph ∧
      Ready fold (advance fold root up t m ph).1 (advance fold root up t m ph).2 := by
  cases ph with
  | waiting => exact stepCheck_outcome hd ht
  | opening p => exact stepOpen_outcome ht hready
  | writing p h chunks written => exact stepWrite_outcome hd ht hready
  | closing p h written raised => exact stepClose_outcome ht hready
  | cleaning p e => exact ⟨stepClean_outcome ht, trivial⟩
  | replacing p written => exact stepRename_outcome ht hready
  | checking p written => exact ⟨stepExists_outcome ht hready, trivial⟩
  | ended r => exact ⟨rfl, trivial⟩

end

/-! ## Runs -/

def Phase.left (up : Upload) : Phase → Nat
  | .waiting => up.stream.chunks.length + 6
  | .opening _ => up.stream.chunks.length + 5
  | .writing _ _ chunks _ => chunks.length + 4
  | .closing _ _ _ _ => 3
  | .cleaning _ _ => 1
  | .replacing _ _ => 2
  | .checking _ _ => 1
  | .ended _ => 0

/-- Every step takes an upload nearer to its end. -/
theorem advance_left (fold : String → String) (root : Path) (up : Upload) (t : Turn) (m : Mount) (ph : Phase) :
    (advance fold root up t m ph).2.left up ≤ ph.left up - 1 := by
  cases ph with
  | waiting =>
    simp only [advance, stepCheck]
    split <;> simp [Phase.left]
  | opening p =>
    simp only [advance, stepOpen]
    split
    · simp [Phase.left]
    · split <;> simp [Phase.left]
  | writing p h chunks written =>
    cases chunks with
    | nil => simp [advance, stepWrite, Phase.left]
    | cons chunk chunks =>
      simp only [advance, stepWrite]
      repeat' split
      all_goals simp [Phase.left]
  | closing p h written raised =>
    simp only [advance, stepClose]
    split
    · simp [Phase.left]
    · repeat' split
      all_goals simp [Phase.left]
  | cleaning p e => simp [advance, stepClean, Phase.left]
  | replacing p written =>
    simp only [advance, stepRename]
    split
    · simp [Phase.left]
    · dsimp only
      split <;> simp [Phase.left]
  | checking p written => simp [advance, stepExists, Phase.left]
  | ended r => simp [advance, Phase.left]

theorem ended_of_left {up : Upload} {ph : Phase} (h : ph.left up = 0) : ∃ r, ph = .ended r := by
  cases ph with
  | ended r => exact ⟨r, rfl⟩
  | _ => simp [Phase.left] at h

variable {ι : Type} [DecidableEq ι]

variable (fold) in
theorem left_le (root : Path) (ups : ι → Upload) (i : ι) (s : System ι) (ops : List (ι × Turn)) :
    ((final (turn fold root ups) s ops).phase i).left (ups i) ≤
      (s.phase i).left (ups i) - ops.countP fun op => op.1 = i := by
  induction ops generalizing s with
  | nil => simp
  | cons op ops ih =>
    have hrest := ih (turn fold root ups s op).1
    rw [final_cons]
    by_cases hi : op.1 = i
    · have hstep := advance_left fold root (ups i) op.2 s.mount (s.phase i)
      rw [← hi] at hstep hrest ⊢
      rw [turn_self] at hrest
      rw [List.countP_cons_of_pos (by simp)]
      omega
    · rw [turn_other s (Ne.symm hi)] at hrest
      rw [List.countP_cons_of_neg (by simpa using hi)]
      exact hrest

/-- Whatever the others do and whatever the disk does, an upload has ended after as many of
    its own steps as it has chunks, and six. -/
theorem ended_of_length (root : Path) (ups : ι → Upload) (m : Mount) (i : ι) {ops : List (ι × Turn)}
    (hlen : (ups i).stream.chunks.length + 6 ≤ ops.countP fun op => op.1 = i) :
    ∃ r, (final (turn fold root ups) (System.init m) ops).phase i = .ended r := by
  have hleft := left_le fold root ups i (System.init m) ops
  have hstart : ((System.init m : System ι).phase i).left (ups i) = (ups i).stream.chunks.length + 6 := rfl
  have hzero : ((final (turn fold root ups) (System.init m) ops).phase i).left (ups i) = 0 := by omega
  exact ended_of_left hzero

/-- On a disk that works, an upload that has the mount to itself returns and leaves what
    `storeStream` does. -/
theorem alone_eq_storeStream {cfg : Config} {d : Disk} (hd : d.Works) (root : Path) (ups : ι → Upload) (m : Mount)
    (i : ι) {turns : List Turn} (hworks : ∀ t ∈ turns, t.Works cfg d)
    (hlen : (ups i).stream.chunks.length + 6 ≤ turns.length) :
    let s := final (turn fold root ups) (System.init m) (turns.map fun t => (i, t))
    let stored := storeStream fold cfg d root (ups i).stream (ups i).filename m.folder
    s.phase i = .ended stored.1 ∧ ∀ q, s.mount.folder.lookup q = stored.2.lookup q := by
  intro s stored
  obtain ⟨houtcome, -⟩ : outcome fold cfg d root (ups i) s.mount (s.phase i) = (stored.1, fun q => stored.2.lookup q) ∧
      Ready fold s.mount (s.phase i) := by
    have hstart : outcome fold cfg d root (ups i) m .waiting = (stored.1, fun q => stored.2.lookup q) ∧
        Ready fold m .waiting := ⟨rfl, trivial⟩
    refine final_inv (I := fun s : System ι => outcome fold cfg d root (ups i) s.mount (s.phase i) =
        (stored.1, fun q => stored.2.lookup q) ∧ Ready fold s.mount (s.phase i))
      (C := fun _ op => op.1 = i ∧ op.2.Works cfg d) (fun s op h hop => ?_) hstart
      (meets_of_ops _ fun op hop _ => ?_)
    · obtain ⟨rfl, ht⟩ := hop
      rw [turn_self, turn_mount]
      obtain ⟨hsame, hready⟩ := advance_outcome hd ht h.2
      exact ⟨hsame.trans h.1, hready⟩
    · obtain ⟨t, ht, rfl⟩ := List.mem_map.mp hop
      exact ⟨rfl, hworks t ht⟩
  obtain ⟨r, hended⟩ : ∃ r, s.phase i = .ended r := by
    refine ended_of_length root ups m i ?_
    rw [List.countP_map, List.countP_eq_length.mpr fun t _ => by simp]
    exact hlen
  rw [hended] at houtcome ⊢
  have hresult : r = stored.1 := congrArg Prod.fst houtcome
  exact ⟨by rw [hresult], congrFun (congrArg Prod.snd houtcome)⟩

end CoreHeartbeat.Uploads
