/-
  CoreHeartbeat.Uploads.AllOrNothing — what an upload that runs alone does to the folder.

  The bytes go to a partial file whose name is the target's with `.part` after it. The target is
  chosen free; whether there is anything under the partial name is not looked at, so a file of
  that name is emptied, and then renamed or deleted. A cancelled stream and a failing rename
  leave the partial file where it is.

  The folder may hold anything under any names, the stream may deliver any chunks and end with
  any exception or be cancelled, and each call to the disk can fail: the open, a write, the
  close, the rename, the unlink of a cleanup. The condition is on the state before and on what
  fails (`PartKept`), never on what the upload makes of it: `leaves` says which partial file is
  still there at the end, from the stream and the faults alone.

  Proved:
  - `transfer_complete`: a transfer that raised nothing delivered the chunks, within the cap.
  - `unopened_iff`, `cleaned_lookup`, `renamed_iff`: the ends an upload can come to.
  - `all_or_nothing_iff`: an upload adds the one file it names or changes nothing if and only if
    what it leaves under the partial name is what was there.
  - `an_earlier_part_file_is_lost`: an upload of `song.mp3` returns, and the file
    `song.mp3.part` is gone.
-/

import CoreHeartbeat.Uploads.Store

namespace CoreHeartbeat.Uploads

open Posix

variable (fold : String → String)

/-- The upload that returns added the file it names, whole and within the cap; the one that
    raises changed nothing. -/
def AllOrNothing (cfg : Config) (stream : Stream) (f : Folder) : Except Raised Stored × Folder → Prop
  | (.ok r, f') =>
    f.lookup (fold r.storedAs) = none ∧
      f'.lookup (fold r.storedAs) = some ⟨r.storedAs, .file (concat stream.chunks)⟩ ∧
      r.sizeBytes = (concat stream.chunks).size ∧ r.sizeBytes ≤ cfg.maxUploadBytes ∧
      ∀ q, q ≠ fold r.storedAs → f'.lookup q = f.lookup q
  | (.error _, f') => ∀ q, f'.lookup q = f.lookup q

/-- The partial file that is still there after a transfer that ended so: when the stream was
    cancelled, the rename failed, or a cleanup could not delete it. -/
def leftBy (d : Disk) (data : ByteArray) (written : Nat) : Option Raised → Option ByteArray
  | some (.base _) => some data
  | some _ => if d.unlinks then none else some data
  | none =>
    if written = 0 then (if d.unlinks then none else some data)
    else if d.renameFault.isSome then some data
    else none

/-- The partial file that is still there at the end: of chunks that were delivered whole, by
    the stream's end, and of others when a cleanup could not delete it. -/
def leaves (cfg : Config) (d : Disk) (stream : Stream) : Option ByteArray :=
  if Delivered cfg.maxUploadBytes d stream.chunks ∧ d.closeFault.isNone then
    leftBy d (concat stream.chunks) (concat stream.chunks).size stream.raises
  else if d.unlinks then none
  else some (transfer cfg.maxUploadBytes d stream).1

/-- What is left under the partial name is what was there: no file that a cleanup deletes
    unopened, and otherwise what the upload leaves. -/
def PartKept (d : Disk) (left : Option ByteArray) (f : Folder) (part : String) : Prop :=
  let held := (Folder.get fold f part).map (·.entry)
  match openPart fold d f part with
  | .error _ => d.unlinks = true → ∀ data, held ≠ some (.file data)
  | .ok _ => held = left.map .file

/-- The upload is refused before the open, or keeps what is under the partial name. -/
def KeepsPart (cfg : Config) (d : Disk) (root : Path) (stream : Stream) (filename : String) (f : Folder) : Prop :=
  match prepare fold cfg d root filename f with
  | .error _ => True
  | .ok (_, _, target) => PartKept fold d (leaves cfg d stream) f (target ++ partSuffix)

/-! ## The ways an upload ends -/

theorem leaves_of_transfer {cfg : Config} {d : Disk} {stream : Stream} {data : ByteArray} {written : Nat}
    {raised : Option Raised} (h : transfer cfg.maxUploadBytes d stream = (data, written, raised)) :
    leaves cfg d stream = leftBy d data written raised := by
  unfold leaves
  by_cases hd : Delivered cfg.maxUploadBytes d stream.chunks ∧ d.closeFault = none
  · rw [transfer_delivered hd.1 hd.2] at h
    obtain ⟨rfl, rfl, rfl⟩ :
        concat stream.chunks = data ∧ (concat stream.chunks).size = written ∧ stream.raises = raised := by
      simpa using h
    rw [if_pos ⟨hd.1, by rw [hd.2]; rfl⟩]
  · have hraised := transfer_undelivered hd
    rw [if_neg (by simpa using hd), h]
    rw [h] at hraised
    -- an undelivered transfer ends in one of the two exceptions that are cleaned up after
    rcases hraised with ⟨e, rfl⟩ | ⟨exc, rfl⟩ <;> rfl

section Opened

variable {fold} {d : Disk} {f f₁ : Folder} {part name : String}

/-- A folder that differs at the partial name alone is the old one when that is kept. -/
theorem unchanged_iff_partKept (hopen : openPart fold d f part = .ok f₁)
    (hheld : f.lookup (fold part) = none ∨ ∃ old, f.lookup (fold part) = some ⟨name, .file old⟩) {f' : Folder}
    {left : Option ByteArray}
    (h : ∀ q, f'.lookup q = if q = fold part then left.map (fun data => ⟨name, .file data⟩) else f.lookup q) :
    (∀ q, f'.lookup q = f.lookup q) ↔ PartKept fold d left f part := by
  rw [unchanged_iff h]
  unfold PartKept Folder.get
  rw [hopen]
  dsimp only
  rcases hheld with hnone | ⟨old, hold⟩
  · rw [hnone]
    cases left <;> simp
  · rw [hold]
    cases left <;> simp

/-- Cleaned up, or left because it cannot be deleted. -/
theorem cleaned_lookup {data : ByteArray}
    (hclosed : ∀ q, (closePart fold f₁ part data).lookup q = if q = fold part then some ⟨name, .file data⟩ else f.lookup q)
    (q : String) :
    (unlinkQuietly fold d (closePart fold f₁ part data) part).lookup q =
      if q = fold part then (if d.unlinks then none else some data).map (fun data => ⟨name, .file data⟩)
      else f.lookup q := by
  rw [unlinkQuietly_lookup fold ((hclosed _).trans (if_pos rfl)), hclosed]
  cases d.unlinks with
  | false => simp
  | true => by_cases hq : q = fold part <;> simp [hq]

/-- Renamed onto its target. -/
theorem renamed_lookup {data : ByteArray} {target : String}
    (hclosed : ∀ q, (closePart fold f₁ part data).lookup q = if q = fold part then some ⟨name, .file data⟩ else f.lookup q)
    (q : String) :
    (rename fold (closePart fold f₁ part data) part target).lookup q =
      if q = fold target then some ⟨target, .file data⟩ else if q = fold part then none else f.lookup q := by
  rw [rename_lookup fold ((hclosed _).trans (if_pos rfl)), hclosed]
  by_cases hq : q = fold part <;> simp [hq]

/-- Nothing was under the partial name. -/
theorem partKept_none (hopen : openPart fold d f part = .ok f₁) :
    PartKept fold d none f part ↔ f.lookup (fold part) = none := by
  unfold PartKept Folder.get
  rw [hopen]
  simp

end Opened

/-- The file could not be opened: a cleanup deletes the one that was there. -/
theorem unopened_iff {d : Disk} {f : Folder} {part exc : String} (hopen : openPart fold d f part = .error exc)
    (left : Option ByteArray) :
    (∀ q, (unlinkQuietly fold d f part).lookup q = f.lookup q) ↔ PartKept fold d left f part := by
  unfold PartKept
  rw [hopen]
  dsimp only
  cases hheld : f.lookup (fold part) with
  | none =>
    simp [unlinkQuietly, Folder.get, hheld]
  | some item =>
    obtain ⟨name, _ | _⟩ := item
    · rename_i data
      have hlookup : ∀ q, (unlinkQuietly fold d f part).lookup q =
          if q = fold part then (if d.unlinks then none else some ⟨name, .file data⟩) else f.lookup q := by
        intro q
        rw [unlinkQuietly_lookup fold hheld]
        by_cases hq : q = fold part
        · rw [hq, hheld]; cases d.unlinks <;> simp
        · simp [hq]
      rw [unchanged_iff hlookup, hheld]
      cases d.unlinks <;> simp [Folder.get, hheld]
    · simp [unlinkQuietly, Folder.get, hheld]

/-- A transfer that raised nothing delivered the chunks, within the cap. -/
theorem transfer_complete {cap : Int} {d : Disk} {stream : Stream} {data : ByteArray} {written : Nat}
    (h : transfer cap d stream = (data, written, none)) (hzero : written ≠ 0) :
    data = concat stream.chunks ∧ written = (concat stream.chunks).size ∧ written ≤ cap := by
  by_cases hd : Delivered cap d stream.chunks ∧ d.closeFault = none
  · obtain ⟨-, hbound⟩ := hd.1
    rw [transfer_delivered hd.1 hd.2] at h
    obtain ⟨rfl, rfl, -⟩ :
        concat stream.chunks = data ∧ (concat stream.chunks).size = written ∧ stream.raises = none := by
      simpa using h
    refine ⟨rfl, rfl, ?_⟩
    omega
  · have hraised := transfer_undelivered hd
    rw [h] at hraised
    rcases hraised with ⟨e, he⟩ | ⟨exc, he⟩ <;> cases he

/-- The file was stored, and perhaps taken away again: all is as it should be when nothing
    was under the partial name. -/
theorem renamed_iff {cfg : Config} {d : Disk} {stream : Stream} {f f₁ f' : Folder} {data : ByteArray} {written : Nat}
    {part target filename name : String} {rewritten : Bool} (hopen : openPart fold d f part = .ok f₁)
    (htrans : transfer cfg.maxUploadBytes d stream = (data, written, none)) (hzero : written ≠ 0)
    (hfree : f.lookup (fold target) = none)
    (h : ∀ q, f'.lookup q =
      if q = fold target then some ⟨target, .file data⟩ else if q = fold part then none else f.lookup q) :
    AllOrNothing fold cfg stream f
      (if d.quarantined then
        (.error (.upload ⟨502, "file was stored but immediately removed by Windows Defender"⟩), f'.erase (fold target))
      else
        (.ok { storedAs := target, originalName := filename, rewritten := rewritten || target ≠ name,
               sizeBytes := written, windowsPath := "C:\\Users\\MMGlobal\\Uploads\\" ++ target }, f')) ↔
      PartKept fold d none f part := by
  rw [partKept_none hopen]
  obtain ⟨hdata, hwritten, hbound⟩ := transfer_complete htrans hzero
  have hother : ∀ q, q ≠ fold target → f'.lookup q = if q = fold part then none else f.lookup q := fun q hq => by
    rw [h, if_neg hq]
  cases d.quarantined with
  | true =>
    rw [if_pos rfl]
    have hlookup : ∀ q, (f'.erase (fold target)).lookup q = if q = fold part then none else f.lookup q := by
      intro q
      by_cases hq : q = fold target
      · rw [hq, AList.lookup_erase, hfree, ite_self]
      · rw [AList.lookup_erase_ne hq, hother q hq]
    exact unchanged_iff hlookup
  | false =>
    rw [if_neg Bool.false_ne_true]
    refine ⟨?_, ?_⟩
    · intro h
      obtain ⟨-, -, -, -, hrest⟩ := h
      by_cases hp : fold part = fold target
      · rw [hp]; exact hfree
      · rw [← hrest _ hp, hother _ hp, if_pos rfl]
    · intro hnone
      refine ⟨hfree, ?_, hwritten, hbound, fun q hq => ?_⟩
      · rw [h, if_pos rfl, hdata]
      · rw [hother q hq]
        split
        · rename_i hp; rw [hp, hnone]
        · rfl

/-- For every folder, file name, stream and disk: an upload that runs alone adds the one
    file it names or changes nothing, if and only if it keeps what is under the partial
    name. -/
theorem all_or_nothing_iff (cfg : Config) (d : Disk) (root : Path) (stream : Stream) (filename : String) (f : Folder) :
    AllOrNothing fold cfg stream f (storeStream fold cfg d root stream filename f) ↔
      KeepsPart fold cfg d root stream filename f := by
  unfold storeStream KeepsPart
  rcases hprep : prepare fold cfg d root filename f with e | ⟨hardened, rewritten, target⟩
  · simp [AllOrNothing]
  · have hfree := (prepare_target fold hprep).2.2
    dsimp only
    rcases hopen : openPart fold d f (target ++ partSuffix) with exc | f₁
    · exact unopened_iff fold hopen _
    · rcases htrans : transfer cfg.maxUploadBytes d stream with ⟨data, written, raised⟩
      obtain ⟨name, -, hheld, hclosed⟩ := closePart_lookup fold hopen data
      rw [leaves_of_transfer htrans]
      unfold leftBy
      dsimp only
      rcases raised with _ | e | exc | exc
      · dsimp only
        by_cases hzero : written = 0
        · rw [if_pos hzero, if_pos hzero]
          exact unchanged_iff_partKept hopen hheld (cleaned_lookup hclosed)
        · rw [if_neg hzero, if_neg hzero]
          cases hfault : d.renameFault with
          | some exc => exact unchanged_iff_partKept hopen hheld hclosed
          | none => exact renamed_iff fold hopen htrans hzero hfree (renamed_lookup hclosed)
      · exact unchanged_iff_partKept hopen hheld (cleaned_lookup hclosed)
      · exact unchanged_iff_partKept hopen hheld (cleaned_lookup hclosed)
      · exact unchanged_iff_partKept hopen hheld hclosed

/-- The folder with its sentinel and a file whose name ends in the partial suffix. -/
def withPart : Folder :=
  ((∅ : Folder).insert sentinel ⟨sentinel, .file "test root".toUTF8⟩).insert "song.mp3.part"
    ⟨"song.mp3.part", .file "first half".toUTF8⟩

/-- An upload of `song.mp3` returns, and the file `song.mp3.part` is gone. -/
theorem an_earlier_part_file_is_lost :
    ¬ AllOrNothing id {} ⟨["la la".toUTF8], none⟩ withPart
      (storeStream id {} {} ["uploads", "data"] ⟨["la la".toUTF8], none⟩ "song.mp3" withPart) := by
  intro h
  obtain ⟨-, -, -, -, hrest⟩ := h
  have hpart := congrArg Option.isSome (hrest "song.mp3.part" (by decide +kernel))
  revert hpart
  decide +kernel

end CoreHeartbeat.Uploads
