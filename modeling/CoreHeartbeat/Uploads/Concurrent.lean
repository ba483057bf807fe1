/-
  CoreHeartbeat.Uploads.Concurrent — uploads that run at once (`store_stream` of
  `services/uploads.py`, from await to await).

  Between two awaits nothing else of the program runs: the search for a free name is one step,
  and so are the open, each write, the close, the rename and the look at the result. The bytes
  go through the open file, a buffer and an inode, whatever its name has come to stand for. Each
  step can fail, or be cancelled while it is waited for (`Turn`). The name is looked for long
  before it is taken, and the partial file is made under a name that is not looked at.

  Any number of uploads take their steps in any order on one mount, which compares names through
  a folding of its own. An upload uses two names, its target and its partial file, from the step
  that picks them on. The condition on a run (`PicksApart`) is about that step alone: it picks
  none that another one uses at that moment.

  Proved:
  - `advance_holds`, `advance_elsewhere`: an upload keeps what it has written under the names it
    uses, and touches nothing under others.
  - `turn_apart`: a step keeps every upload's files and the names apart.
  - `apart_uploads_stored`: over any interleaving in which no upload picks a name that another
    uses, each one that returned has its file, with its bytes, and all of them under names of
    their own (`apart_uploads_stored_two`).
  - `two_uploads_take_one_name`: both look before either has taken it; the second file replaces
    the first, and both report it.
-/

import CoreHeartbeat.Lib.Inodes
import CoreHeartbeat.Lib.Machine
import CoreHeartbeat.Uploads.Store

namespace CoreHeartbeat.Uploads

open Posix Machine Inodes

/-- The folder as the mount keeps it: names by their folded spelling, and the bytes of each
    inode. -/
abbrev Mount := Dir String String ByteArray

def Mount.item (m : Mount) (link : String × Link) : Item :=
  ⟨link.1, match link.2 with
    | .dir => .dir
    | .file i => .file (m.content i)⟩

def Mount.folder (m : Mount) : Folder where
  entries := m.links.entries.map fun e => ⟨e.1, m.item e.2⟩
  nodupKeys := by
    have hkeys : (m.links.entries.map fun e => (⟨e.1, m.item e.2⟩ : Σ _ : String, Item)).map Sigma.fst =
        m.links.entries.map Sigma.fst := by
      rw [List.map_map]
      rfl
    unfold List.NodupKeys List.keys
    rw [hkeys]
    exact m.links.nodupKeys

/-! ## One upload -/

structure Upload where
  filename : String
  stream : Stream

/-- What a step meets: the settings and the free space at the check; for a call to the disk
    what it raises, how many of the buffered bytes it passes on, whether the scanner takes
    the file; and whether the task is cancelled while it waits. -/
structure Turn where
  cfg : Config := {}
  free : Option Int := none
  fault : Option String := none
  flushed : Nat := 0
  quarantined : Bool := false
  cancelled : Bool := false

structure Picked where
  name : String
  rewritten : Bool
  target : String
  cap : Int

/-- `target.with_name(target.name + PART_SUFFIX)`. -/
def Picked.part (p : Picked) : String := p.target ++ partSuffix

/-- An open file: its inode, the place in it, and the bytes that are still buffered. -/
structure Handle where
  inode : Nat
  offset : Nat
  pending : ByteArray

inductive Phase where
  | waiting
  | opening (p : Picked)
  | writing (p : Picked) (h : Handle) (chunks : List ByteArray) (written : Nat)
  | closing (p : Picked) (h : Handle) (written : Nat) (raised : Option Raised)
  | cleaning (p : Picked) (e : Raised)
  | replacing (p : Picked) (written : Nat)
  | checking (p : Picked) (written : Nat)
  | ended (r : Except Raised Stored)

def cancelledError : Raised := .base "CancelledError"

def writeFailed (exc : String) : Raised := .upload ⟨500, "write failed: " ++ exc⟩

def zeros (n : Nat) : ByteArray := ⟨Array.replicate n 0⟩

/-- `data` at a place in a file, which is filled up with zeros to it. -/
def writeAt (old : ByteArray) (offset : Nat) (data : ByteArray) : ByteArray :=
  if data.size = 0 then old
  else old.extract 0 offset ++ zeros (offset - old.size) ++ data ++ old.extract (offset + data.size) old.size

/-- `n` of the buffered bytes go to the file. -/
def flush (m : Mount) (h : Handle) (n : Nat) : Mount × Handle :=
  let out := h.pending.extract 0 n
  (m.write h.inode (writeAt (m.content h.inode) h.offset out),
    ⟨h.inode, h.offset + out.size, h.pending.extract n h.pending.size⟩)

variable (fold : String → String)

def stepCheck (root : Path) (up : Upload) (t : Turn) (m : Mount) : Mount × Phase :=
  match prepare fold t.cfg { free := t.free } root up.filename m.folder with
  | .error e => (m, .ended (.error (.upload e)))
  | .ok (name, rewritten, target) => (m, .opening ⟨name, rewritten, target, t.cfg.maxUploadBytes⟩)

/-- `open(part, "wb")`: the file's inode, emptied or new, unless it raises. -/
def openInode (t : Turn) (m : Mount) (part : String) : Mount × Except String Nat :=
  match m.links.lookup (fold part) with
  | some (_, .dir) => (m, .error "IsADirectoryError")
  | some (_, .file i) =>
    match t.fault with
    | some exc => (m, .error exc)
    | none => (m.write i ByteArray.empty, .ok i)
  | none =>
    match t.fault with
    | some exc => (m, .error exc)
    | none => (m.create (fold part) part ByteArray.empty, .ok m.next)

def stepOpen (up : Upload) (t : Turn) (m : Mount) (p : Picked) : Mount × Phase :=
  let (m, opened) := openInode fold t m p.part
  if t.cancelled then (m, .ended (.error cancelledError))
  else
    match opened with
    | .error exc => (m, .cleaning p (writeFailed exc))
    | .ok i => (m, .writing p ⟨i, 0, ByteArray.empty⟩ up.stream.chunks 0)

def stepWrite (up : Upload) (t : Turn) (m : Mount) (p : Picked) (h : Handle) (written : Nat) :
    List ByteArray → Mount × Phase
  | [] => (m, .closing p h written up.stream.raises)
  | chunk :: chunks =>
    if chunk.size = 0 then (m, .writing p h chunks written)
    else if p.cap < (written + chunk.size : Nat) then
      (m, .closing p h (written + chunk.size)
        (some (.upload ⟨413, "file exceeds the " ++ toString (p.cap / (1024 * 1024)) ++ " MB limit"⟩)))
    else
      let (m, h) := flush m { h with pending := h.pending ++ chunk } t.flushed
      if t.cancelled then (m, .closing p h (written + chunk.size) (some cancelledError))
      else
        match t.fault with
        | some exc => (m, .closing p h (written + chunk.size) (some (.exception exc)))
        | none => (m, .writing p h chunks (written + chunk.size))

/-- The close passes on all that is buffered, unless it raises; an exception of its own takes
    the place of the one before it. -/
def stepClose (t : Turn) (m : Mount) (p : Picked) (h : Handle) (written : Nat) (raised : Option Raised) :
    Mount × Phase :=
  let (m, raised) : Mount × Option Raised :=
    match t.fault with
    | some exc => ((flush m h t.flushed).1, some (.exception exc))
    | none => ((flush m h h.pending.size).1, raised)
  if t.cancelled then (m, .ended (.error cancelledError))
  else
    match raised with
    | some (.upload e) => (m, .cleaning p (.upload e))
    | some (.exception exc) => (m, .cleaning p (writeFailed exc))
    | some (.base exc) => (m, .ended (.error (.base exc)))
    | none => if written = 0 then (m, .cleaning p (.upload ⟨400, "empty file"⟩)) else (m, .replacing p written)

def stepClean (t : Turn) (m : Mount) (p : Picked) (e : Raised) : Mount × Phase :=
  let m := match m.links.lookup (fold p.part), t.fault with
    | some (_, .file _), none => m.unlink (fold p.part)
    | _, _ => m
  (m, .ended (.error (if t.cancelled then cancelledError else e)))

/-- `os.replace(part, target)`: what it raises, if anything. -/
def renameFault (t : Turn) (m : Mount) (p : Picked) : Option String :=
  match m.links.lookup (fold p.part), m.links.lookup (fold p.target) with
  | none, _ => some "FileNotFoundError"
  | some (_, .file _), some (_, .dir) => some "IsADirectoryError"
  | some (_, .dir), some (_, .file _) => some "NotADirectoryError"
  | _, _ => t.fault

def stepRename (t : Turn) (m : Mount) (p : Picked) (written : Nat) : Mount × Phase :=
  match renameFault fold t m p with
  | some exc => (m, .ended (.error (if t.cancelled then cancelledError else .exception exc)))
  | none =>
    (m.rename (fold p.part) (fold p.target) p.target,
      if t.cancelled then .ended (.error cancelledError) else .checking p written)

def stored (up : Upload) (p : Picked) (written : Nat) : Stored :=
  { storedAs := p.target, originalName := up.filename, rewritten := p.rewritten || p.target ≠ p.name,
    sizeBytes := written, windowsPath := "C:\\Users\\MMGlobal\\Uploads\\" ++ p.target }

def stepExists (up : Upload) (t : Turn) (m : Mount) (p : Picked) (written : Nat) : Mount × Phase :=
  let m := if t.quarantined then m.unlink (fold p.target) else m
  (m, .ended (
    if t.cancelled then .error cancelledError
    else
      match t.fault with
      | some exc => .error (.exception exc)
      | none =>
        if (m.links.lookup (fold p.target)).isSome then .ok (stored up p written)
        else .error (.upload ⟨502, "file was stored but immediately removed by Windows Defender"⟩)))

/-- `store_stream`, from one await to the next. -/
def advance (root : Path) (up : Upload) (t : Turn) (m : Mount) : Phase → Mount × Phase
  | .waiting => stepCheck fold root up t m
  | .opening p => stepOpen fold up t m p
  | .writing p h chunks written => stepWrite up t m p h written chunks
  | .closing p h written raised => stepClose t m p h written raised
  | .cleaning p e => stepClean fold t m p e
  | .replacing p written => stepRename fold t m p written
  | .checking p written => stepExists fold up t m p written
  | .ended r => (m, .ended r)

/-! ## Many of them -/

structure System (ι : Type) where
  mount : Mount
  phase : ι → Phase

variable {ι : Type}

def turn [DecidableEq ι] (root : Path) (ups : ι → Upload) (s : System ι) (op : ι × Turn) : System ι × Unit :=
  let (m, ph) := advance fold root (ups op.1) op.2 s.mount (s.phase op.1)
  (⟨m, Function.update s.phase op.1 ph⟩, ())

def System.init (m : Mount) : System ι := ⟨m, fun _ => .waiting⟩

/-- The names an upload uses: its target and its partial file, then the file it stored. -/
def Phase.uses : Phase → List String
  | .waiting => []
  | .opening p => [p.target, p.part]
  | .writing p _ _ _ => [p.target, p.part]
  | .closing p _ _ _ => [p.target, p.part]
  | .cleaning p _ => [p.target, p.part]
  | .replacing p _ => [p.target, p.part]
  | .checking p _ => [p.target]
  | .ended (.ok r) => [r.storedAs]
  | .ended (.error _) => []

/-- The target that the next step of an upload settles, if that is its check. -/
def picks (root : Path) (up : Upload) (t : Turn) (m : Mount) : Phase → Option String
  | .waiting => (prepare fold t.cfg { free := t.free } root up.filename m.folder).toOption.map (·.2.2)
  | _ => none

/-- An upload that picks its name picks none that another one uses, for its target or for its
    partial file. -/
def PicksApart (root : Path) (ups : ι → Upload) (s : System ι) (op : ι × Turn) : Prop :=
  ∀ target, picks fold root (ups op.1) op.2 s.mount (s.phase op.1) = some target →
    ∀ j, j ≠ op.1 → ∀ n ∈ (s.phase j).uses, fold target ≠ fold n ∧ fold (target ++ partSuffix) ≠ fold n

def Phase.returned : Phase → Option Stored
  | .ended (.ok r) => some r
  | _ => none

/-- Every upload that returned has its file, under the name it reported and with its bytes,
    and no two of them have one name. -/
def NoneCorrupted (ups : ι → Upload) (s : System ι) : Prop :=
  (∀ i r, (s.phase i).returned = some r →
      s.mount.folder.lookup (fold r.storedAs) = some ⟨r.storedAs, .file (concat (ups i).stream.chunks)⟩) ∧
    ∀ i j r r', i ≠ j → (s.phase i).returned = some r → (s.phase j).returned = some r' →
      fold r.storedAs ≠ fold r'.storedAs

/-! ## The bytes of an open file -/

/-- At the end of a file the bytes are added to it. -/
theorem writeAt_end (old data : ByteArray) : writeAt old old.size data = old ++ data := by
  unfold writeAt
  split
  · rename_i hsize
    rw [ByteArray.size_eq_zero_iff.mp hsize, ByteArray.append_empty]
  · have hzeros : zeros (old.size - old.size) = ByteArray.empty := by
      rw [Nat.sub_self]
      rfl
    have hrest : old.extract (old.size + data.size) old.size = ByteArray.empty := by
      rw [ByteArray.extract_eq_empty_iff, Nat.min_self]
      omega
    rw [ByteArray.extract_zero_size, hzeros, hrest, ByteArray.append_empty, ByteArray.append_empty]

def Handle.all (m : Mount) (h : Handle) : ByteArray := m.content h.inode ++ h.pending

def Handle.AtEnd (m : Mount) (h : Handle) : Prop := h.offset = (m.content h.inode).size

theorem flush_content {m : Mount} {h : Handle} (hend : h.AtEnd m) (n : Nat) :
    (flush m h n).1.content h.inode = m.content h.inode ++ h.pending.extract 0 n := by
  unfold flush
  dsimp only
  rw [hend, writeAt_end]
  exact Dir.write_content

/-- Passing on buffered bytes moves them, in their order. -/
theorem flush_all {m : Mount} {h : Handle} (hend : h.AtEnd m) (n : Nat) :
    (flush m h n).2.all (flush m h n).1 = h.all m := by
  have hsplit : h.pending.extract 0 n ++ h.pending.extract n h.pending.size = h.pending := by
    rw [ByteArray.extract_append_extract, Nat.zero_min, ByteArray.extract_zero_max_size]
  unfold Handle.all
  show (flush m h n).1.content h.inode ++ h.pending.extract n h.pending.size = _
  rw [flush_content hend, ByteArray.append_assoc, hsplit]

theorem flush_atEnd {m : Mount} {h : Handle} (hend : h.AtEnd m) (n : Nat) :
    (flush m h n).2.AtEnd (flush m h n).1 := by
  unfold Handle.AtEnd
  show h.offset + (h.pending.extract 0 n).size = ((flush m h n).1.content h.inode).size
  rw [flush_content hend, ByteArray.size_append, hend]

/-- All that is buffered is passed on. -/
theorem flush_rest {m : Mount} {h : Handle} (hend : h.AtEnd m) :
    (flush m h h.pending.size).1.content h.inode = h.all m := by
  rw [flush_content hend, ByteArray.extract_zero_size]
  rfl

/-! ## What an upload has on the mount -/

def StoredAs (m : Mount) (name : String) (data : ByteArray) : Prop :=
  ∃ i, m.links.lookup (fold name) = some (name, .file i) ∧ m.content i = data

def Opened (m : Mount) (p : Picked) (h : Handle) : Prop :=
  (∃ name, m.links.lookup (fold p.part) = some (name, .file h.inode)) ∧ h.AtEnd m

/-- Between its steps an upload has this on the mount: what it has written so far in its
    partial file, all of it once there is no more to come, and then under its target. -/
def Holds (m : Mount) (up : Upload) : Phase → Prop
  | .waiting => True
  | .opening _ => True
  | .writing p h chunks _ => Opened fold m p h ∧ h.all m ++ concat chunks = concat up.stream.chunks
  | .closing p h _ raised => Opened fold m p h ∧ (raised = none → h.all m = concat up.stream.chunks)
  | .cleaning _ _ => True
  | .replacing p _ =>
    ∃ name i, m.links.lookup (fold p.part) = some (name, .file i) ∧ m.content i = concat up.stream.chunks
  | .checking p _ => StoredAs fold m p.target (concat up.stream.chunks)
  | .ended (.ok r) => StoredAs fold m r.storedAs (concat up.stream.chunks)
  | .ended (.error _) => True

variable {fold}

theorem opened_flush {m : Mount} {p : Picked} {h : Handle} (hopen : Opened fold m p h) (n : Nat) :
    Opened fold (flush m h n).1 p (flush m h n).2 :=
  ⟨hopen.1, flush_atEnd hopen.2 n⟩

theorem stepOpen_holds {up : Upload} {t : Turn} {m : Mount} {p : Picked} :
    Holds fold (stepOpen fold up t m p).1 up (stepOpen fold up t m p).2 := by
  have hinode : ∀ i, (openInode fold t m p.part).2 = .ok i →
      (∃ name, (openInode fold t m p.part).1.links.lookup (fold p.part) = some (name, .file i)) ∧
        (openInode fold t m p.part).1.content i = ByteArray.empty := by
    intro i hi
    unfold openInode at hi ⊢
    split at hi
    · cases hi
    · rename_i name j hlink
      split at hi
      · cases hi
      · obtain rfl := Except.ok.inj hi
        exact ⟨⟨name, hlink⟩, Dir.write_content⟩
    · split at hi
      · cases hi
      · obtain rfl := Except.ok.inj hi
        exact ⟨⟨p.part, Dir.create_lookup⟩, Dir.create_content⟩
  unfold stepOpen
  dsimp only
  split
  · trivial
  · split
    · trivial
    · rename_i i hi
      obtain ⟨hlink, hempty⟩ := hinode i hi
      refine ⟨⟨hlink, ?_⟩, ?_⟩
      · unfold Handle.AtEnd
        rw [hempty]
        rfl
      · unfold Handle.all
        rw [hempty, ByteArray.append_empty, ByteArray.empty_append]

theorem stepWrite_holds {up : Upload} {t : Turn} {m : Mount} {p : Picked} {h : Handle} {chunks : List ByteArray}
    {written : Nat} (hh : Holds fold m up (.writing p h chunks written)) :
    Holds fold (stepWrite up t m p h written chunks).1 up (stepWrite up t m p h written chunks).2 := by
  obtain ⟨hopen, hall⟩ := hh
  cases chunks with
  | nil =>
    refine ⟨hopen, fun _ => ?_⟩
    rwa [concat, ByteArray.append_empty] at hall
  | cons chunk chunks =>
    simp only [stepWrite]
    split
    · rename_i hsize
      refine ⟨hopen, ?_⟩
      rwa [concat_cons_empty hsize] at hall
    split
    · refine ⟨hopen, fun hnone => ?_⟩
      cases hnone
    have hbuffered : Opened fold m p { h with pending := h.pending ++ chunk } := hopen
    have hflushed := opened_flush hbuffered t.flushed
    split
    · refine ⟨hflushed, fun hnone => ?_⟩
      cases hnone
    split
    · refine ⟨hflushed, fun hnone => ?_⟩
      cases hnone
    · refine ⟨hflushed, ?_⟩
      rw [flush_all hbuffered.2, ← hall]
      simp only [Handle.all, concat, ByteArray.append_assoc]

theorem stepClose_holds {up : Upload} {t : Turn} {m : Mount} {p : Picked} {h : Handle} {written : Nat}
    {raised : Option Raised} (hh : Holds fold m up (.closing p h written raised)) :
    Holds fold (stepClose t m p h written raised).1 up (stepClose t m p h written raised).2 := by
  obtain ⟨⟨⟨name, hlink⟩, hend⟩, hall⟩ := hh
  unfold stepClose
  cases t.fault with
  | some exc =>
    dsimp only
    split <;> trivial
  | none =>
    dsimp only
    split
    · trivial
    · cases raised with
      | some e => cases e <;> trivial
      | none =>
        dsimp only
        split
        · trivial
        · refine ⟨name, h.inode, hlink, ?_⟩
          rw [flush_rest hend, hall rfl]

theorem stepRename_holds {up : Upload} {t : Turn} {m : Mount} {p : Picked} {written : Nat}
    (hh : Holds fold m up (.replacing p written)) :
    Holds fold (stepRename fold t m p written).1 up (stepRename fold t m p written).2 := by
  obtain ⟨name, i, hlink, hall⟩ := hh
  unfold stepRename
  split
  · trivial
  · dsimp only
    split
    · trivial
    · refine ⟨i, Dir.rename_lookup hlink, ?_⟩
      rw [Dir.rename_content]
      exact hall

theorem stepExists_holds {up : Upload} {t : Turn} {m : Mount} {p : Picked} {written : Nat}
    (hh : Holds fold m up (.checking p written)) :
    Holds fold (stepExists fold up t m p written).1 up (stepExists fold up t m p written).2 := by
  unfold stepExists
  cases t.cancelled with
  | true => trivial
  | false =>
    cases t.fault with
    | some exc => trivial
    | none =>
      cases t.quarantined with
      | false =>
        obtain ⟨i, hlink, hall⟩ := hh
        simp only [Bool.false_eq_true, if_false, hlink, Option.isSome_some, if_true]
        exact ⟨i, hlink, hall⟩
      | true =>
        have hgone : (m.unlink (fold p.target)).links.lookup (fold p.target) = none := AList.lookup_erase _ _
        simp only [Bool.false_eq_true, if_false, if_true, hgone, Option.isSome_none]
        trivial

/-- An upload keeps what it has written under the names it uses. -/
theorem advance_holds {root : Path} {up : Upload} {t : Turn} {m : Mount} {ph : Phase} (hh : Holds fold m up ph) :
    Holds fold (advance fold root up t m ph).1 up (advance fold root up t m ph).2 := by
  cases ph with
  | waiting =>
    simp only [advance, stepCheck]
    split <;> trivial
  | opening p => exact stepOpen_holds
  | writing p h chunks written => exact stepWrite_holds hh
  | closing p h written raised => exact stepClose_holds hh
  | cleaning p e => trivial
  | replacing p written => exact stepRename_holds hh
  | checking p written => exact stepExists_holds hh
  | ended r => exact hh

/-! ## What it leaves of the others -/

def Keeps (m m' : Mount) (k : String) : Prop :=
  ∀ name j, m.links.lookup k = some (name, .file j) →
    m'.links.lookup k = some (name, .file j) ∧ m'.content j = m.content j

theorem keeps_refl (m : Mount) (k : String) : Keeps m m k := fun _ _ h => ⟨h, rfl⟩

theorem keeps_write {m : Mount} {k q name : String} {i : Nat} {data : ByteArray}
    (hlink : m.links.lookup q = some (name, .file i)) (hk : k ≠ q) : Keeps m (m.write i data) k :=
  fun _ _ h => ⟨h, Dir.write_elsewhere hlink h hk⟩

theorem openInode_elsewhere {t : Turn} {m : Mount} {part k : String} (hk : k ≠ fold part) :
    Keeps m (openInode fold t m part).1 k := by
  unfold openInode
  split
  · exact keeps_refl m k
  · rename_i name i hlink
    split
    · exact keeps_refl m k
    · exact keeps_write hlink hk
  · split
    · exact keeps_refl m k
    · intro name j h
      exact ⟨(Dir.create_lookup_ne hk).trans h, Dir.create_content_old h⟩

theorem stepOpen_elsewhere {up : Upload} {t : Turn} {m : Mount} {p : Picked} {k : String} (hk : k ≠ fold p.part) :
    Keeps m (stepOpen fold up t m p).1 k := by
  have hmount : (stepOpen fold up t m p).1 = (openInode fold t m p.part).1 := by
    unfold stepOpen
    dsimp only
    split
    · rfl
    · split <;> rfl
  rw [hmount]
  exact openInode_elsewhere hk

theorem flush_elsewhere {m : Mount} {p : Picked} {h : Handle} (hopen : Opened fold m p h) {k : String}
    (hk : k ≠ fold p.part) (n : Nat) : Keeps m (flush m h n).1 k := by
  obtain ⟨⟨name, hlink⟩, -⟩ := hopen
  exact keeps_write hlink hk

theorem stepWrite_elsewhere {up : Upload} {t : Turn} {m : Mount} {p : Picked} {h : Handle} {chunks : List ByteArray}
    {written : Nat} (hopen : Opened fold m p h) {k : String} (hk : k ≠ fold p.part) :
    Keeps m (stepWrite up t m p h written chunks).1 k := by
  cases chunks with
  | nil => exact keeps_refl m k
  | cons chunk chunks =>
    have hbuffered : Opened fold m p { h with pending := h.pending ++ chunk } := hopen
    have hflush := flush_elsewhere hbuffered hk t.flushed
    simp only [stepWrite]
    split
    · exact keeps_refl m k
    split
    · exact keeps_refl m k
    split
    · exact hflush
    · split <;> exact hflush

theorem stepClose_elsewhere {t : Turn} {m : Mount} {p : Picked} {h : Handle} {written : Nat} {raised : Option Raised}
    (hopen : Opened fold m p h) {k : String} (hk : k ≠ fold p.part) :
    Keeps m (stepClose t m p h written raised).1 k := by
  have hmount : ∃ n, (stepClose t m p h written raised).1 = (flush m h n).1 := by
    unfold stepClose
    cases t.fault with
    | some exc =>
      refine ⟨t.flushed, ?_⟩
      dsimp only
      split <;> rfl
    | none =>
      refine ⟨h.pending.size, ?_⟩
      dsimp only
      split
      · rfl
      · split
        · rfl
        · rfl
        · rfl
        · split <;> rfl
  obtain ⟨n, hn⟩ := hmount
  rw [hn]
  exact flush_elsewhere hopen hk n

theorem unlink_elsewhere {m : Mount} {k q : String} (hk : k ≠ q) : Keeps m (m.unlink q) k :=
  fun _ _ h => ⟨(Dir.unlink_lookup_ne hk).trans h, rfl⟩

theorem stepClean_elsewhere {t : Turn} {m : Mount} {p : Picked} {e : Raised} {k : String} (hk : k ≠ fold p.part) :
    Keeps m (stepClean fold t m p e).1 k := by
  unfold stepClean
  dsimp only
  split
  · exact unlink_elsewhere hk
  · exact keeps_refl m k

theorem stepRename_elsewhere {t : Turn} {m : Mount} {p : Picked} {written : Nat} {k : String} (hpart : k ≠ fold p.part)
    (htarget : k ≠ fold p.target) : Keeps m (stepRename fold t m p written).1 k := by
  unfold stepRename
  split
  · exact keeps_refl m k
  · intro name j h
    refine ⟨(Dir.rename_lookup_ne hpart htarget).trans h, ?_⟩
    dsimp only
    rw [Dir.rename_content]

theorem stepExists_elsewhere {up : Upload} {t : Turn} {m : Mount} {p : Picked} {written : Nat} {k : String}
    (hk : k ≠ fold p.target) : Keeps m (stepExists fold up t m p written).1 k := by
  unfold stepExists
  dsimp only
  split
  · exact unlink_elsewhere hk
  · exact keeps_refl m k

/-- An upload touches no file under a name that it does not use. -/
theorem advance_elsewhere {root : Path} {up : Upload} {t : Turn} {m : Mount} {ph : Phase} (hh : Holds fold m up ph)
    {k : String} (hk : ∀ n ∈ ph.uses, k ≠ fold n) : Keeps m (advance fold root up t m ph).1 k := by
  cases ph with
  | waiting =>
    simp only [advance, stepCheck]
    split <;> exact keeps_refl m k
  | opening p => exact stepOpen_elsewhere (hk p.part (by simp [Phase.uses]))
  | writing p h chunks written => exact stepWrite_elsewhere hh.1 (hk p.part (by simp [Phase.uses]))
  | closing p h written raised => exact stepClose_elsewhere hh.1 (hk p.part (by simp [Phase.uses]))
  | cleaning p e => exact stepClean_elsewhere (hk p.part (by simp [Phase.uses]))
  | replacing p written =>
    exact stepRename_elsewhere (hk p.part (by simp [Phase.uses])) (hk p.target (by simp [Phase.uses]))
  | checking p written => exact stepExists_elsewhere (hk p.target (by simp [Phase.uses]))
  | ended r => exact keeps_refl m k

/-- What an upload has on the mount is there as long as its names are kept. -/
theorem holds_of_keeps {m m' : Mount} {up : Upload} {ph : Phase} (hkeep : ∀ n ∈ ph.uses, Keeps m m' (fold n))
    (hh : Holds fold m up ph) : Holds fold m' up ph := by
  have hopened : ∀ {p : Picked} {h : Handle}, Keeps m m' (fold p.part) → Opened fold m p h →
      Opened fold m' p h ∧ h.all m' = h.all m := by
    intro p h hk hopen
    obtain ⟨⟨name, hlink⟩, hend⟩ := hopen
    obtain ⟨hlink', hsame⟩ := hk name h.inode hlink
    refine ⟨⟨⟨name, hlink'⟩, ?_⟩, ?_⟩
    · unfold Handle.AtEnd
      rw [hsame]
      exact hend
    · unfold Handle.all
      rw [hsame]
  have hstored : ∀ {name : String} {data : ByteArray}, Keeps m m' (fold name) → StoredAs fold m name data →
      StoredAs fold m' name data := by
    intro name data hk hstored
    obtain ⟨i, hlink, hdata⟩ := hstored
    obtain ⟨hlink', hsame⟩ := hk name i hlink
    exact ⟨i, hlink', hsame.trans hdata⟩
  cases ph with
  | writing p h chunks written =>
    obtain ⟨hopen, hall⟩ := hopened (hkeep p.part (by simp [Phase.uses])) hh.1
    exact ⟨hopen, by rw [hall]; exact hh.2⟩
  | closing p h written raised =>
    obtain ⟨hopen, hall⟩ := hopened (hkeep p.part (by simp [Phase.uses])) hh.1
    exact ⟨hopen, by rw [hall]; exact hh.2⟩
  | replacing p written =>
    obtain ⟨name, i, hlink, hdata⟩ := hh
    obtain ⟨hlink', hsame⟩ := hkeep p.part (by simp [Phase.uses]) name i hlink
    exact ⟨name, i, hlink', hsame.trans hdata⟩
  | checking p written => exact hstored (hkeep p.target (by simp [Phase.uses])) hh
  | ended r =>
    cases r with
    | ok r => exact hstored (hkeep r.storedAs (by simp [Phase.uses])) hh
    | error e => trivial
  | waiting => trivial
  | opening p => trivial
  | cleaning p e => trivial

/-! ## The names in use -/

/-- After its check an upload comes to use no other names. -/
theorem advance_uses {root : Path} {up : Upload} {t : Turn} {m : Mount} {ph : Phase} (hstarted : ph ≠ .waiting) :
    ∀ n ∈ (advance fold root up t m ph).2.uses, n ∈ ph.uses := by
  have hfailed : ∀ {e : Raised} {names : List String}, ∀ n ∈ (Phase.ended (.error e)).uses, n ∈ names :=
    fun n hn => by cases hn
  cases ph with
  | waiting => exact absurd rfl hstarted
  | opening p =>
    simp only [advance, stepOpen]
    split
    · exact hfailed
    · split <;> exact fun n hn => hn
  | writing p h chunks written =>
    cases chunks with
    | nil => exact fun n hn => hn
    | cons chunk chunks =>
      simp only [advance, stepWrite]
      split
      · exact fun n hn => hn
      split
      · exact fun n hn => hn
      split
      · exact fun n hn => hn
      · split <;> exact fun n hn => hn
  | closing p h written raised =>
    simp only [advance, stepClose]
    split
    · exact hfailed
    · split
      · exact fun n hn => hn
      · exact fun n hn => hn
      · exact hfailed
      · split <;> exact fun n hn => hn
  | cleaning p e => exact hfailed
  | replacing p written =>
    simp only [advance, stepRename]
    split
    · exact hfailed
    · dsimp only
      split
      · exact hfailed
      · exact fun n hn => List.mem_cons.mpr (Or.inl (List.mem_singleton.mp hn))
  | checking p written =>
    simp only [advance, stepExists]
    cases t.cancelled with
    | true => exact hfailed
    | false =>
      cases t.fault with
      | some exc => exact hfailed
      | none =>
        simp only [Bool.false_eq_true, if_false]
        generalize (if t.quarantined = true then m.unlink (fold p.target) else m) = m'
        cases (m'.links.lookup (fold p.target)).isSome with
        | false => exact hfailed
        | true => exact fun n hn => hn
  | ended r => exact fun n hn => hn

/-- The check settles the names in use. -/
theorem check_uses (fold : String → String) (root : Path) (up : Upload) (t : Turn) (m : Mount) :
    (advance fold root up t m .waiting).2.uses = [] ∨
      ∃ target, picks fold root up t m .waiting = some target ∧
        (advance fold root up t m .waiting).2.uses = [target, target ++ partSuffix] := by
  simp only [advance, stepCheck, picks]
  split
  · exact Or.inl rfl
  · rename_i name rewritten target hprep
    refine Or.inr ⟨target, ?_, rfl⟩
    rw [hprep]
    rfl

/-! ## The run -/

variable (fold) in
/-- Every upload has on the mount what it should, and no two use one name. -/
structure Apart (ups : ι → Upload) (s : System ι) : Prop where
  holds : ∀ i, Holds fold s.mount (ups i) (s.phase i)
  disjoint : ∀ i j, i ≠ j → ∀ n ∈ (s.phase i).uses, ∀ n' ∈ (s.phase j).uses, fold n ≠ fold n'

theorem apart_init (fold : String → String) (ups : ι → Upload) (m : Mount) : Apart fold ups (System.init m) where
  holds i := trivial
  disjoint i j _ n hn := by cases hn

variable [DecidableEq ι] {root : Path} {ups : ι → Upload}

theorem turn_self (s : System ι) (op : ι × Turn) :
    (turn fold root ups s op).1.phase op.1 = (advance fold root (ups op.1) op.2 s.mount (s.phase op.1)).2 :=
  Function.update_self ..

theorem turn_other (s : System ι) {op : ι × Turn} {j : ι} (hj : j ≠ op.1) :
    (turn fold root ups s op).1.phase j = s.phase j :=
  Function.update_of_ne hj ..

theorem turn_mount (s : System ι) (op : ι × Turn) :
    (turn fold root ups s op).1.mount = (advance fold root (ups op.1) op.2 s.mount (s.phase op.1)).1 := rfl

/-- The names in use after a step are no other upload's: they were its own before, or it has
    picked them apart. -/
theorem turn_uses {s : System ι} {op : ι × Turn} (h : Apart fold ups s)
    (hapart : PicksApart fold root ups s op) {j : ι} (hj : j ≠ op.1) :
    ∀ n ∈ ((turn fold root ups s op).1.phase op.1).uses, ∀ n' ∈ (s.phase j).uses, fold n ≠ fold n' := by
  intro n hn n' hn'
  rw [turn_self] at hn
  by_cases hwaiting : s.phase op.1 = .waiting
  · rw [hwaiting] at hn
    rcases check_uses fold root (ups op.1) op.2 s.mount with
      hnone | ⟨target, hpick, huses⟩
    · rw [hnone] at hn
      cases hn
    · rw [huses] at hn
      have hpicked := hapart target (by rw [hwaiting]; exact hpick) j hj n' hn'
      rcases List.mem_pair.mp hn with rfl | rfl
      · exact hpicked.1
      · exact hpicked.2
  · exact h.disjoint op.1 j (Ne.symm hj) n (advance_uses hwaiting n hn) n' hn'

theorem turn_apart (s : System ι) (op : ι × Turn) (h : Apart fold ups s)
    (hapart : PicksApart fold root ups s op) : Apart fold ups (turn fold root ups s op).1 where
  holds := by
    intro i
    rw [turn_mount]
    by_cases hi : i = op.1
    · subst hi
      rw [turn_self]
      exact advance_holds (h.holds op.1)
    · rw [turn_other s hi]
      refine holds_of_keeps (fun n hn => advance_elsewhere (h.holds op.1) fun n' hn' => ?_) (h.holds i)
      exact h.disjoint i op.1 hi n hn n' hn'
  disjoint := by
    intro i j hij n hn n' hn'
    by_cases hi : i = op.1
    · subst hi
      rw [turn_other s (Ne.symm hij)] at hn'
      exact turn_uses h hapart (Ne.symm hij) n hn n' hn'
    · rw [turn_other s hi] at hn
      by_cases hj : j = op.1
      · subst hj
        exact Ne.symm (turn_uses h hapart hi n' hn' n hn)
      · rw [turn_other s hj] at hn'
        exact h.disjoint i j hij n hn n' hn'

theorem folder_lookup (m : Mount) (k : String) : m.folder.lookup k = (m.links.lookup k).map m.item := by
  exact @List.dlookup_map₂ String _ (fun _ => String × Link) (fun _ => Item) m.links.entries (fun _ => m.item) k

theorem returned_eq_some {ph : Phase} {r : Stored} (h : ph.returned = some r) : ph = .ended (.ok r) := by
  unfold Phase.returned at h
  split at h
  · rw [Option.some.inj h]
  · cases h

/-- For any number of uploads of any streams under any names, from any folder, and every
    interleaving of their steps, in which each upload that picks its name picks one that no
    other uses, for its target and for its partial file: none is corrupted. -/
theorem apart_uploads_stored (fold : String → String) (root : Path) (ups : ι → Upload) (m : Mount)
    {ops : List (ι × Turn)} (hapart : Meets (turn fold root ups) (PicksApart fold root ups) (System.init m) ops) :
    NoneCorrupted fold ups (final (turn fold root ups) (System.init m) ops) := by
  have hinv := final_inv turn_apart (apart_init fold ups m) hapart
  constructor
  · intro i r hr
    have hstored := hinv.holds i
    rw [returned_eq_some hr] at hstored
    obtain ⟨k, hlink, hdata⟩ := hstored
    rw [folder_lookup, hlink, ← hdata]
    rfl
  · intro i j r r' hij hr hr'
    refine hinv.disjoint i j hij r.storedAs ?_ r'.storedAs ?_
    · rw [returned_eq_some hr]
      exact List.mem_singleton_self _
    · rw [returned_eq_some hr']
      exact List.mem_singleton_self _

/-- Of two uploads the other one is meant. -/
theorem picksApart_two {root : Path} {ups : Bool → Upload} {s : System Bool} {op : Bool × Turn} :
    PicksApart fold root ups s op ↔
      ((picks fold root (ups op.1) op.2 s.mount (s.phase op.1)).toList.all fun target =>
        (s.phase !op.1).uses.all fun n => fold target != fold n && fold (target ++ partSuffix) != fold n) = true := by
  have hother : ∀ j : Bool, j ≠ op.1 ↔ j = !op.1 := by
    intro j
    cases j <;> cases op.1 <;> simp
  simp only [PicksApart, hother, forall_eq, List.all_eq_true, Option.mem_toList, Bool.and_eq_true, bne_iff_ne, ne_eq]

def sentinelMount : Mount where
  links := (∅ : AList fun _ : String => String × Link).insert sentinel (sentinel, .file 0)
  content _ := "test root".toUTF8
  next := 1
  allocated := by
    intro k name i h
    by_cases hk : k = sentinel
    · rw [hk, AList.lookup_insert] at h
      cases h
      exact Nat.one_pos
    · rw [AList.lookup_insert_ne hk] at h
      cases h
  once := by
    intro k k' name name' i h h'
    have hsentinel : ∀ {q : String} {name : String},
        ((∅ : AList fun _ : String => String × Link).insert sentinel (sentinel, .file 0)).lookup q =
          some (name, .file i) → q = sentinel := by
      intro q name hq
      by_contra hne
      rw [AList.lookup_insert_ne hne] at hq
      cases hq
    rw [hsentinel h, hsentinel h']

def notes : Bool → Upload
  | false => ⟨"a.txt", ⟨["first".toUTF8], none⟩⟩
  | true => ⟨"b.txt", ⟨["second".toUTF8], none⟩⟩

/-- Two uploads step by step in turn, under names of their own. -/
theorem apart_uploads_stored_two :
    NoneCorrupted id notes (final (turn id ["uploads", "data"] notes) (System.init sentinelMount)
      ((List.replicate 7 [(false, {}), (true, {})]).flatten)) := by
  refine apart_uploads_stored id ["uploads", "data"] notes sentinelMount fun e he => ?_
  have hall : ((trace (turn id ["uploads", "data"] notes) (System.init sentinelMount)
      (List.replicate 7 [(false, {}), (true, {})]).flatten).all fun e =>
        (picks id ["uploads", "data"] (notes e.op.1) e.op.2 e.pre.mount (e.pre.phase e.op.1)).toList.all fun target =>
          (e.pre.phase !e.op.1).uses.all fun n => id target != id n && id (target ++ partSuffix) != id n) = true := by
    decide +kernel
  exact picksApart_two.mpr (List.all_eq_true.mp hall e he)

def sameName : Bool → Upload
  | false => ⟨"a.txt", ⟨["first".toUTF8], none⟩⟩
  | true => ⟨"a.txt", ⟨["second".toUTF8], none⟩⟩

/-- Both look for the name before either has taken it. -/
def bothLookFirst : List (Bool × Turn) :=
  [(false, ({} : Turn))] ++ List.replicate 7 (true, ({} : Turn)) ++ List.replicate 6 (false, ({} : Turn))

/-- The second file replaces the first, and both uploads report it. -/
theorem two_uploads_take_one_name :
    ¬ ∀ ops : List (Bool × Turn), NoneCorrupted id sameName
      (final (turn id ["uploads", "data"] sameName) (System.init sentinelMount) ops) := by
  intro h
  have hname : ∀ i, ((final (turn id ["uploads", "data"] sameName) (System.init sentinelMount) bothLookFirst).phase
      i).returned.map (·.storedAs) = some "a.txt" := by
    intro i
    cases i
    · decide +kernel
    · decide +kernel
  obtain ⟨r, hr, hrname⟩ := Option.map_eq_some_iff.mp (hname false)
  obtain ⟨r', hr', hrname'⟩ := Option.map_eq_some_iff.mp (hname true)
  exact (h bothLookFirst).2 false true r r' Bool.false_ne_true hr hr' (hrname.trans hrname'.symm)

end CoreHeartbeat.Uploads
