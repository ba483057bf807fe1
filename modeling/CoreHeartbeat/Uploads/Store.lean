/-
  CoreHeartbeat.Uploads.Store — an upload onto the folder (`store_stream` of
  `services/uploads.py`): the guards, the first free name, the bytes into a partial file beside
  it, and the rename.

  The folder's names are compared through `fold`, which is the identity on a case-sensitive
  mount. Every call to the disk can fail (`Disk`), the stream of chunks can end with an
  exception, and the stored file can be taken away by the virus scanner. The settings (the cap,
  the room that has to stay free) come from the environment.

  The function is written in the parts of the source: `prepare` is everything before the open,
  `receive` the loop over the chunks with its count against the cap, `transfer` the `try` around
  it, and the cleanups are the `except` branches in their order. A free name is looked for in a
  series of names with a number before the suffix; a folder is finite, so the series finds one.

  Proved, as the specification of the parts for the modules that follow:
  - `prepare_target`: the file is stored in the folder itself, under a name that was free.
  - `receive_delivered`, `receive_undelivered`: a stream is written whole within the cap, or
    ends in an exception that is cleaned up after.
  - `transfer_delivered`, `transfer_undelivered`: the same with the close, whose exception takes
    the place of the one before it.
  - `closePart_lookup`, `unlinkQuietly_lookup`, `rename_lookup`: what each call leaves of the
    folder.
-/

import CoreHeartbeat.Uploads.SafeName
import Mathlib.Data.List.AList

namespace CoreHeartbeat.Uploads

open Posix

/-! ## The folder -/

inductive Entry where
  | file (data : ByteArray)
  | dir

/-- An entry, under the name it was created with. -/
structure Item where
  name : String
  entry : Entry

abbrev Folder := AList fun _ : String => Item

structure UploadError where
  status : Nat
  detail : String

inductive Raised where
  | upload (e : UploadError)
  /-- Another exception that `except Exception` catches. -/
  | exception (type : String)
  /-- One it does not: a cancelled task. -/
  | base (type : String)

structure Disk where
  /-- `shutil.disk_usage(root).free`, unless it raises. -/
  free : Option Int := none
  openFault : Option String := none
  /-- The writes by number, and the close: what it raises, and what the file then holds. -/
  writeFault : Nat → Option (String × ByteArray) := fun _ => none
  closeFault : Option (String × ByteArray) := none
  unlinks : Bool := true
  renameFault : Option String := none
  quarantined : Bool := false

variable (fold : String → String)

def Folder.get (f : Folder) (name : String) : Option Item := f.lookup (fold name)

def Folder.contains (f : Folder) (name : String) : Bool := (Folder.get fold f name).isSome

/-- `open(part, "wb")`: what it raises, or the folder with the file emptied or made. -/
def openPart (d : Disk) (f : Folder) (part : String) : Except String Folder :=
  match Folder.get fold f part with
  | some ⟨_, .dir⟩ => .error "IsADirectoryError"
  | some ⟨old, .file _⟩ =>
    match d.openFault with
    | some exc => .error exc
    | none => .ok (f.insert (fold part) ⟨old, .file ByteArray.empty⟩)
  | none =>
    match d.openFault with
    | some exc => .error exc
    | none => .ok (f.insert (fold part) ⟨part, .file ByteArray.empty⟩)

def closePart (f : Folder) (part : String) (data : ByteArray) : Folder :=
  match Folder.get fold f part with
  | some ⟨old, .file _⟩ => f.insert (fold part) ⟨old, .file data⟩
  | _ => f

def unlinkQuietly (d : Disk) (f : Folder) (part : String) : Folder :=
  match Folder.get fold f part with
  | some ⟨_, .file _⟩ => if d.unlinks then f.erase (fold part) else f
  | _ => f

/-- `os.replace(part, target)`, onto a name that was free. -/
def rename (f : Folder) (part target : String) : Folder :=
  match Folder.get fold f part with
  | some item => (f.erase (fold part)).insert (fold target) ⟨target, item.entry⟩
  | none => f

/-! ## The guards -/

def sentinel : String := ".uploads-root"

def partSuffix : String := ".part"

structure Config where
  maxUploadBytes : Int := 100 * 1024 * 1024
  totalBudgetBytes : Int := 50 * 1024 * 1024 * 1024
  freeSpaceFloor : Int := 5 * 1024 * 1024 * 1024

def ensureRoot (f : Folder) : Except UploadError Unit :=
  if Folder.contains fold f sentinel then .ok ()
  else .error ⟨503, "upload directory is not mounted (sentinel missing) - refusing to write " ++
    "where Windows cannot see the file"⟩

def Entry.size : Entry → Nat
  | .file data => data.size
  | .dir => 0

def dirSize (f : Folder) : Nat := f.entries.foldl (fun total e => total + e.2.entry.size) 0

def guardCapacity (cfg : Config) (d : Disk) (f : Folder) : Except UploadError Unit :=
  if d.free.any (· < cfg.freeSpaceFloor) then .error ⟨507, "not enough free disk space on the mini PC"⟩
  else if cfg.totalBudgetBytes ≤ dirSize f then
    .error ⟨507, "the upload folder has reached its size budget - delete some files first"⟩
  else .ok ()

def resolveTarget (root : Path) (name : String) : Except UploadError Path :=
  let target := realpathJoin root name
  if target = root ∨ ¬ root <:+ target then .error ⟨400, "invalid filename"⟩
  else if target.head? = some sentinel then .error ⟨400, "reserved filename"⟩
  else .ok target

/-- `Path.stem` and `Path.suffix`: the name cut at its last dot, unless that is its first or
    its last character. -/
def stemSuffix (name : String) : String × String :=
  let cs := name.toList
  let ext := cs.rtakeWhile (· ≠ '.')
  let stem := cs.take (cs.length - ext.length - 1)
  if stem = [] ∨ ext = [] ∨ ext.length = cs.length then (name, "")
  else (String.ofList stem, String.ofList ('.' :: ext))

def numbered (name : String) (n : Nat) : String :=
  (stemSuffix name).1 ++ " (" ++ toString n ++ ")" ++ (stemSuffix name).2

def uniqueTarget (f : Folder) (name : String) : Except UploadError String :=
  if !Folder.contains fold f name then .ok name
  else
    match (List.range' 2 998).find? fun n => !Folder.contains fold f (numbered name n) with
    | some n => .ok (numbered name n)
    | none => .error ⟨409, "too many files with that name"⟩

/-! ## The upload -/

/-- The chunks that arrive, and what the stream raises after them. -/
structure Stream where
  chunks : List ByteArray
  raises : Option Raised := none

structure Stored where
  storedAs : String
  originalName : String
  rewritten : Bool
  sizeBytes : Nat
  windowsPath : String

/-- The loop over the chunks, from the `n`-th write on: what the file holds, the bytes
    counted, and what was raised. -/
def receive (cap : Int) (d : Disk) (raises : Option Raised) :
    List ByteArray → Nat → ByteArray → Nat → ByteArray × Nat × Option Raised
  | [], _, data, written => (data, written, raises)
  | chunk :: chunks, n, data, written =>
    if chunk.size = 0 then receive cap d raises chunks n data written
    else if cap < (written + chunk.size : Nat) then
      (data, written + chunk.size,
        some (.upload ⟨413, "file exceeds the " ++ toString (cap / (1024 * 1024)) ++ " MB limit"⟩))
    else
      match d.writeFault n with
      | some (exc, left) => (left, written + chunk.size, some (.exception exc))
      | none => receive cap d raises chunks (n + 1) (data ++ chunk) (written + chunk.size)

/-- The `try` body after the open: an exception of the close takes the place of the one
    before it. -/
def transfer (cap : Int) (d : Disk) (stream : Stream) : ByteArray × Nat × Option Raised :=
  let (data, written, raised) := receive cap d stream.raises stream.chunks 0 ByteArray.empty 0
  match d.closeFault with
  | some (exc, left) => (left, written, some (.exception exc))
  | none => (data, written, raised)

/-- Everything before the open: the hardened name, whether it is another than asked for, and
    the free one. -/
def prepare (cfg : Config) (d : Disk) (root : Path) (filename : String) (f : Folder) :
    Except UploadError (String × Bool × String) := do
  ensureRoot fold f
  guardCapacity cfg d f
  let (name, rewritten) := safeName filename
  let path ← resolveTarget root name
  let target ← uniqueTarget fold f (path.headD "")
  return (name, rewritten, target)

def storeStream (cfg : Config) (d : Disk) (root : Path) (stream : Stream) (filename : String) (f : Folder) :
    Except Raised Stored × Folder :=
  match prepare fold cfg d root filename f with
  | .error e => (.error (.upload e), f)
  | .ok (name, rewritten, target) =>
    let part := target ++ partSuffix
    match openPart fold d f part with
    | .error exc => (.error (.upload ⟨500, "write failed: " ++ exc⟩), unlinkQuietly fold d f part)
    | .ok f =>
      let (data, written, raised) := transfer cfg.maxUploadBytes d stream
      let f := closePart fold f part data
      match raised with
      | some (.upload e) => (.error (.upload e), unlinkQuietly fold d f part)
      | some (.exception exc) => (.error (.upload ⟨500, "write failed: " ++ exc⟩), unlinkQuietly fold d f part)
      | some (.base exc) => (.error (.base exc), f)
      | none =>
        if written = 0 then (.error (.upload ⟨400, "empty file"⟩), unlinkQuietly fold d f part)
        else
          match d.renameFault with
          | some exc => (.error (.exception exc), f)
          | none =>
            let f := rename fold f part target
            if d.quarantined then
              (.error (.upload ⟨502, "file was stored but immediately removed by Windows Defender"⟩), f.erase (fold target))
            else
              (.ok { storedAs := target, originalName := filename, rewritten := rewritten || target ≠ name,
                     sizeBytes := written, windowsPath := "C:\\Users\\MMGlobal\\Uploads\\" ++ target }, f)

/-! ## What the calls leave of the folder -/

/-- The file opened and closed is the one under the partial name, of any earlier name. -/
theorem closePart_lookup {d : Disk} {f f₁ : Folder} {part : String} (h : openPart fold d f part = .ok f₁)
    (data : ByteArray) :
    ∃ name, name = ((f.lookup (fold part)).map (·.name)).getD part ∧
      (f.lookup (fold part) = none ∨ ∃ old, f.lookup (fold part) = some ⟨name, .file old⟩) ∧
      ∀ q, (closePart fold f₁ part data).lookup q =
        if q = fold part then some ⟨name, .file data⟩ else f.lookup q := by
  have hclosed : ∀ name, f₁ = f.insert (fold part) ⟨name, .file ByteArray.empty⟩ →
      ∀ q, (closePart fold f₁ part data).lookup q = if q = fold part then some ⟨name, .file data⟩ else f.lookup q := by
    rintro name rfl q
    simp only [closePart, Folder.get, AList.lookup_insert]
    by_cases hq : q = fold part
    · rw [hq, AList.lookup_insert, if_pos rfl]
    · rw [AList.lookup_insert_ne hq, AList.lookup_insert_ne hq, if_neg hq]
  unfold openPart Folder.get at h
  split at h
  · cases h
  · rename_i name old hfile
    split at h
    · cases h
    · exact ⟨name, by rw [hfile]; rfl, Or.inr ⟨old, hfile⟩, hclosed name (Except.ok.inj h).symm⟩
  · rename_i hnone
    split at h
    · cases h
    · exact ⟨part, by rw [hnone]; rfl, Or.inl hnone, hclosed part (Except.ok.inj h).symm⟩

theorem unlinkQuietly_lookup {d : Disk} {f : Folder} {part name : String} {data : ByteArray}
    (h : f.lookup (fold part) = some ⟨name, .file data⟩) (q : String) :
    (unlinkQuietly fold d f part).lookup q = if q = fold part ∧ d.unlinks = true then none else f.lookup q := by
  unfold unlinkQuietly Folder.get
  simp only [h]
  cases d.unlinks with
  | false => simp
  | true =>
    by_cases hq : q = fold part
    · rw [if_pos rfl, hq, AList.lookup_erase, if_pos ⟨rfl, rfl⟩]
    · rw [if_pos rfl, AList.lookup_erase_ne hq, if_neg fun hc => hq hc.1]

theorem rename_lookup {f : Folder} {part target name : String} {entry : Entry}
    (h : f.lookup (fold part) = some ⟨name, entry⟩) (q : String) :
    (rename fold f part target).lookup q =
      if q = fold target then some ⟨target, entry⟩ else if q = fold part then none else f.lookup q := by
  unfold rename Folder.get
  simp only [h]
  by_cases hq : q = fold target
  · rw [hq, AList.lookup_insert, if_pos rfl]
  · rw [AList.lookup_insert_ne hq, if_neg hq]
    by_cases hp : q = fold part
    · rw [hp, AList.lookup_erase, if_pos rfl]
    · rw [AList.lookup_erase_ne hp, if_neg hp]

theorem uniqueTarget_free {f : Folder} {name target : String} (h : uniqueTarget fold f name = .ok target) :
    f.lookup (fold target) = none := by
  have hfree : ∀ name, Folder.contains fold f name = false → f.lookup (fold name) = none := fun name hname => by
    simpa [Folder.contains, Folder.get] using hname
  unfold uniqueTarget at h
  split at h
  · rename_i hname
    rw [← Except.ok.inj h]
    exact hfree name (by simpa using hname)
  · split at h
    · rename_i n hn
      rw [← Except.ok.inj h]
      exact hfree _ (by simpa using List.find?_some hn)
    · cases h

/-- A hardened name resolves into the folder itself. -/
theorem resolveTarget_safeName {root : Path} (filename : String) {path : Path}
    (h : resolveTarget root (safeName filename).1 = .ok path) : path = (safeName filename).1 :: root := by
  unfold resolveTarget at h
  rw [realpathJoin_plainName (safeName_plain filename)] at h
  dsimp only at h
  split at h
  · cases h
  · split at h
    · cases h
    · exact (Except.ok.inj h).symm

theorem prepare_target {cfg : Config} {d : Disk} {root : Path} {filename : String} {f : Folder} {name target : String}
    {rewritten : Bool} (h : prepare fold cfg d root filename f = .ok (name, rewritten, target)) :
    (name, rewritten) = safeName filename ∧ uniqueTarget fold f name = .ok target ∧ f.lookup (fold target) = none := by
  unfold prepare at h
  simp only [bind, Except.bind, pure, Except.pure] at h
  split at h
  · cases h
  · split at h
    · cases h
    · split at h
      · cases h
      · rename_i path hpath
        obtain rfl := resolveTarget_safeName filename hpath
        split at h
        · cases h
        · rename_i target' htarget
          simp only [Except.ok.injEq, Prod.mk.injEq] at h
          obtain ⟨rfl, rfl, rfl⟩ := h
          exact ⟨Prod.eta _, htarget, uniqueTarget_free fold htarget⟩

/-! ## What arrives -/

def concat : List ByteArray → ByteArray
  | [] => ByteArray.empty
  | chunk :: chunks => chunk ++ concat chunks

/-- From the `n`-th write on, with `written` bytes counted: no write fails, and the last
    count is within the cap. -/
def DeliveredFrom (cap : Int) (d : Disk) (n written : Nat) (chunks : List ByteArray) : Prop :=
  (∀ i < (chunks.filter fun chunk => chunk.size ≠ 0).length, (d.writeFault (n + i)).isNone = true) ∧
    ((concat chunks).size = 0 ∨ (written + (concat chunks).size : Nat) ≤ cap)

instance (cap : Int) (d : Disk) (n written : Nat) (chunks : List ByteArray) :
    Decidable (DeliveredFrom cap d n written chunks) :=
  inferInstanceAs (Decidable ((∀ i < _, _) ∧ (_ ∨ _)))

/-- Every chunk reaches the file, and together they are within the cap. -/
abbrev Delivered (cap : Int) (d : Disk) (chunks : List ByteArray) : Prop := DeliveredFrom cap d 0 0 chunks

theorem concat_cons_empty {chunk : ByteArray} (h : chunk.size = 0) (chunks : List ByteArray) :
    concat (chunk :: chunks) = concat chunks := by
  have hempty : chunk = ByteArray.empty := ByteArray.size_eq_zero_iff.mp h
  rw [concat, hempty, ByteArray.empty_append]

theorem delivered_skip {cap : Int} {d : Disk} {n written : Nat} {chunk : ByteArray} (h : chunk.size = 0)
    (chunks : List ByteArray) :
    DeliveredFrom cap d n written (chunk :: chunks) ↔ DeliveredFrom cap d n written chunks := by
  unfold DeliveredFrom
  rw [concat_cons_empty h, List.filter_cons_of_neg (by simp [h])]

theorem delivered_write {cap : Int} {d : Disk} {n written : Nat} {chunk : ByteArray} (h : chunk.size ≠ 0)
    (chunks : List ByteArray) :
    DeliveredFrom cap d n written (chunk :: chunks) ↔
      (d.writeFault n).isNone = true ∧ (written + chunk.size : Nat) ≤ cap ∧
        DeliveredFrom cap d (n + 1) (written + chunk.size) chunks := by
  have hsize : (concat (chunk :: chunks)).size = chunk.size + (concat chunks).size := by
    rw [concat, ByteArray.size_append]
  unfold DeliveredFrom
  rw [List.filter_cons_of_pos (by simpa using h), List.length_cons, hsize]
  refine ⟨?_, ?_⟩
  · intro h
    obtain ⟨hwrites, hbound⟩ := h
    refine ⟨by simpa using hwrites 0 (Nat.succ_pos _), by omega, fun i hi => ?_, by omega⟩
    have := hwrites (i + 1) (by omega)
    rwa [show n + (i + 1) = n + 1 + i by omega] at this
  · intro h
    obtain ⟨hfirst, hcap, hwrites, hbound⟩ := h
    refine ⟨fun i hi => ?_, by omega⟩
    cases i with
    | zero => simpa using hfirst
    | succ i =>
      have := hwrites i (by omega)
      rwa [show n + 1 + i = n + (i + 1) by omega] at this

/-- Delivered chunks are written one after the other, and the stream's end decides. -/
theorem receive_delivered {cap : Int} {d : Disk} {raises : Option Raised} {chunks : List ByteArray} {n written : Nat}
    {data : ByteArray} (h : DeliveredFrom cap d n written chunks) :
    receive cap d raises chunks n data written = (data ++ concat chunks, written + (concat chunks).size, raises) := by
  induction chunks generalizing n data written with
  | nil => simp [receive, concat]
  | cons chunk chunks ih =>
    simp only [receive]
    by_cases hsize : chunk.size = 0
    · rw [if_pos hsize, concat_cons_empty hsize]
      exact ih ((delivered_skip hsize chunks).mp h)
    · obtain ⟨hfault, hcap, hrest⟩ := (delivered_write hsize chunks).mp h
      rw [if_neg hsize, if_neg (by omega), Option.isNone_iff_eq_none.mp hfault]
      show receive cap d raises chunks (n + 1) (data ++ chunk) (written + chunk.size) = _
      rw [ih hrest, concat, ByteArray.size_append, ByteArray.append_assoc, Nat.add_assoc]

/-- Chunks that are not all delivered end in an exception that is cleaned up after. -/
theorem receive_undelivered {cap : Int} {d : Disk} {raises : Option Raised} {chunks : List ByteArray} {n written : Nat}
    {data : ByteArray} (h : ¬ DeliveredFrom cap d n written chunks) :
    (∃ e, (receive cap d raises chunks n data written).2.2 = some (.upload e)) ∨
      ∃ exc, (receive cap d raises chunks n data written).2.2 = some (.exception exc) := by
  induction chunks generalizing n data written with
  | nil => exact absurd ⟨fun i hi => absurd hi (Nat.not_lt_zero i), Or.inl rfl⟩ h
  | cons chunk chunks ih =>
    simp only [receive]
    by_cases hsize : chunk.size = 0
    · rw [if_pos hsize]
      exact ih fun hrest => h ((delivered_skip hsize chunks).mpr hrest)
    · rw [if_neg hsize]
      by_cases hcap : cap < (written + chunk.size : Nat)
      · rw [if_pos hcap]
        exact Or.inl ⟨_, rfl⟩
      · rw [if_neg hcap]
        cases hfault : d.writeFault n with
        | some fault => exact Or.inr ⟨fault.1, rfl⟩
        | none =>
          refine ih fun hrest => h ((delivered_write hsize chunks).mpr ⟨by rw [hfault]; rfl, by omega, hrest⟩)

/-- Chunks that are delivered into a file that closes: the stream's own end is left. -/
theorem transfer_delivered {cap : Int} {d : Disk} {stream : Stream} (h : Delivered cap d stream.chunks)
    (hclose : d.closeFault = none) :
    transfer cap d stream = (concat stream.chunks, (concat stream.chunks).size, stream.raises) := by
  unfold transfer
  rw [receive_delivered h, hclose, ByteArray.empty_append, Nat.zero_add]

/-- Anything else is an exception that is cleaned up after. -/
theorem transfer_undelivered {cap : Int} {d : Disk} {stream : Stream}
    (h : ¬ (Delivered cap d stream.chunks ∧ d.closeFault = none)) :
    (∃ e, (transfer cap d stream).2.2 = some (.upload e)) ∨ ∃ exc, (transfer cap d stream).2.2 = some (.exception exc) := by
  unfold transfer
  cases hclose : d.closeFault with
  | some fault => exact Or.inr ⟨fault.1, rfl⟩
  | none => exact receive_undelivered fun hd => h ⟨hd, hclose⟩

/-- A folder that differs from another at one key at most. -/
theorem unchanged_iff {f f' : Folder} {p : String} {x : Option Item}
    (h : ∀ q, f'.lookup q = if q = p then x else f.lookup q) :
    (∀ q, f'.lookup q = f.lookup q) ↔ f.lookup p = x := by
  refine ⟨?_, ?_⟩
  · intro hsame
    rw [← hsame p, h, if_pos rfl]
  · intro hp q
    rw [h]
    split
    · rename_i hq; rw [hq, hp]
    · rfl

end CoreHeartbeat.Uploads
