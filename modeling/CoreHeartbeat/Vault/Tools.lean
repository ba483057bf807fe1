/-
  CoreHeartbeat.Vault.Tools — the vault tools the graph calls (`search_vault`, `run_vault_tool`
  in `tools/user_vault.py`), and that a user's tools stay in the user's directory.

  A tool gets its user from the graph's state and its arguments from the model: any JSON values,
  names with separators, dots and nulls among them. What the tools ask of the system is given
  from outside (`ToolEnv`): the order in which a directory is listed, the regular expressions,
  the decoding, a fault of a write.

  A user id is accepted when its directory is one plain component below the root, so that ids
  which are prefixes of one another have directories side by side. The containment test of the
  source compares path strings; that it is containment in the tree is `Posix.render_startsWith`.
  Two users are compared through the trees: what the one user owns is everything at or below
  that user's directory, and another tree that agrees everywhere else is a world in which only
  that differs.

  Proved:
  - `userDir_ok_iff`, `exists_account`: which ids are accepted, and that they are accounts.
  - `runVaultTool_frame`: a tool of `a` leaves what `b` owns as it is.
  - `runVaultTool_agrees`: what a tool of `a` answers and writes does not depend on what `b`
    owns.
  - `vault_tools_confined`: for two users of one vault root no path resolves for both; the tools
    of the one leave all that lies in the directory of the other as it is, and neither their
    results nor what they write depend on it (`vault_tools_confined_siblings`: the id of the one
    begins with the other's).
-/

import CoreHeartbeat.Vault.StorageSync
import CoreHeartbeat.Graph.Models

namespace CoreHeartbeat.Vault

open Posix
open CoreHeartbeat.Graph (Json Args)

/-! ## The vault root -/

def defaultVaultSyncRoot : String := "/tmp/vaults"

/-- `_vault_root`, from the environment variable. -/
def vaultRoot (env : Option String) : String := (env.filter (· ≠ "")).getD defaultVaultSyncRoot

/-- The ids that `_user_dir` accepts. -/
theorem userDir_ok_iff {root : Path} {userId : String} {dir : Path} :
    userDir root userId = .ok dir ↔
      (PlainName userId ∧ '\x00' ∉ userId.toList) ∧ dir = realpathJoin root userId := by
  unfold userDir
  split
  · rename_i hbad
    refine iff_of_false nofun ?_
    intro ⟨⟨hplain, hnul⟩, _⟩
    rcases hbad with h | h | h | h | h
    · exact hplain.nonempty h
    · exact hplain.noDot h
    · exact hplain.noDotDot h
    · exact hnul h
    · exact hplain.noSlash h
  · rename_i hok
    simp only [not_or] at hok
    obtain ⟨hne, hdot, hdd, hnul, hslash⟩ := hok
    rw [Except.ok.injEq]
    exact ⟨fun h => ⟨⟨⟨hslash, hne, hdot, hdd⟩, hnul⟩, h.symm⟩, fun h => h.2.symm⟩

/-- An accepted id is an account of the resolved root, and its directory is the one the
    source resolves. -/
theorem exists_account {cwd : Path} (hcwd : ∀ name ∈ cwd, PlainName name) {env : Option String} {userId : String}
    {dir : Path} (h : userDir (realpathJoin cwd (vaultRoot env)) userId = .ok dir) :
    dir = realpathJoin cwd (join (vaultRoot env) userId) ∧
      ∃ a : Account, a.root = realpathJoin cwd (vaultRoot env) ∧ a.user = userId ∧ a.dest = dir := by
  obtain ⟨⟨hplain, hnul⟩, rfl⟩ := userDir_ok_iff.mp h
  refine ⟨(realpathJoin_join cwd _ userId).symm, ⟨_, userId, realpathJoin_plain hcwd _, hplain, hnul⟩, rfl, rfl, ?_⟩
  exact (realpathJoin_plainName hplain _).symm

/-! ## Searching -/

def maxSearchMatches : Nat := 200

structure Listing where
  scandir : Path → List String
  plain : ∀ p, ∀ name ∈ scandir p, PlainName name

/-- `re.compile`. -/
inductive Compiled where
  | pattern (search : List Char → Bool)
  /-- `re.error`. -/
  | malformed
  | raised

structure ToolEnv where
  listing : Listing
  /-- No directory lies deeper below the user's. -/
  depth : Nat
  compile : String → Compiled
  /-- `re.compile(re.escape(query), re.IGNORECASE)`. -/
  literal : String → List Char → Bool
  /-- UTF-8 with `errors="replace"`. -/
  decode : ByteArray → List Char
  /-- What reaches the file when a write fails half-way. -/
  fault : Option ByteArray

/-- `os.walk`: each directory and the names in it that are no directories, from the top down. -/
def walk (fs : Tree) (listing : Listing) : Nat → Path → List (Path × List String)
  | 0, _ => []
  | depth + 1, dir =>
    (dir, (listing.scandir dir).filter fun name => !fs.isDir (name :: dir)) ::
      ((listing.scandir dir).filter fun name => fs.isDir (name :: dir)).flatMap fun name =>
        walk fs listing depth (name :: dir)

structure SearchMatch where
  file : String
  lineNo : Nat
  line : String

/-- `os.path.relpath` of a path below `base`. -/
def relpathBelow (base path : Path) : String := "/".intercalate (path.take (path.length - base.length)).reverse

def searchFile (env : ToolEnv) (pattern : List Char → Bool) (fs : Tree) (base full : Path) : List SearchMatch :=
  match fs.fileAt full with
  | none => []
  | some data =>
    (PyText.fileLines [] (PyText.universalNewlines (env.decode data))).zipIdx 1 |>.filterMap fun (line, lineNo) =>
      if pattern line then
        some ⟨relpathBelow base full, lineNo, String.ofList (line.reverse.dropWhile (· = '\n')).reverse⟩
      else none

/-- The notes of one directory, where they really are: inside the vault. -/
def notesIn (base : Path) (dir : Path) (filenames : List String) : List Path :=
  (filenames.filter fun name => vaultSuffix.toList.isSuffixOf name.toList).filterMap fun name =>
    let full := realpathJoin dir name
    if full ≠ base ∧ (render base ++ "/").toList.isPrefixOf (render full).toList = false then none else some full

inductive ToolError where
  | unknownTool (name : String)
  /-- `KeyError`. -/
  | missing (key : String)
  /-- `TypeError`. -/
  | badType
  /-- `VaultAccessError` for a file name that is no string. -/
  | refused
  /-- Another exception of `re.compile`. -/
  | badPattern
  | vault (e : VaultError)

def searchVault (env : ToolEnv) (fs : Tree) (a : Account) (query : String) : Except ToolError (List SearchMatch) := do
  let pattern ← match env.compile query with
    | .pattern search => pure search
    | .malformed => pure (env.literal query)
    | .raised => throw .badPattern
  match userDir a.root a.user with
  | .error e => throw (.vault e)
  | .ok base =>
    if !fs.isDir base then return []
    let notes := (walk fs env.listing env.depth base).flatMap fun (dir, filenames) => notesIn base dir filenames
    return (notes.flatMap (searchFile env pattern fs base)).take maxSearchMatches

def formatMatches (ms : List SearchMatch) : String :=
  if ms = [] then "no matches"
  else "\n".intercalate (ms.map fun m => m.file ++ ":" ++ toString m.lineNo ++ ": " ++ m.line)

/-! ## Dispatch -/

/-- `a[key]`. -/
def getArg (args : Args) (key : String) : Except ToolError Json :=
  match args.lookup key with
  | some v => .ok v
  | none => .error (.missing key)

/-- `not v`, or the key or item `"\x00"` is in it. -/
def refusedName : Json → Bool
  | .null => true
  | .bool b => !b
  | .int n => n == 0
  | .float repr => repr == "0.0" || repr == "-0.0"
  | .str _ => false
  | .arr items => items.isEmpty || items.any fun
    | .str s => s == "\x00"
    | _ => false
  | .obj fields => fields.isEmpty || fields.any (·.1 == "\x00")

/-- A file name that is no string fails before anything is opened. -/
def fileName : Json → Except ToolError String
  | .str s => .ok s
  | v => .error (if refusedName v then .refused else .badType)

/-- `write_note`; a content that is no string fails after the file was opened. -/
def writeArg (fault : Option ByteArray) (fs : Tree) (a : Account) (filename : String) :
    Json → Except ToolError Path × Tree
  | .str content =>
    match writeNote fault fs a filename content with
    | (.ok path, fs) => (.ok path, fs)
    | (.error e, fs) => (.error (.vault e), fs)
  | _ =>
    match openNote fs a filename with
    | (.error e, fs) => (.error (.vault e), fs)
    | (.ok (name, dir), fs) => (.error .badType, (fs.put name dir .empty).getD fs)

def runVaultTool (env : ToolEnv) (fs : Tree) (name : String) (a : Account) (args : Args) :
    Except ToolError String × Tree :=
  match name with
  | "read_user_note" =>
    (do
      let filename ← fileName (← getArg args "filename")
      (readNote fs a filename).mapError .vault, fs)
  | "search_user_vault" =>
    (do
      match ← getArg args "query" with
      | .str query => return formatMatches (← searchVault env fs a query)
      | _ => throw .badType, fs)
  | "write_user_note" =>
    match (do return (← getArg args "filename", ← getArg args "content") : Except ToolError (Json × Json)) with
    | .error e => (.error e, fs)
    | .ok (filename, content) =>
      match fileName filename with
      | .error e => (.error e, fs)
      | .ok filename =>
        match writeArg env.fault fs a filename content with
        | (.ok path, fs) => (.ok (render path), fs)
        | (.error e, fs) => (.error e, fs)
  | _ => (.error (.unknownTool name), fs)

/-! ## Two users -/

section two_users

variable {a b : Account}

/-- Whatever lies in the directory of `b`. -/
def Account.Owns (b : Account) (q : Path) : Prop := b.dest <:+ q

/-- Nothing on the way to a path of `a` is `b`'s. -/
theorem not_owned (hroot : a.root = b.root) (hne : a.user ≠ b.user) {p q : Path} (hp : a.dest <:+ p) (hq : q <:+ p) :
    ¬ b.Owns q := by
  intro hb
  have hlen : a.dest.length = b.dest.length := by simp [Account.dest, hroot]
  have hab : a.dest = b.dest := (List.suffix_of_suffix_length_le hp (hb.trans hq) hlen.le).eq_of_length hlen
  exact hne (List.cons.inj hab).1

theorem readNote_agrees (hroot : a.root = b.root) (hne : a.user ≠ b.user) {fs fs' : Tree}
    (h : Fs.AgreeOutside b.Owns fs fs') (filename : String) : readNote fs' a filename = readNote fs a filename := by
  cases hres : resolveWithinVault a.root a.user filename with
  | error e => simp [readNote, hres, bind, Except.bind]
  | ok path =>
    have hpath : ¬ b.Owns path := not_owned hroot hne (resolve_below hres).1 (List.suffix_refl path)
    simp only [readNote, hres, bind, Except.bind, h.isDir hpath, h.fileAt hpath]

/-- The way to a resolved path is made of plain names. -/
theorem makeable {path : Path} (h : ∀ name ∈ path, PlainName name) :
    ∀ c ∈ path.reverse, c ≠ "" ∧ c ≠ "." ∧ c ≠ ".." := by
  intro c hc
  have := h c (List.mem_reverse.mp hc)
  exact ⟨this.nonempty, this.noDot, this.noDotDot⟩

theorem openNote_agrees (hroot : a.root = b.root) (hne : a.user ≠ b.user) {fs fs' : Tree}
    (h : Fs.AgreeOutside b.Owns fs fs') (filename : String) :
    (openNote fs' a filename).1 = (openNote fs a filename).1 ∧
      Fs.AgreeOutside b.Owns (openNote fs a filename).2 (openNote fs' a filename).2 := by
  unfold openNote
  cases hres : resolveWithinVault a.root a.user filename with
  | error e => exact ⟨rfl, h⟩
  | ok path =>
    obtain ⟨hbelow, hplain⟩ := resolve_below hres
    cases path with
    | nil => exact ⟨rfl, h⟩
    | cons name dir =>
      have hway : ∀ q, q <:+ dir → ¬ b.Owns q := fun q hq =>
        not_owned hroot hne hbelow (hq.trans (List.suffix_cons _ _))
      obtain ⟨hdir, hagree⟩ := h.makedirs []
        (makeable fun c hc => hplain c (List.mem_cons_of_mem name hc)) fun q hq => hway q (by simpa using hq)
      rcases hmk : fs.makedirs [] dir.reverse with ⟨gs, made⟩
      rcases hmk' : fs'.makedirs [] dir.reverse with ⟨gs', made'⟩
      rw [hmk, hmk'] at hdir hagree
      obtain rfl : made' = made := hdir
      simp only [hmk, hmk']
      cases made' with
      | none => exact ⟨rfl, hagree⟩
      | some d =>
        have hd : d = dir := by
          simpa using (Fs.makedirs_plain (makeable fun c hc => hplain c (List.mem_cons_of_mem name hc)) hmk).1 d rfl
        subst hd
        have hname : gs'.isDir (name :: d) = gs.isDir (name :: d) :=
          hagree.isDir (not_owned hroot hne hbelow (List.suffix_refl _))
        simp only [hname]
        split <;> exact ⟨rfl, hagree⟩

theorem openNote_frame (hroot : a.root = b.root) (hne : a.user ≠ b.user) (fs : Tree) (filename : String) {q : Path}
    (hq : b.Owns q) : (openNote fs a filename).2.node q = fs.node q := by
  unfold openNote
  cases hres : resolveWithinVault a.root a.user filename with
  | error e => rfl
  | ok path =>
    obtain ⟨hbelow, hplain⟩ := resolve_below hres
    cases path with
    | nil => rfl
    | cons name dir =>
      have hnode : (fs.makedirs [] dir.reverse).1.node q = fs.node q :=
        Fs.node_makedirs (makeable fun c hc => hplain c (List.mem_cons_of_mem name hc)) fun hway =>
          not_owned hroot hne hbelow ((by simpa using hway : q <:+ dir).trans (List.suffix_cons _ _)) hq
      simp only
      split
      · rename_i hmk; rw [hmk] at hnode; exact hnode
      · rename_i hmk
        rw [hmk] at hnode
        split <;> exact hnode

/-- One more file below the directory of `a`, in both trees. -/
theorem put_agrees (hroot : a.root = b.root) (hne : a.user ≠ b.user) {fs fs' : Tree} (h : Fs.AgreeOutside b.Owns fs fs')
    {name : String} {dir : Path} (hbelow : a.dest <:+ name :: dir) (data : ByteArray) :
    Fs.AgreeOutside b.Owns ((fs.put name dir data).getD fs) ((fs'.put name dir data).getD fs') := by
  rcases h.put data (not_owned hroot hne hbelow (List.suffix_cons _ _)) (not_owned hroot hne hbelow (List.suffix_refl _))
    with ⟨hno, hno'⟩ | ⟨gs, gs', hgs, hgs', hagree⟩
  · rw [hno, hno']; exact h
  · rw [hgs, hgs']; exact hagree

theorem put_frame (hroot : a.root = b.root) (hne : a.user ≠ b.user) (fs : Tree) {name : String} {dir : Path}
    (hbelow : a.dest <:+ name :: dir) (data : ByteArray) {q : Path} (hq : b.Owns q) :
    ((fs.put name dir data).getD fs).node q = fs.node q := by
  cases hput : fs.put name dir data with
  | none => rfl
  | some gs => exact Fs.node_put hput fun heq => not_owned hroot hne hbelow (List.suffix_refl _) (heq ▸ hq)

def written (fault : Option ByteArray) : Json → ByteArray
  | .str content => fault.getD content.toUTF8
  | _ => .empty

def writeAnswer (fault : Option ByteArray) (path : Path) : Json → Except ToolError Path
  | .str _ => if fault = none then .ok path else .error (.vault .os)
  | _ => .error .badType

theorem writeArg_refused {fs gs : Tree} {filename : String} {e : VaultError}
    (h : openNote fs a filename = (.error e, gs)) (fault : Option ByteArray) (content : Json) :
    writeArg fault fs a filename content = (.error (.vault e), gs) := by
  cases content <;> simp only [writeArg, writeNote, h]

theorem writeArg_opened {fs gs : Tree} {filename name : String} {dir : Path}
    (h : openNote fs a filename = (.ok (name, dir), gs)) (fault : Option ByteArray) (content : Json) :
    writeArg fault fs a filename content =
      (writeAnswer fault (name :: dir) content, (gs.put name dir (written fault content)).getD gs) := by
  obtain ⟨-, hdir, hleaf⟩ := openNote_ok h
  cases content with
  | str text =>
    obtain ⟨gs', hput⟩ := Option.isSome_iff_exists.mp
      (Fs.put_isSome.mpr ⟨hdir, hleaf⟩ : (gs.put name dir (fault.getD text.toUTF8)).isSome = true)
    simp only [writeArg, writeNote, h, hput, writeAnswer, written]
    cases fault <;> rfl
  | _ => simp only [writeArg, h, writeAnswer, written]

theorem writeArg_agrees (hroot : a.root = b.root) (hne : a.user ≠ b.user) {fs fs' : Tree}
    (h : Fs.AgreeOutside b.Owns fs fs') (fault : Option ByteArray) (filename : String) (content : Json) :
    (writeArg fault fs' a filename content).1 = (writeArg fault fs a filename content).1 ∧
      Fs.AgreeOutside b.Owns (writeArg fault fs a filename content).2 (writeArg fault fs' a filename content).2 := by
  obtain ⟨hsame, hagree⟩ := openNote_agrees hroot hne h filename
  rcases hopen : openNote fs a filename with ⟨r, gs⟩
  rcases hopen' : openNote fs' a filename with ⟨r', gs'⟩
  rw [hopen, hopen'] at hsame hagree
  obtain rfl : r' = r := hsame
  cases r' with
  | error e =>
    rw [writeArg_refused hopen, writeArg_refused hopen']
    exact ⟨rfl, hagree⟩
  | ok nd =>
    rw [writeArg_opened hopen, writeArg_opened hopen']
    exact ⟨rfl, put_agrees hroot hne hagree (resolve_below (openNote_ok hopen).1).1 _⟩

theorem writeArg_frame (hroot : a.root = b.root) (hne : a.user ≠ b.user) (fs : Tree) (fault : Option ByteArray)
    (filename : String) (content : Json) {q : Path} (hq : b.Owns q) :
    (writeArg fault fs a filename content).2.node q = fs.node q := by
  have hframe := openNote_frame hroot hne fs filename hq
  rcases hopen : openNote fs a filename with ⟨r, gs⟩
  rw [hopen] at hframe
  cases r with
  | error e => rw [writeArg_refused hopen]; exact hframe
  | ok nd =>
    rw [writeArg_opened hopen]
    exact (put_frame hroot hne gs (resolve_below (openNote_ok hopen).1).1 _ hq).trans hframe

/-- The directories of two users are listed alike but for what `b` owns. -/
def Listing.AgreeOutside (S : Path → Prop) (l l' : Listing) : Prop := ∀ p, ¬ S p → l'.scandir p = l.scandir p

theorem walk_agrees (hroot : a.root = b.root) (hne : a.user ≠ b.user) {fs fs' : Tree}
    (h : Fs.AgreeOutside b.Owns fs fs') {l l' : Listing} (hl : Listing.AgreeOutside b.Owns l l') (depth : Nat) {dir : Path}
    (hdir : a.dest <:+ dir) : walk fs' l' depth dir = walk fs l depth dir := by
  induction depth generalizing dir with
  | zero => rfl
  | succ depth ih =>
    have hself : ∀ p, a.dest <:+ p → ¬ b.Owns p := fun p hp => not_owned hroot hne hp (List.suffix_refl p)
    have hisDir : ∀ name, fs'.isDir (name :: dir) = fs.isDir (name :: dir) := fun name =>
      h.isDir (hself _ (hdir.trans (List.suffix_cons _ _)))
    simp only [walk, hl dir (hself dir hdir), hisDir]
    congr 2
    funext name
    exact ih (hdir.trans (List.suffix_cons _ _))

/-- A search reads below the user's directory. -/
theorem notesIn_below {a : Account} {dir : Path} (hdir : ∀ name ∈ dir, PlainName name) {filenames : List String}
    {full : Path} (h : full ∈ notesIn a.dest dir filenames) : a.dest <:+ full := by
  obtain ⟨name, -, hfull⟩ := List.mem_filterMap.mp h
  simp only [Option.ite_none_left_eq_some, Option.some.injEq] at hfull
  obtain ⟨hin, rfl⟩ := hfull
  rw [not_and_or, not_not, Bool.not_eq_false, List.isPrefixOf_iff_prefix,
    render_startsWith (by simp [Account.dest]) a.dest_plain (realpathJoin_plain hdir name)] at hin
  rcases hin with heq | hin
  · rw [heq]
  · exact hin.1

theorem walk_plain {fs : Tree} {l : Listing} {depth : Nat} {dir : Path} (hdir : ∀ name ∈ dir, PlainName name)
    {entry : Path × List String} (h : entry ∈ walk fs l depth dir) : ∀ name ∈ entry.1, PlainName name := by
  induction depth generalizing dir with
  | zero => cases h
  | succ depth ih =>
    rcases List.mem_cons.mp h with rfl | h
    · exact hdir
    · obtain ⟨name, hname, h⟩ := List.mem_flatMap.mp h
      refine ih (fun c hc => ?_) h
      rcases List.mem_cons.mp hc with rfl | hc
      · exact l.plain dir _ (List.mem_filter.mp hname).1
      · exact hdir c hc

theorem searchVault_agrees (hroot : a.root = b.root) (hne : a.user ≠ b.user) {env : ToolEnv} {fs fs' : Tree}
    (h : Fs.AgreeOutside b.Owns fs fs') {l' : Listing} (hl : Listing.AgreeOutside b.Owns env.listing l') (query : String) :
    searchVault { env with listing := l' } fs' a query = searchVault env fs a query := by
  have hbase : fs'.isDir a.dest = fs.isDir a.dest :=
    h.isDir (not_owned hroot hne (List.suffix_refl a.dest) (List.suffix_refl a.dest))
  have hsearch : ∀ pattern, ((walk fs env.listing env.depth a.dest).flatMap fun (dir, filenames) =>
        notesIn a.dest dir filenames).flatMap (searchFile { env with listing := l' } pattern fs' a.dest) =
      ((walk fs env.listing env.depth a.dest).flatMap fun (dir, filenames) =>
        notesIn a.dest dir filenames).flatMap (searchFile env pattern fs a.dest) := by
    intro pattern
    refine List.flatMap_congr fun full hfull => ?_
    obtain ⟨⟨dir, filenames⟩, hentry, hnote⟩ := List.mem_flatMap.mp hfull
    have hbelow := notesIn_below (walk_plain a.dest_plain hentry) hnote
    simp only [searchFile, h.fileAt (not_owned hroot hne hbelow (List.suffix_refl full))]
  unfold searchVault
  simp only [userDir_account, hbase, walk_agrees hroot hne h hl _ (List.suffix_refl a.dest), hsearch]

/-- What a tool of `a` answers and writes does not depend on what `b` owns. -/
theorem runVaultTool_agrees (hroot : a.root = b.root) (hne : a.user ≠ b.user) {env : ToolEnv} {fs fs' : Tree}
    (h : Fs.AgreeOutside b.Owns fs fs') {l' : Listing} (hl : Listing.AgreeOutside b.Owns env.listing l') (name : String)
    (args : Args) :
    (runVaultTool { env with listing := l' } fs' name a args).1 = (runVaultTool env fs name a args).1 ∧
      Fs.AgreeOutside b.Owns (runVaultTool env fs name a args).2
        (runVaultTool { env with listing := l' } fs' name a args).2 := by
  unfold runVaultTool
  split
  · simp only [readNote_agrees hroot hne h]
    exact ⟨trivial, h⟩
  · simp only [searchVault_agrees hroot hne h hl]
    exact ⟨trivial, h⟩
  · split
    · exact ⟨rfl, h⟩
    · rename_i filename content _
      cases fileName filename with
      | error e => exact ⟨rfl, h⟩
      | ok filename =>
        obtain ⟨hsame, hagree⟩ := writeArg_agrees hroot hne h env.fault filename content
        rcases hw : writeArg env.fault fs a filename content with ⟨r, gs⟩
        rcases hw' : writeArg env.fault fs' a filename content with ⟨r', gs'⟩
        rw [hw, hw'] at hsame hagree
        obtain rfl : r' = r := hsame
        cases r' <;> exact ⟨by simp only [hw, hw'], by simpa only [hw, hw'] using hagree⟩
  · exact ⟨rfl, h⟩

/-- A tool of `a` leaves what `b` owns as it is. -/
theorem runVaultTool_frame (hroot : a.root = b.root) (hne : a.user ≠ b.user) (env : ToolEnv) (fs : Tree) (name : String)
    (args : Args) {q : Path} (hq : b.Owns q) : (runVaultTool env fs name a args).2.node q = fs.node q := by
  unfold runVaultTool
  split
  · rfl
  · rfl
  · split
    · rfl
    · rename_i filename content _
      cases fileName filename with
      | error e => rfl
      | ok filename =>
        have hframe := writeArg_frame hroot hne fs env.fault filename content hq
        rcases hw : writeArg env.fault fs a filename content with ⟨r, gs⟩
        rw [hw] at hframe
        cases r <;> simpa only [hw] using hframe
  · rfl

end two_users

/-- `VaultAccessError`. -/
def VaultError.accessError : VaultError → Prop
  | .invalidUserId _ | .invalidFilename _ | .escapes _ _ => True
  | _ => False

/-- Whatever is no path of the user's is refused. -/
theorem resolve_or_refused (a : Account) (filename : String) :
    (∃ e, resolveWithinVault a.root a.user filename = .error e ∧ e.accessError) ∨
      ∃ path, resolveWithinVault a.root a.user filename = .ok path ∧ a.dest <:+ path ∧ ∀ name ∈ path, PlainName name := by
  cases h : resolveWithinVault a.root a.user filename with
  | ok path => exact Or.inr ⟨path, rfl, resolve_below h⟩
  | error e =>
    refine Or.inl ⟨e, rfl, ?_⟩
    unfold resolveWithinVault at h
    simp only [userDir_account, bind, Except.bind, pure, Except.pure, throw, throwThe, MonadExceptOf.throw] at h
    split at h
    · cases h; trivial
    · split at h <;> cases h
      trivial

/-- The tools of `a` against the directory of `b`. -/
structure Confined (a b : Account) : Prop where
  /-- A file name is refused or resolves to the user's own directory or below it. -/
  below : ∀ filename, (∃ e, resolveWithinVault a.root a.user filename = .error e ∧ e.accessError) ∨
    ∃ path, resolveWithinVault a.root a.user filename = .ok path ∧ a.dest <:+ path ∧ ∀ name ∈ path, PlainName name
  /-- No path resolves for both. -/
  apart : ∀ filename filename' path, resolveWithinVault a.root a.user filename = .ok path →
    resolveWithinVault b.root b.user filename' ≠ .ok path
  /-- No tool call changes what lies in the directory of `b`. -/
  writes : ∀ env fs name args q, b.dest <:+ q → (runVaultTool env fs name a args).2.node q = fs.node q
  /-- No tool call answers or writes anything that depends on what lies there. -/
  reads : ∀ env fs fs' l' name args, Fs.AgreeOutside b.Owns fs fs' → Listing.AgreeOutside b.Owns env.listing l' →
    (runVaultTool { env with listing := l' } fs' name a args).1 = (runVaultTool env fs name a args).1 ∧
      Fs.AgreeOutside b.Owns (runVaultTool env fs name a args).2 (runVaultTool { env with listing := l' } fs' name a args).2

/-- The vault tools of two users of one vault root are confined to their own directories. -/
theorem vault_tools_confined (a b : Account) (hroot : a.root = b.root) (hne : a.user ≠ b.user) : Confined a b where
  below := resolve_or_refused a
  apart := fun _ _ path ha hb =>
    not_owned hroot hne (resolve_below ha).1 (List.suffix_refl path) (resolve_below hb).1
  writes := fun env fs name args _ hq => runVaultTool_frame hroot hne env fs name args hq
  reads := fun _ _ _ _ name args h hl => runVaultTool_agrees hroot hne h hl name args

def siblingUser : Account where
  root := someUser.root
  user := "u10"
  rootPlain := someUser.rootPlain
  userPlain := ⟨by decide, by decide, by decide, by decide⟩
  userNoNul := by decide

theorem vault_tools_confined_siblings : Confined someUser siblingUser :=
  vault_tools_confined someUser siblingUser rfl (by decide)

/-- The sibling's notes are refused, though their paths begin with the path of `u1`. -/
example : (resolveWithinVault someUser.root someUser.user "../u10/plan.md").toOption = none := by decide +kernel

end CoreHeartbeat.Vault
