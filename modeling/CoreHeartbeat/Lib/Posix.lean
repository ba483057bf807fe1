/-
  CoreHeartbeat.Lib.Posix — a file tree without symbolic links, and the path arithmetic of
  `os.path` on it.

  A path is its components, innermost first (`[]` is the root), so the parent is the tail and `p
  <:+ q` says that `q` lies in the tree of `p`. A tree carries its own well-formedness:
  everything that exists stands in a directory. The operations are the system calls a program
  sees (`mkdir`, `put`, `rmtree`, `makedirs`): they succeed with a new tree or fail, and
  `makedirs` may fail with part of its way made.

  Paths also come as raw components, with empty ones, dots and double dots, from a text a client
  chose. `normalize` is what `os.path.realpath` makes of them where there are no links, and
  `realpathJoin` what it makes of a name joined onto a base. `LeadsBelow` says of raw
  components, without resolving them, that they lead strictly below a base.

  Proved:
  - `fileAt_*`, `isDir_*`: what each operation does to the files and directories, and that it
    touches no others.
  - `AgreeOutside.*`: an operation outside a part of the tree does the same in two trees that
    agree there.
  - `render_startsWith`: the containment test on path strings, `target.startswith(base + "/")`,
    is containment in the tree.
  - `realpathJoin_join`, `makedirs_normalize`: a joined path is resolved part by part, and
    `makedirs` makes the directory that its components lead to.
  - `leadsBelow_iff`: the names that stay below a base.
-/

import Mathlib.Data.List.Infix
import Mathlib.Logic.Function.Basic

namespace Posix

abbrev Path := List String

inductive Node (α : Type) where
  | dir
  | file (data : α)

structure Fs (α : Type) where
  node : Path → Option (Node α)
  root : node [] = some .dir
  parent : ∀ name p, node (name :: p) ≠ none → node p = some .dir

variable {α : Type}

namespace Fs

def isDir (fs : Fs α) (p : Path) : Bool :=
  match fs.node p with
  | some .dir => true
  | _ => false

def fileAt (fs : Fs α) (p : Path) : Option α :=
  match fs.node p with
  | some (.file data) => some data
  | _ => none

theorem isDir_iff {fs : Fs α} {p : Path} : fs.isDir p = true ↔ fs.node p = some .dir := by
  unfold isDir
  split <;> simp_all

theorem fileAt_eq_some {fs : Fs α} {p : Path} {data : α} : fs.fileAt p = some data ↔ fs.node p = some (.file data) := by
  unfold fileAt
  split <;> simp_all

theorem fileAt_congr {fs fs' : Fs α} {p : Path} (h : fs.node p = fs'.node p) : fs.fileAt p = fs'.fileAt p := by
  unfold fileAt; rw [h]

/-- Nothing lies below a path that is not a directory. -/
theorem nothing_below {fs : Fs α} {p : Path} (h : fs.isDir p = false) (q : Path) (hq : q ≠ []) :
    fs.node (q ++ p) = none := by
  induction q with
  | nil => exact absurd rfl hq
  | cons name q ih =>
    by_contra hne
    have hdir := fs.parent name (q ++ p) hne
    cases q with
    | nil => rw [List.nil_append, ← isDir_iff, h] at hdir; cases hdir
    | cons name' q => rw [ih (by simp)] at hdir; cases hdir

theorem fileAt_of_dir {fs : Fs α} {p : Path} (h : fs.isDir p = true) : fs.fileAt p = none := by
  simp [fileAt, isDir_iff.mp h]

/-- No file lies below a path that is not a directory. -/
theorem fileAt_below {fs : Fs α} {p q : Path} (h : fs.isDir p = false) (hq : p <:+ q) (hne : p ≠ q) :
    fs.fileAt q = none := by
  obtain ⟨r, rfl⟩ := hq
  have hr : r ≠ [] := fun hr => hne (by rw [hr, List.nil_append])
  simp [fileAt, nothing_below h r hr]

/-! ## Operations -/

/-- Set the entry of a name that is no directory (so nothing lies below it). -/
def graft (fs : Fs α) (name : String) (p : Path) (n : Option (Node α)) (hp : fs.isDir p = true)
    (hleaf : fs.isDir (name :: p) = false) : Fs α where
  node := Function.update fs.node (name :: p) n
  root := by rw [Function.update_of_ne (by simp)]; exact fs.root
  parent := by
    intro name' q hq
    by_cases hqp : q = name :: p
    · subst hqp
      have hlen : name' :: name :: p ≠ name :: p := fun h => by simpa using congrArg List.length h
      rw [Function.update_of_ne hlen] at hq
      have hdir := isDir_iff.mpr (fs.parent name' (name :: p) hq)
      rw [hleaf] at hdir; cases hdir
    · rw [Function.update_of_ne hqp]
      by_cases hself : name' :: q = name :: p
      · obtain ⟨-, rfl⟩ := List.cons.inj hself
        exact isDir_iff.mp hp
      · rw [Function.update_of_ne hself] at hq
        exact fs.parent name' q hq

/-- `mkdir`: fails when the parent is no directory or the name is taken. -/
def mkdir (fs : Fs α) (name : String) (p : Path) : Option (Fs α) :=
  if h : fs.isDir p = true ∧ (fs.node (name :: p)).isNone = true then
    some (fs.graft name p (some .dir) h.1 (by simp [isDir, Option.isNone_iff_eq_none.mp h.2]))
  else none

/-- Create or replace a file: fails when the parent is no directory or the name is one. -/
def put (fs : Fs α) (name : String) (p : Path) (data : α) : Option (Fs α) :=
  if h : fs.isDir p = true ∧ fs.isDir (name :: p) = false then some (fs.graft name p (some (.file data)) h.1 h.2)
  else none

/-- `shutil.rmtree(…, ignore_errors=True)`: nothing happens to what is no directory. -/
def rmtree (fs : Fs α) (name : String) (p : Path) : Fs α :=
  if fs.isDir (name :: p) then
    { node := fun q => if name :: p <:+ q then none else fs.node q
      root := by rw [if_neg (by simp)]; exact fs.root
      parent := by
        intro name' q hq
        by_cases h : name :: p <:+ name' :: q
        · simp [h] at hq
        · have h' : ¬ name :: p <:+ q := fun hs => h (hs.trans (List.suffix_cons _ _))
          rw [if_neg h] at hq
          rw [if_neg h']
          exact fs.parent name' q hq }
  else fs

/-- `os.makedirs(…, exist_ok=True)` of the raw components `cs`, from the directory `cur` on:
    the directory they lead to, or an error with what was made before it. -/
def makedirs (fs : Fs α) (cur : Path) : List String → Fs α × Option Path
  | [] => (fs, if fs.isDir cur then some cur else none)
  | c :: cs =>
    if !fs.isDir cur then (fs, none)
    else if c = "" ∨ c = "." then fs.makedirs cur cs
    else if c = ".." then fs.makedirs cur.tail cs
    else
      match fs.mkdir c cur with
      | some fs => fs.makedirs (c :: cur) cs
      | none => fs.makedirs (c :: cur) cs

/-! ## What they do to the files -/

theorem fileAt_graft_ne {fs : Fs α} {name : String} {p q : Path} {n : Option (Node α)} (hp : fs.isDir p = true)
    (hleaf : fs.isDir (name :: p) = false) (h : q ≠ name :: p) : (fs.graft name p n hp hleaf).fileAt q = fs.fileAt q :=
  fileAt_congr (Function.update_of_ne h _ _)

theorem fileAt_mkdir {fs fs' : Fs α} {name : String} {p : Path} (h : fs.mkdir name p = some fs') (q : Path) :
    fs'.fileAt q = fs.fileAt q := by
  unfold mkdir at h
  split at h
  · rename_i hcan
    cases h
    by_cases hq : q = name :: p
    · subst hq
      simp [fileAt, graft, Option.isNone_iff_eq_none.mp hcan.2]
    · exact fileAt_graft_ne _ _ hq
  · cases h

theorem isDir_mkdir {fs fs' : Fs α} {name : String} {p : Path} (h : fs.mkdir name p = some fs') (q : Path) :
    fs'.isDir q = true ↔ fs.isDir q = true ∨ q = name :: p := by
  unfold mkdir at h
  split at h
  · rename_i hcan
    cases h
    by_cases hq : q = name :: p
    · subst hq
      simp [isDir, graft]
    · simp [isDir, graft, hq]
  · cases h

theorem put_eq_some {fs fs' : Fs α} {name : String} {p : Path} {data : α} :
    fs.put name p data = some fs' ↔ ∃ (hp : fs.isDir p = true) (hleaf : fs.isDir (name :: p) = false),
      fs' = fs.graft name p (some (.file data)) hp hleaf := by
  unfold put
  split
  · rename_i h
    simp only [Option.some.injEq, h, exists_prop_of_true, eq_comm]
  · rename_i h
    simp only [reduceCtorEq, false_iff]
    intro h
    obtain ⟨hp, hleaf, -⟩ := h
    exact h ⟨hp, hleaf⟩

theorem put_isSome {fs : Fs α} {name : String} {p : Path} {data : α} :
    (fs.put name p data).isSome = true ↔ fs.isDir p = true ∧ fs.isDir (name :: p) = false := by
  unfold put
  split <;> simp_all

theorem fileAt_put {fs fs' : Fs α} {name : String} {p : Path} {data : α} (h : fs.put name p data = some fs')
    (q : Path) :
    fs'.fileAt q = if q = name :: p then some data else fs.fileAt q := by
  obtain ⟨hp, hleaf, rfl⟩ := put_eq_some.mp h
  split
  · rename_i hq; subst hq
    simp [fileAt, graft]
  · rename_i hq
    exact fileAt_graft_ne hp hleaf hq

theorem fileAt_rmtree {fs : Fs α} {name : String} {p : Path} (h : fs.isDir (name :: p) = true) (q : Path) :
    (fs.rmtree name p).fileAt q = if name :: p <:+ q then none else fs.fileAt q := by
  unfold rmtree
  rw [if_pos h]
  split <;> simp_all [fileAt]

theorem isDir_rmtree {fs : Fs α} {name : String} {p : Path} (h : fs.isDir (name :: p) = true) (q : Path) :
    (fs.rmtree name p).isDir q = (fs.isDir q && !decide (name :: p <:+ q)) := by
  unfold rmtree
  rw [if_pos h]
  by_cases hq : name :: p <:+ q <;> simp [isDir, hq]

theorem fileAt_makedirs (fs : Fs α) (cur : Path) (cs : List String) (q : Path) :
    (fs.makedirs cur cs).1.fileAt q = fs.fileAt q := by
  fun_induction fs.makedirs cur cs with
  | case1 => rfl
  | case2 => rfl
  | case3 fs cur c cs _ _ ih => exact ih
  | case4 fs cur cs _ _ ih => exact ih
  | case5 fs cur c cs _ _ _ fs' hmk ih => rw [ih]; exact fileAt_mkdir hmk q
  | case6 fs cur c cs _ _ _ hmk ih => exact ih

/-- From a plain path `makedirs` leads to just that directory, and makes no others. -/
theorem makedirs_plain {fs fs' : Fs α} {cur : Path} {cs : List String} {dir : Option Path}
    (hcs : ∀ c ∈ cs, c ≠ "" ∧ c ≠ "." ∧ c ≠ "..") (h : fs.makedirs cur cs = (fs', dir)) :
    (∀ d, dir = some d → d = cs.reverse ++ cur) ∧
      ∀ q, fs'.isDir q = true → fs.isDir q = true ∨ q <:+ cs.reverse ++ cur := by
  fun_induction fs.makedirs cur cs with
  | case1 fs cur =>
    cases h
    exact ⟨fun d hd => by simpa [eq_comm] using (Option.ite_none_right_eq_some.mp hd).2, fun q hq => Or.inl hq⟩
  | case2 fs cur => cases h; exact ⟨nofun, fun q hq => Or.inl hq⟩
  | case3 fs cur c cs _ hdot => exact absurd hdot (by have := hcs c List.mem_cons_self; tauto)
  | case4 fs cur cs => exact absurd rfl (hcs ".." List.mem_cons_self).2.2
  | case5 fs cur c cs _ _ _ fs'' hmk ih =>
    obtain ⟨hdir, hmade⟩ := ih (fun d hd => hcs d (List.mem_cons_of_mem c hd)) h
    rw [List.reverse_cons, List.append_assoc]
    refine ⟨hdir, fun q hq => ?_⟩
    rcases hmade q hq with hq | hq
    · rcases (isDir_mkdir hmk q).mp hq with hq | rfl
      · exact Or.inl hq
      · exact Or.inr (List.suffix_append _ _)
    · exact Or.inr hq
  | case6 fs cur c cs _ _ _ hmk ih =>
    rw [List.reverse_cons, List.append_assoc]
    exact ih (fun d hd => hcs d (List.mem_cons_of_mem c hd)) h

/-- Where no file stands in the way `makedirs` succeeds. -/
theorem makedirs_ok {fs : Fs α} {cur : Path} {cs : List String} (hcs : ∀ c ∈ cs, c ≠ "" ∧ c ≠ "." ∧ c ≠ "..")
    (hcur : fs.isDir cur = true) (hfree : ∀ q, q <:+ cs.reverse ++ cur → fs.fileAt q = none) :
    ∃ fs', fs.makedirs cur cs = (fs', some (cs.reverse ++ cur)) := by
  induction cs generalizing fs cur with
  | nil => exact ⟨fs, by simp [makedirs, hcur]⟩
  | cons c cs ih =>
    have hc := hcs c List.mem_cons_self
    have hcs' := fun d hd => hcs d (List.mem_cons_of_mem c hd)
    rw [List.reverse_cons, List.append_assoc] at hfree ⊢
    simp only [makedirs, hcur, Bool.not_true, Bool.false_eq_true, if_false, hc.1, hc.2.1, hc.2.2, or_self]
    cases hmk : fs.mkdir c cur with
    | some fs' =>
      refine ih hcs' ((isDir_mkdir hmk _).mpr (Or.inr rfl)) fun q hq => ?_
      rw [fileAt_mkdir hmk]; exact hfree q hq
    | none =>
      -- the name is taken, and not by a file
      have hdir : fs.isDir (c :: cur) = true := by
        have hnone : fs.fileAt (c :: cur) = none := hfree _ (List.suffix_append _ _)
        unfold mkdir at hmk
        cases hn : fs.node (c :: cur) with
        | none => simp [hcur, hn] at hmk
        | some n =>
          cases n with
          | dir => exact isDir_iff.mpr hn
          | file data => rw [fileAt_eq_some.mpr hn] at hnone; cases hnone
      exact ih hcs' hdir hfree

/-- What stands above an existing entry is no file. -/
theorem fileAt_above {fs : Fs α} {p q : Path} (hq : fs.node q ≠ none) (h : p <:+ q) (hne : p ≠ q) :
    fs.fileAt p = none := by
  obtain ⟨r, rfl⟩ := h
  have hr : r ≠ [] := fun hr => hne (by rw [hr, List.nil_append])
  cases hf : fs.fileAt p with
  | none => rfl
  | some data =>
    have hnd : fs.isDir p = false := by simp [isDir, fileAt_eq_some.mp hf]
    exact absurd (nothing_below hnd r hr) hq

/-- The directory that `makedirs` returns is one. -/
theorem isDir_makedirs {fs fs' : Fs α} {cur dir : Path} {cs : List String} (h : fs.makedirs cur cs = (fs', some dir)) :
    fs'.isDir dir = true := by
  fun_induction fs.makedirs cur cs with
  | case1 =>
    simp only [Prod.mk.injEq, Option.ite_none_right_eq_some, Option.some.injEq] at h
    obtain ⟨rfl, hdir, rfl⟩ := h
    exact hdir
  | case2 => simp at h
  | case3 fs cur c cs _ _ ih => exact ih h
  | case4 fs cur cs _ _ ih => exact ih h
  | case5 fs cur c cs _ _ _ fs'' hmk ih => exact ih h
  | case6 fs cur c cs _ _ _ hmk ih => exact ih h

/-- What stands above a directory is a directory. -/
theorem isDir_above {fs : Fs α} {p q : Path} (hq : fs.isDir q = true) (h : p <:+ q) : fs.isDir p = true := by
  obtain ⟨r, rfl⟩ := h
  rcases List.eq_nil_or_concat r with rfl | ⟨r', c, rfl⟩
  · exact hq
  · cases hp : fs.isDir p with
    | true => rfl
    | false =>
      have hnone := nothing_below hp (r'.concat c) (by simp)
      rw [isDir_iff.mp hq] at hnone
      cases hnone

/-- `makedirs` leaves every directory standing. -/
theorem isDir_makedirs_of {fs : Fs α} (cur : Path) (cs : List String) {q : Path} (hq : fs.isDir q = true) :
    (fs.makedirs cur cs).1.isDir q = true := by
  fun_induction fs.makedirs cur cs with
  | case1 => exact hq
  | case2 => exact hq
  | case3 fs cur c cs _ _ ih => exact ih hq
  | case4 fs cur cs _ _ ih => exact ih hq
  | case5 fs cur c cs _ _ _ fs' hmk ih => exact ih ((isDir_mkdir hmk q).mpr (Or.inl hq))
  | case6 fs cur c cs _ _ _ hmk ih => exact ih hq

/-- A file that is put makes no directory and takes none. -/
theorem isDir_put {fs fs' : Fs α} {name : String} {p : Path} {data : α} (h : fs.put name p data = some fs')
    (q : Path) : fs'.isDir q = fs.isDir q := by
  obtain ⟨hp, hleaf, rfl⟩ := put_eq_some.mp h
  by_cases hq : q = name :: p
  · rw [hq, hleaf]
    simp [isDir, graft]
  · simp [isDir, graft, hq]

/-! ## Trees that agree outside a set of paths -/

def AgreeOutside (S : Path → Prop) (fs fs' : Fs α) : Prop := ∀ q, ¬ S q → fs'.node q = fs.node q

section agree

variable {S : Path → Prop} {fs fs' : Fs α} {p : Path}

theorem AgreeOutside.isDir (h : AgreeOutside S fs fs') (hp : ¬ S p) : fs'.isDir p = fs.isDir p := by
  unfold Fs.isDir; rw [h p hp]

theorem AgreeOutside.fileAt (h : AgreeOutside S fs fs') (hp : ¬ S p) : fs'.fileAt p = fs.fileAt p :=
  fileAt_congr (h p hp)

theorem AgreeOutside.graft (h : AgreeOutside S fs fs') {name : String} {n : Option (Node α)}
    (hp : fs.isDir p = true) (hleaf : fs.isDir (name :: p) = false) (hp' : fs'.isDir p = true)
    (hleaf' : fs'.isDir (name :: p) = false) :
    AgreeOutside S (fs.graft name p n hp hleaf) (fs'.graft name p n hp' hleaf') := by
  intro q hq
  by_cases hqp : q = name :: p
  · subst hqp; simp [Fs.graft]
  · simp [Fs.graft, hqp, h q hq]

/-- Setting an entry outside `S` keeps the agreement and succeeds in both trees or in neither. -/
theorem AgreeOutside.put (h : AgreeOutside S fs fs') {name : String} (data : α) (hp : ¬ S p) (hname : ¬ S (name :: p)) :
    (fs.put name p data = none ∧ fs'.put name p data = none) ∨
      ∃ gs gs', fs.put name p data = some gs ∧ fs'.put name p data = some gs' ∧ AgreeOutside S gs gs' := by
  unfold Fs.put
  have hsame : (fs'.isDir p = true ∧ fs'.isDir (name :: p) = false) ↔
      (fs.isDir p = true ∧ fs.isDir (name :: p) = false) := by
    rw [h.isDir hp, h.isDir hname]
  by_cases hcan : fs.isDir p = true ∧ fs.isDir (name :: p) = false
  · exact Or.inr ⟨_, _, dif_pos hcan, dif_pos (hsame.mpr hcan),
      h.graft hcan.1 _ (hsame.mpr hcan).1 _⟩
  · exact Or.inl ⟨dif_neg hcan, dif_neg fun hcan' => hcan (hsame.mp hcan')⟩

theorem AgreeOutside.mkdir (h : AgreeOutside S fs fs') {name : String} (hp : ¬ S p) (hname : ¬ S (name :: p)) :
    (fs.mkdir name p = none ∧ fs'.mkdir name p = none) ∨
      ∃ gs gs', fs.mkdir name p = some gs ∧ fs'.mkdir name p = some gs' ∧ AgreeOutside S gs gs' := by
  unfold Fs.mkdir
  have hsame : (fs'.isDir p = true ∧ (fs'.node (name :: p)).isNone = true) ↔
      (fs.isDir p = true ∧ (fs.node (name :: p)).isNone = true) := by
    rw [h.isDir hp, h (name :: p) hname]
  by_cases hcan : fs.isDir p = true ∧ (fs.node (name :: p)).isNone = true
  · exact Or.inr ⟨_, _, dif_pos hcan, dif_pos (hsame.mpr hcan),
      h.graft hcan.1 _ (hsame.mpr hcan).1 _⟩
  · exact Or.inl ⟨dif_neg hcan, dif_neg fun hcan' => hcan (hsame.mp hcan')⟩

/-- `makedirs` along a way outside `S` does the same in both trees. -/
theorem AgreeOutside.makedirs (h : AgreeOutside S fs fs') (cur : Path) {cs : List String}
    (hcs : ∀ c ∈ cs, c ≠ "" ∧ c ≠ "." ∧ c ≠ "..") (hout : ∀ q, q <:+ cs.reverse ++ cur → ¬ S q) :
    (fs'.makedirs cur cs).2 = (fs.makedirs cur cs).2 ∧
      AgreeOutside S (fs.makedirs cur cs).1 (fs'.makedirs cur cs).1 := by
  induction cs generalizing fs fs' cur with
  | nil => exact ⟨by simp only [Fs.makedirs, h.isDir (hout cur (List.suffix_refl cur))], h⟩
  | cons c cs ih =>
    have hc := hcs c List.mem_cons_self
    have hcs' := fun d hd => hcs d (List.mem_cons_of_mem c hd)
    rw [List.reverse_cons, List.append_assoc] at hout
    have hcur : ¬ S cur := hout cur ((List.suffix_cons c cur).trans (List.suffix_append _ _))
    simp only [Fs.makedirs, hc.1, hc.2.1, hc.2.2, or_self, if_false, h.isDir hcur]
    cases fs.isDir cur with
    | false => exact ⟨rfl, h⟩
    | true =>
      simp only [Bool.not_true, Bool.false_eq_true, if_false]
      rcases h.mkdir hcur (hout (c :: cur) (List.suffix_append _ _)) with ⟨hno, hno'⟩ | ⟨gs, gs', hgs, hgs', hagree⟩
      · rw [hno, hno']; exact ih h _ hcs' hout
      · rw [hgs, hgs']; exact ih hagree _ hcs' hout

/-- `makedirs` touches nothing but the way it goes. -/
theorem node_makedirs {cur : Path} {cs : List String} (hcs : ∀ c ∈ cs, c ≠ "" ∧ c ≠ "." ∧ c ≠ "..") {q : Path}
    (hq : ¬ q <:+ cs.reverse ++ cur) : (fs.makedirs cur cs).1.node q = fs.node q := by
  induction cs generalizing fs cur with
  | nil => rfl
  | cons c cs ih =>
    have hc := hcs c List.mem_cons_self
    have hcs' := fun d hd => hcs d (List.mem_cons_of_mem c hd)
    rw [List.reverse_cons, List.append_assoc] at hq
    simp only [Fs.makedirs, hc.1, hc.2.1, hc.2.2, or_self, if_false]
    split
    · rfl
    · cases hmk : fs.mkdir c cur with
      | none => exact ih hcs' hq
      | some gs =>
        refine (ih hcs' hq).trans ?_
        unfold Fs.mkdir at hmk
        split at hmk
        · obtain rfl := Option.some.inj hmk
          exact Function.update_of_ne (fun heq : q = c :: cur => hq (heq ▸ List.suffix_append cs.reverse (c :: cur))) _ _
        · cases hmk

theorem node_put {name : String} {data : α} (h : fs.put name p data = some fs') {q : Path} (hq : q ≠ name :: p) :
    fs'.node q = fs.node q := by
  obtain ⟨hp, hleaf, rfl⟩ := put_eq_some.mp h
  exact Function.update_of_ne hq _ _

end agree

end Fs

/-! ## Paths as strings -/

/-- `path.split("/")`. -/
def components (path : String) : List String := (go [] path.toList).map String.ofList
where
  go (acc : List Char) : List Char → List (List Char)
    | [] => [acc.reverse]
    | c :: cs => if c = '/' then acc.reverse :: go [] cs else go (c :: acc) cs

/-- `os.path.realpath` of the raw components `cs` seen from `cur`, with no symbolic links. -/
def normalize (cur : Path) : List String → Path
  | [] => cur
  | c :: cs =>
    if c = "" ∨ c = "." then normalize cur cs
    else if c = ".." then normalize cur.tail cs
    else normalize (c :: cur) cs

/-- `os.path.realpath(os.path.join(base, filename))`: an absolute name overrides the base. -/
def realpathJoin (base : Path) (filename : String) : Path :=
  normalize (if filename.toList.head? = some '/' then [] else base) (components filename)

/-- `os.path.join` of two paths. -/
def join (a b : String) : String :=
  if b.toList.head? = some '/' then b
  else if a = "" ∨ a.toList.getLast? = some '/' then a ++ b
  else a ++ "/" ++ b

/-- A component as it stands in a path: no separator, not empty, no dot component. -/
structure PlainName (name : String) : Prop where
  noSlash : '/' ∉ name.toList
  nonempty : name ≠ ""
  noDot : name ≠ "."
  noDotDot : name ≠ ".."

def renderChars (p : Path) : List Char := p.reverse.flatMap fun name => '/' :: name.toList

def render (p : Path) : String := if p = [] then "/" else String.ofList (renderChars p)

theorem components_noSlash {path name : String} (h : name ∈ components path) : '/' ∉ name.toList := by
  unfold components at h
  obtain ⟨cs, hcs, rfl⟩ := List.mem_map.mp h
  have hgo : ∀ (acc l : List Char), '/' ∉ acc → ∀ cs ∈ components.go acc l, '/' ∉ cs := by
    intro acc l
    induction l generalizing acc with
    | nil => intro hacc cs hcs; simp only [components.go, List.mem_singleton] at hcs; subst hcs; simpa using hacc
    | cons c l ih =>
      intro hacc cs hcs
      simp only [components.go] at hcs
      split at hcs
      · rcases List.mem_cons.mp hcs with rfl | hcs
        · simpa using hacc
        · exact ih [] (by simp) cs hcs
      · rename_i hc
        exact ih (c :: acc) (by simpa [eq_comm] using ⟨hc, hacc⟩) cs hcs
  rw [String.toList_ofList]
  exact hgo [] _ (by simp) cs hcs

theorem components_of_noSlash {name : String} (h : '/' ∉ name.toList) : components name = [name] := by
  have hgo : ∀ acc l : List Char, '/' ∉ l → components.go acc l = [acc.reverse ++ l] := by
    intro acc l
    induction l generalizing acc with
    | nil => intro _; simp [components.go]
    | cons c l ih =>
      intro hl
      rw [List.mem_cons, not_or] at hl
      rw [components.go, if_neg (fun hc => hl.1 hc.symm), ih (c :: acc) hl.2]
      simp
  unfold components
  rw [hgo [] _ h]
  simp

/-- A component is no longer than its path. -/
theorem length_le_of_component {path name : String} (h : name ∈ components path) :
    name.toList.length ≤ path.toList.length := by
  have hgo : ∀ acc l : List Char, ∀ cs ∈ components.go acc l, cs.length ≤ acc.length + l.length := by
    intro acc l
    induction l generalizing acc with
    | nil =>
      intro cs hcs
      simp only [components.go, List.mem_singleton] at hcs
      simp [hcs]
    | cons c l ih =>
      intro cs hcs
      simp only [components.go] at hcs
      rw [List.length_cons]
      split at hcs
      · rcases List.mem_cons.mp hcs with rfl | hcs
        · rw [List.length_reverse]; omega
        · have := ih [] cs hcs
          rw [List.length_nil] at this
          omega
      · have := ih (c :: acc) cs hcs
        rw [List.length_cons] at this
        omega
  obtain ⟨cs, hcs, rfl⟩ := List.mem_map.mp h
  have := hgo [] _ cs hcs
  rw [String.toList_ofList]
  simpa using this

/-- The name of a path that the components lead to comes from them, unless the path leads
    back. -/
theorem mem_of_normalize {cur p : Path} {name : String} {cs : List String} (h : normalize cur cs = name :: p)
    (hnew : ¬ name :: p <:+ cur) : name ∈ cs := by
  fun_induction normalize cur cs with
  | case1 cur => exact absurd (h ▸ List.suffix_refl _) hnew
  | case2 cur c cs _ ih => exact List.mem_cons_of_mem _ (ih h hnew)
  | case3 cur cs _ ih => exact List.mem_cons_of_mem _ (ih h fun hs => hnew (hs.trans (List.tail_suffix cur)))
  | case4 cur c cs _ _ ih =>
    by_cases hs : name :: p <:+ c :: cur
    · rcases List.suffix_cons_iff.mp hs with heq | hs
      · rw [(List.cons.inj heq).1]
        exact List.mem_cons_self
      · exact absurd hs hnew
    · exact List.mem_cons_of_mem _ (ih h hs)

/-- A path that leads into the base itself ends in one of its components. -/
theorem mem_components_of_realpathJoin {base : Path} {path name : String} (h : realpathJoin base path = name :: base) :
    name ∈ components path := by
  refine mem_of_normalize h fun hs => ?_
  have hlen := hs.length_le
  split at hlen <;> simp only [List.length_cons, List.length_nil] at hlen <;> omega

theorem normalize_plain {cur : Path} {cs : List String} (hcur : ∀ name ∈ cur, PlainName name)
    (hcs : ∀ name ∈ cs, '/' ∉ name.toList) : ∀ name ∈ normalize cur cs, PlainName name := by
  fun_induction normalize cur cs with
  | case1 cur => exact hcur
  | case2 cur c cs _ ih => exact ih hcur fun name h => hcs name (List.mem_cons_of_mem _ h)
  | case3 cur cs _ ih =>
    exact ih (fun name h => hcur name (List.mem_of_mem_tail h)) fun name h => hcs name (List.mem_cons_of_mem _ h)
  | case4 cur c cs hdot hdd ih =>
    refine ih (fun name h => ?_) fun name h => hcs name (List.mem_cons_of_mem _ h)
    rcases List.mem_cons.mp h with rfl | h
    · exact ⟨hcs _ List.mem_cons_self, fun he => hdot (Or.inl he), fun he => hdot (Or.inr he), hdd⟩
    · exact hcur name h

theorem realpathJoin_plain {base : Path} (hbase : ∀ name ∈ base, PlainName name) (filename : String) :
    ∀ name ∈ realpathJoin base filename, PlainName name := by
  refine normalize_plain ?_ fun name h => components_noSlash h
  split
  · intro name h; cases h
  · exact hbase

/-- A plain name is joined as it stands. -/
theorem realpathJoin_plainName {name : String} (h : PlainName name) (base : Path) :
    realpathJoin base name = name :: base := by
  have hhead : name.toList.head? ≠ some '/' := fun hh => h.noSlash (List.mem_of_mem_head? hh)
  unfold realpathJoin
  rw [if_neg hhead, components_of_noSlash h.noSlash]
  simp [normalize, h.nonempty, h.noDot, h.noDotDot]

theorem components_append (x y : List Char) :
    components (String.ofList (x ++ '/' :: y)) = components (String.ofList x) ++ components (String.ofList y) := by
  have hgo : ∀ acc x : List Char, components.go acc (x ++ '/' :: y) = components.go acc x ++ components.go [] y := by
    intro acc x
    induction x generalizing acc with
    | nil => simp [components.go]
    | cons c x ih =>
      simp only [List.cons_append, components.go]
      split <;> simp [ih]
  simp only [components, String.toList_ofList, hgo, List.map_append]

theorem normalize_append (cur : Path) (l m : List String) : normalize cur (l ++ m) = normalize (normalize cur l) m := by
  induction l generalizing cur with
  | nil => rfl
  | cons c l ih =>
    simp only [List.cons_append, normalize]
    split
    · exact ih cur
    · split <;> exact ih _

/-- What follows a separator is resolved from where the part before it leads. -/
theorem realpathJoin_slash (cwd : Path) (x y : List Char) :
    realpathJoin cwd (String.ofList (x ++ '/' :: y)) =
      normalize (realpathJoin cwd (String.ofList (x ++ ['/']))) (components (String.ofList y)) := by
  have hhead : (x ++ '/' :: y).head? = (x ++ ['/']).head? := by cases x <;> rfl
  have hempty : components (String.ofList []) = [""] := rfl
  simp only [realpathJoin, components_append, normalize_append, String.toList_ofList, hhead, hempty, normalize,
    true_or, if_true]

/-- A separator at the end of a path changes nothing. -/
theorem realpathJoin_trailing (cwd : Path) {x : List Char} (hx : x ≠ []) :
    realpathJoin cwd (String.ofList (x ++ ['/'])) = realpathJoin cwd (String.ofList x) := by
  have hhead : (x ++ ['/']).head? = x.head? := by
    obtain ⟨c, x, rfl⟩ := List.exists_cons_of_ne_nil hx
    rfl
  have hempty : components (String.ofList []) = [""] := rfl
  simp only [realpathJoin, components_append, normalize_append, String.toList_ofList, hhead, hempty, normalize,
    true_or, if_true]

/-- Resolving a joined path is resolving its parts one after the other. -/
theorem realpathJoin_join (cwd : Path) (a b : String) :
    realpathJoin cwd (join a b) = realpathJoin (realpathJoin cwd a) b := by
  unfold join
  by_cases hb : b.toList.head? = some '/'
  · rw [if_pos hb]
    simp only [realpathJoin, hb, if_true]
  have hrest : ∀ base, realpathJoin base b = normalize base (components b) := fun base => by
    simp only [realpathJoin, if_neg hb]
  rw [if_neg hb, hrest]
  by_cases ha : a = ""
  · subst ha
    rw [if_pos (Or.inl rfl), String.empty_append, hrest]
    rfl
  by_cases hlast : a.toList.getLast? = some '/'
  · obtain ⟨x, hx⟩ := List.getLast?_eq_some_iff.mp hlast
    have hab : a ++ b = String.ofList (x ++ '/' :: b.toList) := by
      rw [← String.toList_inj, String.toList_append, hx, String.toList_ofList, List.append_assoc]; rfl
    rw [if_pos (Or.inr hlast), hab, realpathJoin_slash, String.ofList_toList, ← hx, String.ofList_toList]
  · have hab : a ++ "/" ++ b = String.ofList (a.toList ++ '/' :: b.toList) := by
      simp [← String.toList_inj]
    rw [if_neg (by simp [ha, hlast]), hab, realpathJoin_slash, String.ofList_toList,
      realpathJoin_trailing cwd (by simpa using ha), String.ofList_toList]

/-- A name ends at the first separator after it. -/
theorem name_eq_of_prefix {x y r s : List Char} (hx : '/' ∉ x) (hy : '/' ∉ y) (hr : r.head? = some '/')
    (hs : s = [] ∨ s.head? = some '/') (h : x ++ r <+: y ++ s) : x = y := by
  have hstop : ∀ z : List Char, z = [] ∨ z.head? = some '/' → z.takeWhile (· ≠ '/') = [] := by
    rintro (_ | ⟨c, z⟩) hz
    · rfl
    · obtain rfl : c = '/' := by simpa using hz
      simp
  have hpos : ∀ z : List Char, '/' ∉ z → ∀ c ∈ z, (decide (c ≠ '/')) = true := by
    intro z hz c hc
    simpa using fun hcs : c = '/' => hz (hcs ▸ hc)
  obtain ⟨u, hu⟩ := h
  have htake := congrArg (List.takeWhile (· ≠ '/')) hu
  have hru : (r ++ u).head? = some '/' := by rw [List.head?_append, hr]; rfl
  rw [List.append_assoc, List.takeWhile_append_of_pos (hpos x hx), List.takeWhile_append_of_pos (hpos y hy),
    hstop _ (Or.inr hru), hstop _ hs, List.append_nil, List.append_nil] at htake
  exact htake

theorem flatten_prefix {b t : List String} (hb : ∀ name ∈ b, '/' ∉ name.toList) (ht : ∀ name ∈ t, '/' ∉ name.toList) :
    (b.flatMap fun name => '/' :: name.toList) ++ ['/'] <+: (t.flatMap fun name => '/' :: name.toList) ↔
      b <+: t ∧ b ≠ t := by
  have hhead : ∀ l : List String, (l.flatMap fun name => '/' :: name.toList) = [] ∨
      (l.flatMap fun name => '/' :: name.toList).head? = some '/' := by
    rintro (_ | ⟨name, l⟩)
    · exact Or.inl rfl
    · exact Or.inr rfl
  induction b generalizing t with
  | nil =>
    cases t with
    | nil => simp
    | cons m t => simp
  | cons n b ih =>
    cases t with
    | nil => simp
    | cons m t =>
      have hn := hb n List.mem_cons_self
      have hm := ht m List.mem_cons_self
      have hb' := fun name h => hb name (List.mem_cons_of_mem n h)
      have ht' := fun name h => ht name (List.mem_cons_of_mem m h)
      simp only [List.flatMap_cons, List.cons_append, List.append_assoc, List.cons_prefix_cons, true_and, ne_eq,
        List.cons.injEq, not_and]
      constructor
      · intro h
        have hnm : n.toList = m.toList := by
          refine name_eq_of_prefix hn hm ?_ (hhead t) h
          rcases hhead b with hnil | hslash
          · rw [hnil]; rfl
          · rw [List.head?_append, hslash]; rfl
        rw [hnm, List.prefix_append_right_inj] at h
        obtain ⟨hpre, hne⟩ := (ih hb' ht').mp h
        exact ⟨⟨String.toList_inj.mp hnm, hpre⟩, fun _ => hne⟩
      · rintro ⟨⟨rfl, hpre⟩, hne⟩
        rw [List.prefix_append_right_inj]
        exact (ih hb' ht').mpr ⟨hpre, hne rfl⟩

/-- The test `target.startswith(base + "/")` on path strings is containment below `base`. -/
theorem render_startsWith {base target : Path} (hne : base ≠ []) (hbase : ∀ name ∈ base, PlainName name)
    (htarget : ∀ name ∈ target, PlainName name) :
    (render base ++ "/").toList <+: (render target).toList ↔ base <:+ target ∧ base ≠ target := by
  have hb : ∀ name ∈ base.reverse, '/' ∉ name.toList := fun name h => (hbase name (List.mem_reverse.mp h)).noSlash
  have ht : ∀ name ∈ target.reverse, '/' ∉ name.toList := fun name h => (htarget name (List.mem_reverse.mp h)).noSlash
  rw [← List.reverse_prefix, ← (List.reverse_injective.ne_iff (x := base) (y := target)), ← flatten_prefix hb ht]
  by_cases htn : target = []
  · subst htn
    obtain ⟨name, rest, rfl⟩ := List.exists_cons_of_ne_nil hne
    simp only [render, reduceCtorEq, if_false, if_true, String.toList_append, String.toList_ofList, renderChars,
      List.reverse_nil, List.flatMap_nil, List.prefix_nil]
    constructor
    · intro h
      have hlen := h.length_le
      simp at hlen
      omega
    · intro h
      simp at h
  · simp only [render, if_neg hne, if_neg htn, String.toList_append, String.toList_ofList, renderChars]
    exact Iff.rfl

/-- A directory that `makedirs` returns is the one the components lead to. -/
theorem makedirs_normalize {fs fs' : Fs α} {cur dir : Path} {cs : List String}
    (h : fs.makedirs cur cs = (fs', some dir)) : dir = normalize cur cs := by
  fun_induction fs.makedirs cur cs with
  | case1 =>
    simp only [Prod.mk.injEq, Option.ite_none_right_eq_some, Option.some.injEq] at h
    exact h.2.2.symm
  | case2 => simp at h
  | case3 fs cur c cs _ hdot ih => rw [normalize, if_pos hdot]; exact ih h
  | case4 fs cur cs _ hdot ih => rw [normalize, if_neg hdot, if_pos rfl]; exact ih h
  | case5 fs cur c cs _ hdot hdd fs'' hmk ih => rw [normalize, if_neg hdot, if_neg hdd]; exact ih h
  | case6 fs cur c cs _ hdot hdd hmk ih => rw [normalize, if_neg hdot, if_neg hdd]; exact ih h

/-- An ending without a separator stands after the last one. -/
theorem suffix_of_slash {ending x y : List Char} (hsep : '/' ∉ ending) (h : ending <:+ x ++ '/' :: y) :
    ending <:+ y := by
  rcases List.suffix_or_suffix_of_suffix h (List.suffix_append x ('/' :: y)) with hshort | hlong
  · rcases List.suffix_cons_iff.mp hshort with rfl | hshort
    · simp at hsep
    · exact hshort
  · exact absurd (hlong.subset List.mem_cons_self) hsep

/-- The last component of a path ends as the path does. -/
theorem getLast_components {ending : List Char} {path : String} (hsep : '/' ∉ ending) (h : ending <:+ path.toList) :
    ending <:+ ((components path).getLastD "").toList := by
  have hgo : ∀ (l acc : List Char), ending <:+ acc.reverse ++ l →
      ∃ rest last, components.go acc l = rest ++ [last] ∧ ending <:+ last := by
    intro l
    induction l with
    | nil => intro acc hend; exact ⟨[], acc.reverse, rfl, by simpa using hend⟩
    | cons c l ih =>
      intro acc hend
      rw [components.go]
      split
      · rename_i hc
        subst hc
        obtain ⟨rest, last, hgo, hlast⟩ := ih [] (by simpa using suffix_of_slash hsep hend)
        exact ⟨acc.reverse :: rest, last, by rw [hgo]; rfl, hlast⟩
      · exact ih (c :: acc) (by simpa using hend)
  obtain ⟨rest, last, hcomp, hlast⟩ := hgo path.toList [] (by simpa using h)
  rw [components, hcomp, List.map_append, List.getLastD_eq_getLast?, List.getLast?_append]
  simpa using hlast

/-- The folder of a file and its name make up the joined path. -/
theorem realpathJoin_file {base dir : Path} {filename : String} (hplain : PlainName ((components filename).getLastD ""))
    (hdir : dir = normalize (if filename.toList.head? = some '/' then [] else base) (components filename).dropLast) :
    (components filename).getLastD "" :: dir = realpathJoin base filename := by
  have hne : components filename ≠ [] := by
    intro h
    exact hplain.nonempty (by rw [h]; rfl)
  have hsplit : components filename = (components filename).dropLast ++ [(components filename).getLastD ""] := by
    rw [List.getLastD_eq_getLast?, List.getLast?_eq_some_getLast hne]
    exact (List.dropLast_append_getLast hne).symm
  unfold realpathJoin
  have hkept : ¬ ((components filename).getLastD "" = "" ∨ (components filename).getLastD "" = ".") := by
    simp only [hplain.nonempty, hplain.noDot, or_self, not_false_eq_true]
  rw [hsplit, normalize_append, ← hsplit, ← hdir, normalize, if_neg hkept, if_neg hplain.noDotDot]
  rfl

/-! ## Relative names -/

/-- How the components `cs` lead on from a place `up` levels higher and `down` from there:
    the levels left in all, and the names gone down again. -/
def relative (up : Nat) (down : Path) : List String → Nat × Path
  | [] => (up, down)
  | c :: cs =>
    if c = "" ∨ c = "." then relative up down cs
    else if c = ".." then
      match down with
      | [] => relative (up + 1) [] cs
      | _ :: down => relative up down cs
    else relative up (c :: down) cs

theorem normalize_relative (cur : Path) (up : Nat) (down : Path) (cs : List String) :
    normalize (down ++ cur.drop up) cs = (relative up down cs).2 ++ cur.drop (relative up down cs).1 := by
  fun_induction relative up down cs with
  | case1 up down => rfl
  | case2 up down c cs hdot ih => rw [normalize, if_pos hdot, ih]
  | case3 up cs hdot ih =>
    rw [normalize, if_neg hdot, if_pos rfl, List.nil_append, List.tail_drop]
    exact ih
  | case4 up cs name down hdot ih =>
    rw [normalize, if_neg hdot, if_pos rfl]
    exact ih
  | case5 up down c cs hdot hdd ih =>
    rw [normalize, if_neg hdot, if_neg hdd]
    exact ih

/-- The name leads below `base`: the levels of `base` that it leaves, all of them for an
    absolute name, it comes down through again, and goes on. -/
def LeadsBelow (base : Path) (filename : String) : Prop :=
  let (up, down) := relative 0 [] (components filename)
  let left := if filename.toList.head? = some '/' then base else base.take up
  left <:+ down ∧ left ≠ down

instance (base : Path) (filename : String) : Decidable (LeadsBelow base filename) := by
  unfold LeadsBelow; infer_instance

theorem leadsBelow_iff (base : Path) (filename : String) :
    LeadsBelow base filename ↔ base <:+ realpathJoin base filename ∧ base ≠ realpathJoin base filename := by
  unfold LeadsBelow realpathJoin
  rcases hrel : relative 0 [] (components filename) with ⟨up, down⟩
  have hnorm : ∀ cur, normalize cur (components filename) = down ++ cur.drop up := by
    intro cur
    have := normalize_relative cur 0 [] (components filename)
    rwa [hrel] at this
  rw [hnorm]
  by_cases habs : filename.toList.head? = some '/'
  · simp [habs]
  · have hsplit : base.take up ++ base.drop up = base := List.take_append_drop up base
    simp only [habs, if_false]
    rw [← @List.suffix_append_self_iff _ _ _ (base.drop up), hsplit]
    refine and_congr_right fun _ => not_congr ?_
    rw [← List.append_left_inj (base.drop up), hsplit]

end Posix
