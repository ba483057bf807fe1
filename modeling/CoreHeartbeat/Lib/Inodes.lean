/-
  CoreHeartbeat.Lib.Inodes — one directory whose names are links to inodes: what an open file is
  written through is the inode, whatever the name it was opened under has come to stand for.

  A name is found by its key, and remembers how it was spelled when it was made; a mount that
  ignores case has one key for several spellings. A directory carries its own well-formedness:
  the links lead to inodes that were allocated, and no two of them to one (there are no hard
  links). A file that was opened and then unlinked keeps its inode, which no name leads to any
  more.

  The operations are the system calls: a file made under a name that is free, a write through an
  inode, a rename in place of what stood there, an unlink. Each is total here; which of them may
  fail, and when, is the program's model.

  Proved:
  - `create_lookup`, `rename_lookup`, `unlink_lookup_ne` and their siblings: what each call
    leaves under a name, under the one it names and under any other.
  - `write_content`, `create_content_old`: what each call leaves in an inode.
  - `write_elsewhere`: a write is seen under one name at most.
-/

import Mathlib.Data.List.AList
import Mathlib.Logic.Function.Basic

namespace Inodes

universe u v w

inductive Link where
  | dir
  | file (inode : Nat)
  deriving DecidableEq

variable {κ : Type u} [DecidableEq κ] {ν : Type v} {β : Type w}

structure Dir (κ : Type u) [DecidableEq κ] (ν : Type v) (β : Type w) where
  links : AList fun _ : κ => ν × Link
  content : Nat → β
  next : Nat
  allocated : ∀ {k name i}, links.lookup k = some (name, .file i) → i < next
  once : ∀ {k k' name name' i}, links.lookup k = some (name, .file i) → links.lookup k' = some (name', .file i) → k = k'

namespace Dir

def write (m : Dir κ ν β) (i : Nat) (data : β) : Dir κ ν β :=
  { m with content := Function.update m.content i data }

/-- Make a new file, under a name that stands for nothing else afterwards. -/
def create (m : Dir κ ν β) (k : κ) (name : ν) (data : β) : Dir κ ν β where
  links := m.links.insert k (name, .file m.next)
  content := Function.update m.content m.next data
  next := m.next + 1
  allocated := by
    intro k' name' i h
    by_cases hk : k' = k
    · subst hk
      rw [AList.lookup_insert] at h
      cases h
      exact Nat.lt_succ_self _
    · rw [AList.lookup_insert_ne hk] at h
      exact Nat.lt_succ_of_lt (m.allocated h)
  once := by
    intro k₁ k₂ n₁ n₂ i h₁ h₂
    have hnew : ∀ {k' name'}, k' ≠ k → (m.links.insert k (name, .file m.next)).lookup k' = some (name', .file i) →
        m.links.lookup k' = some (name', .file i) ∧ i < m.next := by
      intro k' name' hk h
      rw [AList.lookup_insert_ne hk] at h
      exact ⟨h, m.allocated h⟩
    have hold : ∀ {name'}, (m.links.insert k (name, .file m.next)).lookup k = some (name', .file i) → i = m.next := by
      intro name' h
      rw [AList.lookup_insert] at h
      cases h
      rfl
    by_cases hk₁ : k₁ = k
    · by_cases hk₂ : k₂ = k
      · rw [hk₁, hk₂]
      · subst hk₁
        have := hold h₁
        have := (hnew hk₂ h₂).2
        omega
    · by_cases hk₂ : k₂ = k
      · subst hk₂
        have := hold h₂
        have := (hnew hk₁ h₁).2
        omega
      · exact m.once (hnew hk₁ h₁).1 (hnew hk₂ h₂).1

def unlink (m : Dir κ ν β) (k : κ) : Dir κ ν β where
  links := m.links.erase k
  content := m.content
  next := m.next
  allocated := by
    intro k' name i h
    by_cases hk : k' = k
    · rw [hk, AList.lookup_erase] at h
      cases h
    · rw [AList.lookup_erase_ne hk] at h
      exact m.allocated h
  once := by
    intro k₁ k₂ n₁ n₂ i h₁ h₂
    have hkept : ∀ {k' name'}, (m.links.erase k).lookup k' = some (name', .file i) →
        m.links.lookup k' = some (name', .file i) := by
      intro k' name' h
      by_cases hk : k' = k
      · rw [hk, AList.lookup_erase] at h
        cases h
      · rwa [AList.lookup_erase_ne hk] at h
    exact m.once (hkept h₁) (hkept h₂)

/-- The links of a directory that takes what stands under `k` to `k'`. -/
theorem move_lookup {m : Dir κ ν β} {k k' q : κ} {name name' old : ν} {link : Link} {i : Nat}
    (hlink : m.links.lookup k = some (old, link))
    (h : ((m.links.erase k).insert k' (name', link)).lookup q = some (name, .file i)) :
    (q = k' ∧ link = .file i) ∨ (q ≠ k' ∧ q ≠ k ∧ m.links.lookup q = some (name, .file i)) := by
  by_cases hq : q = k'
  · rw [hq, AList.lookup_insert] at h
    cases h
    exact Or.inl ⟨hq, rfl⟩
  · rw [AList.lookup_insert_ne hq] at h
    by_cases hk : q = k
    · rw [hk, AList.lookup_erase] at h
      cases h
    · rw [AList.lookup_erase_ne hk] at h
      exact Or.inr ⟨hq, hk, h⟩

/-- Give what stands under `k` the name `k'`, in place of what had it. -/
def rename (m : Dir κ ν β) (k k' : κ) (name' : ν) : Dir κ ν β :=
  match hlink : m.links.lookup k with
  | none => m
  | some (_, link) =>
    { links := (m.links.erase k).insert k' (name', link)
      content := m.content
      next := m.next
      allocated := by
        intro q name i h
        rcases move_lookup hlink h with ⟨-, rfl⟩ | ⟨-, -, h⟩
        · exact m.allocated hlink
        · exact m.allocated h
      once := by
        intro q₁ q₂ n₁ n₂ i h₁ h₂
        rcases move_lookup hlink h₁ with ⟨hq₁, hmoved⟩ | ⟨-, hk₁, hold₁⟩
        · rcases move_lookup hlink h₂ with ⟨hq₂, -⟩ | ⟨-, hk₂, hold₂⟩
          · rw [hq₁, hq₂]
          · rw [hmoved] at hlink
            exact absurd (m.once hold₂ hlink) hk₂
        · rcases move_lookup hlink h₂ with ⟨-, hmoved⟩ | ⟨-, -, hold₂⟩
          · rw [hmoved] at hlink
            exact absurd (m.once hold₁ hlink) hk₁
          · exact m.once hold₁ hold₂ }

/-! ## What the calls leave -/

variable {m : Dir κ ν β} {k k' q : κ} {name : ν} {i j : Nat} {data : β}

@[simp] theorem write_links : (m.write i data).links = m.links := rfl

@[simp] theorem write_content : (m.write i data).content i = data := Function.update_self ..

theorem write_content_ne (h : j ≠ i) : (m.write i data).content j = m.content j := Function.update_of_ne h ..

/-- What is written through one name is not seen under another. -/
theorem write_elsewhere {name' : ν} (hk : m.links.lookup k = some (name, .file i))
    (hq : m.links.lookup q = some (name', .file j)) (hne : q ≠ k) : (m.write i data).content j = m.content j := by
  refine write_content_ne ?_
  rintro rfl
  exact hne (m.once hq hk)

theorem create_lookup : (m.create k name data).links.lookup k = some (name, .file m.next) := AList.lookup_insert _

theorem create_lookup_ne (h : q ≠ k) : (m.create k name data).links.lookup q = m.links.lookup q :=
  AList.lookup_insert_ne h

@[simp] theorem create_content : (m.create k name data).content m.next = data := Function.update_self ..

theorem create_content_old {name' : ν} (h : m.links.lookup q = some (name', .file j)) :
    (m.create k name data).content j = m.content j :=
  Function.update_of_ne (Nat.ne_of_lt (m.allocated h)) ..

theorem unlink_lookup_ne (h : q ≠ k) : (m.unlink k).links.lookup q = m.links.lookup q := AList.lookup_erase_ne h

theorem rename_content : (m.rename k k' name).content = m.content := by
  unfold rename
  split <;> rfl

theorem rename_lookup {old : ν} {link : Link} (h : m.links.lookup k = some (old, link)) :
    (m.rename k k' name).links.lookup k' = some (name, link) := by
  unfold rename
  split
  · rename_i hnone
    rw [h] at hnone
    cases hnone
  · rename_i hsome
    rw [h] at hsome
    cases hsome
    exact AList.lookup_insert _

theorem rename_lookup_old (h : k ≠ k') : (m.rename k k' name).links.lookup k = none := by
  unfold rename
  split
  · assumption
  · exact (AList.lookup_insert_ne h).trans (AList.lookup_erase _ _)

theorem rename_lookup_ne (hk : q ≠ k) (hk' : q ≠ k') : (m.rename k k' name).links.lookup q = m.links.lookup q := by
  unfold rename
  split
  · rfl
  · exact (AList.lookup_insert_ne hk').trans (AList.lookup_erase_ne hk)

end Dir

end Inodes
