/-
  CoreHeartbeat.Services.Secrets — secrets from mounted files, or from the environment
  (`services/secrets.py`).

  A secret's name gives two variables: `$NAME_FILE` is the path of a mounted file, `$NAME` the
  value itself. A file is read when its secret is first asked for, stripped, and kept by its
  path until the cache is reset; a file that cannot be read, or is blank, is not kept and is
  tried again. A file that is no UTF-8 raises.

  The host may change between any two calls: its variables, its files and whether they can be
  read. A run is a list of calls of any secrets, resets and changes.

  Proved:
  - `secret_cache`: what a call adds to the cache is about its own file.
  - `secret_contract`: over every run a call prefers the text first read of its own file since
    the last reset, then what the file has now, then the environment, then the default; no other
    secret plays a part, unless it names the same file.
  - `secret_stands`: what a call got from a file stands until a reset, whatever becomes of the
    file.
-/

import CoreHeartbeat.Lib.PyText
import Mathlib.Logic.Function.Basic

namespace CoreHeartbeat.Services

/-- An exception of `read_text`: an `OSError`, or bytes that are no UTF-8. -/
inductive ReadFault where
  | os
  | decode
  deriving DecidableEq

structure Host where
  env : String → Option String
  files : String → Except ReadFault String

def stripped (text : String) : String := String.ofList (PyText.strip text.toList)

/-- The path in `$NAME_FILE`. -/
def Host.path (host : Host) (name : String) : String := stripped ((host.env (name ++ "_FILE")).getD "")

/-- `$NAME` or the default; an empty variable is as good as none. -/
def Host.fallback (host : Host) (name : String) (default : Option String) : Option String :=
  match host.env name with
  | none => default
  | some value => if value = "" then default else some value

abbrev Cache : Type := String → Option String

/-- `secret`, with `_cache`. -/
def secret (host : Host) (cache : Cache) (name : String) (default : Option String) :
    Except ReadFault (Option String) × Cache :=
  let path := host.path name
  if path = "" then (.ok (host.fallback name default), cache)
  else
    match cache path with
    | some cached => (.ok (some cached), cache)
    | none =>
      match host.files path with
      | .error .os => (.ok (host.fallback name default), cache)
      | .error .decode => (.error .decode, cache)
      | .ok text =>
        if stripped text = "" then (.ok (host.fallback name default), cache)
        else (.ok (some (stripped text)), Function.update cache path (some (stripped text)))

/-! ## Runs -/

inductive SecretEvent where
  | called (name : String) (default : Option String)
  /-- The environment or a file is another one. -/
  | changed (host : Host)
  /-- `reset_cache`. -/
  | reset

structure Secrets where
  host : Host
  cache : Cache

def Secrets.after (s : Secrets) : SecretEvent → Secrets
  | .called name default => { s with cache := (secret s.host s.cache name default).2 }
  | .changed host => { s with host := host }
  | .reset => { s with cache := fun _ => none }

def Secrets.run (s : Secrets) (events : List SecretEvent) : Secrets := events.foldl Secrets.after s

def Secrets.fresh (host : Host) : Secrets := ⟨host, fun _ => none⟩

/-! ## What a run keeps of one file -/

/-- The text of a file, where it can be read and is not blank. -/
def Host.textAt (host : Host) (path : String) : Option String :=
  match host.files path with
  | .error _ => none
  | .ok text => if stripped text = "" then none else some (stripped text)

/-- The text first read of a file since the last reset, or before the run. -/
def kept (path : String) : Host → Option String → List SecretEvent → Option String
  | _, first, [] => first
  | host, first, .called name _ :: events =>
    kept path host (if host.path name = path then first.or (host.textAt path) else first) events
  | _, first, .changed host :: events => kept path host first events
  | host, _, .reset :: events => kept path host none events

/-- What a call adds to the cache is about its own file. -/
theorem secret_cache (host : Host) (cache : Cache) (name : String) (default : Option String) {path : String}
    (hpath : path ≠ "") : (secret host cache name default).2 path =
      if host.path name = path then (cache path).or (host.textAt path) else cache path := by
  unfold secret Host.textAt
  by_cases hsame : host.path name = path
  · subst hsame
    rw [if_neg hpath, if_pos rfl]
    cases hcache : cache (host.path name) with
    | some cached => exact hcache
    | none =>
      cases hfile : host.files (host.path name) with
      | error fault => cases fault <;> exact hcache
      | ok text =>
        dsimp only
        split
        · exact hcache
        · exact Function.update_self _ _ _
  · rw [if_neg hsame]
    dsimp only
    split
    · rfl
    · split
      · rfl
      · split
        · rfl
        · rfl
        · split
          · rfl
          · exact Function.update_of_ne (Ne.symm hsame) _ _

theorem run_cache (s : Secrets) (events : List SecretEvent) {path : String} (hpath : path ≠ "") :
    (s.run events).cache path = kept path s.host (s.cache path) events := by
  induction events generalizing s with
  | nil => rfl
  | cons e events ih =>
    have hrest := ih (s.after e)
    cases e with
    | called name default =>
      rw [kept, ← secret_cache s.host s.cache name default hpath]
      exact hrest
    | changed host => exact hrest
    | reset => exact hrest

/-- What is kept stands until a reset. -/
theorem kept_stands {path value : String} {events : List SecretEvent} (hreset : .reset ∉ events) (host : Host) :
    kept path host (some value) events = some value := by
  induction events generalizing host with
  | nil => rfl
  | cons e events ih =>
    rw [List.mem_cons, not_or] at hreset
    cases e with
    | called name default =>
      rw [kept, Option.some_or, ite_self]
      exact ih hreset.2 host
    | changed host' => exact ih hreset.2 host'
    | reset => exact absurd rfl hreset.1

/-! ## What a call returns -/

/-- The result of a call, of what is kept of its file. -/
def preferred (host : Host) (first : Option String) (name : String) (default : Option String) :
    Except ReadFault (Option String) :=
  match first.or (host.textAt (host.path name)) with
  | some text => .ok (some text)
  | none => if host.files (host.path name) = .error .decode then .error .decode else .ok (host.fallback name default)

theorem secret_contract (host : Host) (events : List SecretEvent) (name : String) (default : Option String) :
    let s := (Secrets.fresh host).run events
    (secret s.host s.cache name default).1 =
      if s.host.path name = "" then .ok (s.host.fallback name default)
      else preferred s.host (kept (s.host.path name) host none events) name default := by
  intro s
  by_cases hpath : s.host.path name = ""
  · rw [secret, if_pos hpath, if_pos hpath]
  · have hkept : s.cache (s.host.path name) = kept (s.host.path name) host none events :=
      run_cache (Secrets.fresh host) events hpath
    rw [secret, if_neg hpath, if_neg hpath, ← hkept]
    unfold preferred Host.textAt
    cases hcache : s.cache (s.host.path name) with
    | some cached => rfl
    | none =>
      cases hfile : s.host.files (s.host.path name) with
      | error fault => cases fault <;> rfl
      | ok text =>
        dsimp only
        split
        · rfl
        · rfl

/-- What a call got of a file stands until a reset, whatever becomes of the file. -/
theorem secret_stands {s : Secrets} {name text : String} {default : Option String} (hpath : s.host.path name ≠ "")
    (hread : (s.cache (s.host.path name)).or (s.host.textAt (s.host.path name)) = some text)
    {later : List SecretEvent} (hreset : .reset ∉ later) :
    (s.run (.called name default :: later)).cache (s.host.path name) = some text := by
  rw [run_cache s _ hpath, kept, if_pos rfl, hread]
  exact kept_stands hreset s.host

end CoreHeartbeat.Services
