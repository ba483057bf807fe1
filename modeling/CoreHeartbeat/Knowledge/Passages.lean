/-
  CoreHeartbeat.Knowledge.Passages — the retrieval bookkeeping of the knowledge chat
  (`knowledge_chat.py`): reading a payload of the KB service, and the passages of one turn with
  their numbers (`Passage`, `TurnContext`).

  A payload is any JSON value; an operation its type does not have raises. The readings are
  written as the source writes them, in the words of Python: `v or w`, `v.get(key)`, iteration,
  a slice, a join; each is a small function here, and the tools (`Tools`) and the calendar are
  built of the same ones.

  A context is numbered 1, 2, 3, … without gaps and has one passage for each key. These are
  fields of `TurnContext`, so a context that breaks them cannot be built, and every later proof
  has them for free. A number so denotes one passage (`denotes`), and `add` either appends a
  passage or leaves the context alone.

  Proved:
  - `add_grows`: what `add` leaves comes after what it found (`Grows`), whether it appends,
    finds the key again or refuses.
  - `add_mem`: the passage that is handed out is one of the context's.
  - `Grows.denotes`: a number goes on denoting its passage for the rest of the turn.
-/

import CoreHeartbeat.Lib.PyText
import CoreHeartbeat.Graph.Models
import Mathlib.Algebra.GroupWithZero.Nat
import Mathlib.Data.List.Nodup

namespace CoreHeartbeat.Knowledge

open CoreHeartbeat.Graph (Json Args)

/-! ## Payloads -/

/-- The name of an exception's type. -/
abbrev Fault := String

def truthy : Json → Bool
  | .null => false
  | .bool b => b
  | .int n => n != 0
  | .float repr => repr != "0.0" && repr != "-0.0"
  | .str s => s != ""
  | .arr items => !items.isEmpty
  | .obj fields => !fields.isEmpty

/-- `v or w`. -/
def orElse (v w : Json) : Json := if truthy v then v else w

/-- `v.get(key)`. -/
def get : Json → String → Except Fault Json
  | .obj fields, key => .ok ((fields.lookup key).getD .null)
  | _, _ => .error "AttributeError"

/-- What iterating over `v` yields. -/
def items : Json → Except Fault (List Json)
  | .arr vs => .ok vs
  | .str s => .ok (s.toList.map fun c => .str (String.ofList [c]))
  | .obj fields => .ok (fields.map fun f => .str f.1)
  | _ => .error "TypeError"

/-- `len(v)`. -/
def lenOf : Json → Except Fault Nat
  | .arr vs => .ok vs.length
  | .str s => .ok s.length
  | .obj fields => .ok fields.length
  | _ => .error "TypeError"

/-- `v[i]`, below the length of `v`. -/
def itemAt : Json → Nat → Except Fault Json
  | .arr vs, i => .ok (vs.getD i .null)
  | .str s, i => .ok (.str (String.ofList ((s.toList.drop i).take 1)))
  | .obj _, _ => .error "KeyError"
  | _, _ => .error "TypeError"

/-- `v.strip()`. -/
def stripped : Json → Except Fault String
  | .str s => .ok (String.ofList (PyText.strip s.toList))
  | _ => .error "AttributeError"

def isStr : Json → Bool
  | .str _ => true
  | _ => false

def isNumber : Json → Bool
  | .bool _ | .int _ | .float _ => true
  | _ => false

/-- What a dict takes for a key. -/
def hashable : Json → Bool
  | .arr _ | .obj _ => false
  | _ => true

def textsOf (vs : List Json) : List String :=
  vs.filterMap fun
    | .str s => some s
    | _ => none

/-- `sep.join(vs)`. -/
def joined (sep : String) (vs : List Json) : Except Fault String :=
  if vs.all isStr then .ok (sep.intercalate (textsOf vs)) else .error "TypeError"

/-- `[v.get("title") for v in vs if v.get("title")]`. -/
def titlesOf (vs : List Json) : Except Fault (List Json) := do
  let titles ← vs.mapM (get · "title")
  return titles.filter truthy

/-- `v.get(key) or []`, iterated. -/
def itemsOf (v : Json) (key : String) : Except Fault (List Json) := do
  items (orElse (← get v key) (.arr []))

/-- `text[:limit]`. -/
def upTo (limit : Int) (text : List Char) : List Char :=
  if 0 ≤ limit then text.take limit.toNat else text.take (text.length - limit.natAbs)

def clipText (text : String) (limit : Int) : String :=
  let text := " ".intercalate ((PyText.splitWords [] text.toList).map String.ofList)
  if text.length ≤ limit then text else String.ofList ((upTo limit text.toList).rdropWhile PyText.isSpace) ++ "…"

def clip (text : Json) (limit : Int) : Except Fault String :=
  match orElse text (.str "") with
  | .str text => .ok (clipText text limit)
  | _ => .error "AttributeError"

/-! ## Passages -/

structure Passage where
  n : Nat
  key : String
  documentId : Json
  title : String
  chunkIndex : Json
  text : String
  weak : Bool
  excerpt : Json
  deriving Repr

/-- Passages retrieved during one turn, numbered in the order first seen. -/
structure TurnContext where
  passages : List Passage
  byKey : List (String × Passage)
  chars : Nat
  summaries : List (String × Json)
  numbered : passages.map (·.n) = List.range' 1 passages.length
  indexed : byKey = passages.map fun p => (p.key, p)
  distinct : (passages.map (·.key)).Nodup
  counted : chars = (passages.map (·.text.length)).sum

namespace TurnContext

def empty (summaries : List (String × Json)) : TurnContext :=
  ⟨[], [], 0, summaries, rfl, rfl, List.nodup_nil, rfl⟩

/-- `summaries.get(title)`: the last document of that title. -/
def summary (ctx : TurnContext) (title : String) : Json := (ctx.summaries.reverse.lookup title).getD .null

variable (ctx : TurnContext)

theorem lookup_byKey (key : String) : ctx.byKey.lookup key = ctx.passages.find? fun p => p.key == key := by
  rw [ctx.indexed]
  induction ctx.passages with
  | nil => rfl
  | cons p ps ih =>
    rw [List.map_cons, List.lookup_cons, List.find?_cons, ih, Bool.beq_comm]

theorem fresh_of_lookup {key : String} (h : ctx.byKey.lookup key = none) : key ∉ ctx.passages.map (·.key) := by
  rw [lookup_byKey, List.find?_eq_none] at h
  intro hmem
  obtain ⟨p, hp, rfl⟩ := List.mem_map.mp hmem
  exact h p hp (beq_self_eq_true p.key)

def push (p : Passage) (hn : p.n = ctx.passages.length + 1) (hkey : p.key ∉ ctx.passages.map (·.key)) :
    TurnContext where
  passages := ctx.passages ++ [p]
  byKey := ctx.byKey ++ [(p.key, p)]
  chars := ctx.chars + p.text.length
  summaries := ctx.summaries
  numbered := by
    rw [List.map_append, ctx.numbered, List.length_append, List.map_singleton, hn, List.length_singleton,
      List.range'_concat, Nat.one_mul, Nat.add_comm 1]
  indexed := by rw [List.map_append, ctx.indexed]; rfl
  distinct := by
    rw [List.map_append, List.map_singleton, List.nodup_append]
    refine ⟨ctx.distinct, List.nodup_singleton _, fun k hk k' hk' => ?_⟩
    rw [List.mem_singleton.mp hk']
    exact fun h => hkey (h ▸ hk)
  counted := by rw [List.map_append, List.sum_append, ctx.counted]; rfl

structure Row where
  key : String
  documentId : Json
  title : String
  chunkIndex : Json
  text : String
  excerpt : Json := .null
  weak : Bool := false

def Row.passage (r : Row) (n : Nat) : Passage :=
  ⟨n, r.key, r.documentId, r.title, r.chunkIndex, r.text, r.weak, orElse r.excerpt (.str r.text)⟩

def add (cap : Int) (r : Row) : Option Passage × TurnContext :=
  match h : ctx.byKey.lookup r.key with
  | some p => (some p, ctx)
  | none =>
    if (ctx.chars + r.text.length : Int) > cap then (none, ctx)
    else (some (r.passage (ctx.passages.length + 1)), ctx.push (r.passage _) rfl (ctx.fresh_of_lookup h))

/-! ## What `add` can do -/

theorem add_cases (cap : Int) (r : Row) :
    (∃ p ∈ ctx.passages, p.key = r.key ∧ ctx.add cap r = (some p, ctx)) ∨
      (ctx.chars + r.text.length > cap ∧ ctx.add cap r = (none, ctx)) ∨
      (ctx.chars + r.text.length ≤ cap ∧ ∃ ctx', ctx.add cap r = (some (r.passage (ctx.passages.length + 1)), ctx') ∧
        ctx'.passages = ctx.passages ++ [r.passage (ctx.passages.length + 1)] ∧
        ctx'.chars = ctx.chars + r.text.length ∧ ctx'.summaries = ctx.summaries) := by
  unfold add
  split
  · rename_i p hp
    rw [lookup_byKey] at hp
    have hkey : p.key = r.key := by simpa using List.find?_some hp
    exact Or.inl ⟨p, List.mem_of_find?_eq_some hp, hkey, rfl⟩
  · split
    · rename_i hfull; exact Or.inr (Or.inl ⟨hfull, rfl⟩)
    · rename_i hroom
      exact Or.inr (Or.inr ⟨by omega, _, rfl, rfl, rfl, rfl⟩)

structure Grows (ctx ctx' : TurnContext) : Prop where
  passages : ctx.passages <+: ctx'.passages
  summaries : ctx'.summaries = ctx.summaries

theorem Grows.refl : Grows ctx ctx := ⟨List.prefix_refl _, rfl⟩

variable {ctx}

theorem Grows.trans {ctx' ctx'' : TurnContext} (h : Grows ctx ctx') (h' : Grows ctx' ctx'') : Grows ctx ctx'' :=
  ⟨h.passages.trans h'.passages, h'.summaries.trans h.summaries⟩

theorem add_grows (cap : Int) (r : Row) : Grows ctx (ctx.add cap r).2 := by
  rcases ctx.add_cases cap r with ⟨p, -, -, h⟩ | ⟨-, h⟩ | ⟨-, ctx', h, hp, -, hs⟩
  · rw [h]; exact Grows.refl ctx
  · rw [h]; exact Grows.refl ctx
  · rw [h]; exact ⟨hp ▸ List.prefix_append _ _, hs⟩

/-- The passage that is handed to the model is one of the context's. -/
theorem add_mem {cap : Int} {r : Row} {p : Passage} (h : (ctx.add cap r).1 = some p) :
    p ∈ (ctx.add cap r).2.passages ∧ p.key = r.key := by
  rcases ctx.add_cases cap r with ⟨q, hq, hkey, heq⟩ | ⟨-, heq⟩ | ⟨-, ctx', heq, hp, -, -⟩
  · rw [heq] at h ⊢
    obtain rfl := Option.some.inj h
    exact ⟨hq, hkey⟩
  · rw [heq] at h; cases h
  · rw [heq] at h ⊢
    obtain rfl := Option.some.inj h
    exact ⟨hp ▸ List.mem_append_right _ (List.mem_singleton_self _), rfl⟩

/-! ## Numbers -/

def denotes (ctx : TurnContext) (n : Nat) : Option Passage := ctx.passages.find? fun p => p.n == n

theorem nodup_numbers (ctx : TurnContext) : (ctx.passages.map (·.n)).Nodup := by
  rw [ctx.numbered]
  exact List.nodup_range'

theorem number_inj {p q : Passage} (hp : p ∈ ctx.passages) (hq : q ∈ ctx.passages) (h : p.n = q.n) : p = q :=
  List.inj_on_of_nodup_map ctx.nodup_numbers hp hq h

theorem denotes_eq_some_iff {n : Nat} {p : Passage} : ctx.denotes n = some p ↔ p ∈ ctx.passages ∧ p.n = n := by
  unfold denotes
  constructor
  · intro h
    exact ⟨List.mem_of_find?_eq_some h, by simpa using List.find?_some h⟩
  · intro ⟨hp, hn⟩
    cases hfind : ctx.passages.find? fun p => p.n == n with
    | none => exact absurd (beq_iff_eq.mpr hn) (List.find?_eq_none.mp hfind p hp)
    | some q =>
      have hqn : q.n = n := by simpa using List.find?_some hfind
      rw [number_inj (List.mem_of_find?_eq_some hfind) hp (hqn.trans hn.symm)]

/-- A number goes on denoting its passage. -/
theorem Grows.denotes {ctx' : TurnContext} (h : Grows ctx ctx') {n : Nat} {p : Passage} (hp : ctx.denotes n = some p) :
    ctx'.denotes n = some p := by
  rw [denotes_eq_some_iff] at hp ⊢
  exact ⟨h.passages.subset hp.1, hp.2⟩

end TurnContext

end CoreHeartbeat.Knowledge
