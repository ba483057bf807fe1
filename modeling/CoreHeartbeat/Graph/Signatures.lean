/-
  CoreHeartbeat.Graph.Signatures — what the repeat-call guard compares: `_call_signature` is the
  tool's name and the arguments as JSON with sorted keys.

  `SameCall` is the identity meant: the same tool, with arguments that are the same JSON up to
  the order of keys, at every depth. Strings are Unicode texts (a lone surrogate is no
  character), and a float is written as `json.dumps` writes one; arguments with a float that no
  `repr` writes are left out by hypothesis (`floatsOk`).

  The writing of the source (`Json.dumps`) is related to the writer of the library
  (`PyJson.dumps` of the value with its keys sorted, `toList_dumps`), which can be read back;
  from there on it is a matter of values. The name of the tool stands before the first colon,
  and no name of a tool has one, so the two parts of a signature can be told apart.

  Proved:
  - `callSignature_iff`: two calls have one signature exactly when they are the same call, so no
    other call is ever taken for a repeat and no spelling of the same one gets past.
  - `executedCalls_going`: in a run that is still going, what is recorded is what was run.
  - `kept_iff_not_repeated`: at every decision of a run the guard keeps exactly the calls that
    have not been performed in it and whose tool has not reached its cap
    (`kept_iff_not_repeated_spread`: a note that is new after two games).
-/

import CoreHeartbeat.Graph.Batches
import CoreHeartbeat.Lib.PyJsonKeys

namespace CoreHeartbeat.Graph

open PyJson (Value sortKeys KeyLe floatsOk)

/-! ## JSON as written -/

def Json.toValue : Json → Value
  | .null => .null
  | .bool b => .bool b
  | .int n => .int n
  | .float r => .float r.toList
  | .str s => .str s
  | .arr items => .arr (toItems items)
  | .obj fields => .obj (toFields fields)
where
  toItems : List Json → List Value
    | [] => []
    | v :: vs => v.toValue :: toItems vs
  toFields : List (String × Json) → List (String × Value)
    | [] => []
    | (k, v) :: fs => (k, v.toValue) :: toFields fs

def Call.value (c : Call) : Value := (Json.obj c.args).toValue

theorem toList_unicode (n : Nat) :
    ("\\u" ++ String.ofList ([n / 4096 % 16, n / 256 % 16, n / 16 % 16, n % 16].map Nat.digitChar)).toList =
      PyJson.unicodeEscape n := by
  simp only [String.toList_append, String.toList_ofList, PyJson.unicodeEscape, PyJson.hex4]
  rfl

theorem toList_escapeChar (c : Char) : (escapeChar c).toList = PyJson.escape c := by
  have hprint : PyJson.isPrintable c = true ↔ ' ' ≤ c ∧ c ≤ '~' := by simp [PyJson.isPrintable]
  unfold escapeChar PyJson.escape
  simp only [hprint]
  split_ifs
  · rfl
  · rfl
  · rfl
  · rfl
  · rfl
  · rfl
  · rfl
  · exact String.toList_singleton c
  · exact toList_unicode _
  · rw [String.append_assoc, String.toList_append, toList_unicode, toList_unicode]

theorem toList_quote (s : String) : (quote s).toList = PyJson.quote s := by
  have hbody : (s.toList.map escapeChar).flatMap String.toList = s.toList.flatMap PyJson.escape := by
    rw [List.flatMap_map]
    exact List.flatMap_congr fun c _ => toList_escapeChar c
  simp only [quote, PyJson.quote, PyJson.quoted, String.toList_append, String.toList_join, hbody]
  rfl

mutual

theorem toList_dumps (j : Json) : j.dumps.toList = PyJson.dumps .spaced (sortKeys j.toValue) := by
  match j with
  | .null => rfl
  | .bool true => rfl
  | .bool false => rfl
  | .int n => rfl
  | .float r => rfl
  | .str s => exact toList_quote s
  | .arr items =>
    rw [Json.dumps, Json.toValue, sortKeys, PyJson.dumps_arr, ← toList_dumpItems items]
    simp only [String.toList_append, String.toList_intercalate]
    rfl
  | .obj fields =>
    have hwritten := List.map_insertionSort (fun a b : String × String => a.1 ≤ b.1) KeyLe
      (fun f => (f.1, f.2.toList)) (Json.dumps.dumpFields fields) fun _ _ _ _ => Iff.rfl
    have hsorted := List.map_insertionSort KeyLe KeyLe (fun f : String × Value => (f.1, PyJson.dumps .spaced f.2))
      (sortKeys.sortFields (Json.toValue.toFields fields)) fun _ _ _ _ => Iff.rfl
    rw [toList_dumpFields fields, ← hsorted] at hwritten
    have hfields := congrArg (List.map fun f : String × List Char => PyJson.quote f.1 ++ ([':', ' '] ++ f.2)) hwritten
    rw [List.map_map, List.map_map] at hfields
    rw [Json.dumps, Json.toValue, sortKeys, PyJson.dumps_obj]
    have htext : (String.toList ∘ fun f : String × String => quote f.1 ++ ": " ++ f.2) =
        (fun f : String × List Char => PyJson.quote f.1 ++ ([':', ' '] ++ f.2)) ∘ fun f => (f.1, f.2.toList) := by
      funext f
      simp [toList_quote]
    have hfield : PyJson.field .spaced =
        (fun f : String × List Char => PyJson.quote f.1 ++ ([':', ' '] ++ f.2)) ∘
          fun f => (f.1, PyJson.dumps .spaced f.2) := by
      funext f
      simp [PyJson.field, PyJson.Style.spaced]
    rw [String.toList_append, String.toList_append, String.toList_intercalate, List.map_map, htext, hfields, hfield]
    rfl

theorem toList_dumpItems (items : List Json) :
    (Json.dumps.dumpItems items).map String.toList =
      (sortKeys.sortItems (Json.toValue.toItems items)).map (PyJson.dumps .spaced) := by
  match items with
  | [] => rfl
  | v :: vs =>
    rw [Json.dumps.dumpItems, Json.toValue.toItems, sortKeys.sortItems, List.map_cons, List.map_cons, toList_dumps v,
      toList_dumpItems vs]

theorem toList_dumpFields (fields : Args) :
    (Json.dumps.dumpFields fields).map (fun f => (f.1, f.2.toList)) =
      (sortKeys.sortFields (Json.toValue.toFields fields)).map fun f => (f.1, PyJson.dumps .spaced f.2) := by
  match fields with
  | [] => rfl
  | (k, v) :: fs =>
    rw [Json.dumps.dumpFields, Json.toValue.toFields, sortKeys.sortFields, List.map_cons, List.map_cons,
      toList_dumps v, toList_dumpFields fs]

end

/-! ## One signature, one call -/

/-- The same tool, with the same arguments up to the order of their keys. -/
def SameCall (a b : Call) : Prop := a.name = b.name ∧ PyJson.Same a.value b.value

theorem toList_callSignature (c : Call) :
    (callSignature c).toList = c.name.toList ++ ':' :: PyJson.dumps .spaced (sortKeys c.value) := by
  rw [callSignature, String.toList_append, String.toList_append, toList_dumps, List.append_assoc]
  rfl

/-- Two calls have one signature exactly when they are the same call. -/
theorem callSignature_iff {a b : Call} (ha : a.name ∈ dispatchableTools) (hb : b.name ∈ dispatchableTools)
    (hfa : floatsOk a.value = true) (hfb : floatsOk b.value = true) :
    callSignature a = callSignature b ↔ SameCall a b := by
  have hargs := PyJson.dumps_sortKeys_iff .spaced hfa hfb
  constructor
  · intro h
    have hname : a.name = b.name := by
      rw [← signatureName_callSignature ha, ← signatureName_callSignature hb, h]
    refine ⟨hname, hargs.mp ?_⟩
    have htext := congrArg String.toList h
    rw [toList_callSignature, toList_callSignature, hname] at htext
    exact List.tail_eq_of_cons_eq (List.append_cancel_left htext)
  · rintro ⟨hname, hsame⟩
    rw [← String.toList_inj, toList_callSignature, toList_callSignature, hname, hargs.mpr hsame]

/-! ## What the guard withholds -/

variable {σ : Type}

/-- In a run that is still going, what is recorded as executed is what the tools ran. -/
theorem executedCalls_going {st : Settings} {c : Conf σ} {envs : List (StepEnv σ)}
    (hgoing : ¬ (Machine.final (superstep st) c envs).place.ended) :
    (Machine.final (superstep st) c envs).st.executedCalls =
      c.st.executedCalls ++ (performed st c envs).map callSignature := by
  induction envs generalizing c with
  | nil => simp [performed]
  | cons e envs ih =>
    rw [Machine.final_cons] at hgoing ⊢
    rw [ih hgoing, performed_cons, List.map_append, ← List.append_assoc]
    congr 1
    show (superstep st c e).1.st.executedCalls = _
    have hstill : ¬ (superstep st c e).1.place.ended := fun h => hgoing (by rw [final_ended st h]; exact h)
    rcases superstep_cases st c e with ⟨hended, hs⟩ | ⟨n, fault, hp, -, hs⟩ | ⟨n, u, db, hp, hr, hs⟩
    · rw [hs] at hstill; exact absurd hended hstill
    · rw [hs] at hstill; exact absurd trivial hstill
    · rw [hs]
      by_cases hn : n = .supervisor
      · subst hn
        simp [pending, hp, Conf.after, GraphState.apply, supervisor_records hr]
      · exact (worker_records hp hn hr).1

/-- At every decision of a run the repeat-call guard keeps exactly the calls that no call
    performed in the run is the same as and whose tool is below its cap. -/
theorem kept_iff_not_repeated (st : Settings) (t : Turn) (db : σ) (envs : List (StepEnv σ)) (calls : List Call) (call : Call)
    (hdeciding : (Machine.final (superstep st) (start t db) envs).place = .at .supervisor)
    (hname : call.name ∈ dispatchableTools) (hfloats : floatsOk call.value = true)
    (hran : ∀ earlier ∈ performed st (start t db) envs, floatsOk earlier.value = true) :
    call ∈ fresh st (Machine.final (superstep st) (start t db) envs) calls ↔
      call ∈ calls ∧ (∀ earlier ∈ performed st (start t db) envs, ¬ SameCall earlier call) ∧
        (((performed st (start t db) envs).countP (·.name = call.name) : Nat) : Int) < st.cfg.maxSameToolCalls := by
  have hgoing : ¬ (Machine.final (superstep st) (start t db) envs).place.ended := by rw [hdeciding]; exact id
  have hrecorded := executedCalls_going hgoing
  have hseen : callSignature call ∈ (performed st (start t db) envs).map callSignature ↔
      ∃ earlier ∈ performed st (start t db) envs, SameCall earlier call := by
    rw [List.mem_map]
    refine exists_congr fun earlier => and_congr_right fun hearlier => ?_
    exact callSignature_iff (performed_dispatchable hearlier) hname (hran earlier hearlier) hfloats
  have hcount : (((performed st (start t db) envs).map callSignature).map signatureName).count call.name =
      (performed st (start t db) envs).countP (·.name = call.name) := by
    rw [List.map_map, List.count, List.countP_map]
    refine List.countP_congr fun earlier hearlier => ?_
    simp [signatureName_callSignature (performed_dispatchable hearlier)]
  unfold fresh freshCalls
  rw [hrecorded, show (start t db).st.executedCalls = [] from rfl, List.nil_append, List.mem_filter, hcount]
  refine and_congr_right fun _ => ?_
  rw [Bool.and_eq_true, decide_eq_true_eq]
  refine and_congr_left fun _ => ?_
  simp only [Bool.not_eq_true', List.contains_eq_mem, decide_eq_false_iff_not, hseen, not_exists, not_and]

/-- After two games were added, a note that is new and a game that is not: the note is kept. -/
theorem kept_iff_not_repeated_spread :
    newNote "lions.md" ∈ fresh nativeSettings
        (Machine.final (superstep nativeSettings) (start scheduleRequest emptyDb) (spreadWrites.take 2))
        [newEvent "Lions", newNote "lions.md"] ↔
      newNote "lions.md" ∈ [newEvent "Lions", newNote "lions.md"] ∧
        (∀ earlier ∈ performed nativeSettings (start scheduleRequest emptyDb) (spreadWrites.take 2),
          ¬ SameCall earlier (newNote "lions.md")) ∧
        (((performed nativeSettings (start scheduleRequest emptyDb) (spreadWrites.take 2)).countP
          (·.name = (newNote "lions.md").name) : Nat) : Int) < nativeSettings.cfg.maxSameToolCalls :=
  kept_iff_not_repeated nativeSettings scheduleRequest emptyDb (spreadWrites.take 2) _ _ (by decide +kernel) (by decide)
    (by decide) (by decide +kernel)

end CoreHeartbeat.Graph
