/-
  CoreHeartbeat.Services.Http — responses of the services that are reached over HTTP, and what
  reading them raises.

  A response is its status and its body, which is JSON or raises where it is read. A body may
  have any shape: what the callers take out of it they take as Python does, by `v[key]`, `v[0]`
  and `v.get(key)`, each of which raises on a value that has no such operation. A `Fault` is the
  exception by its type and text, as the callers log it or put it into their own answers.

  The calendar tools, the gateway and the loads of a turn read their responses through these.
-/

import CoreHeartbeat.Knowledge.Passages

namespace CoreHeartbeat.Services

open CoreHeartbeat.Graph (Json)

inductive Fault where
  /-- `httpx.TransportError`. -/
  | transport (text : String)
  /-- `httpx.HTTPStatusError`. -/
  | httpStatus (code : Nat)
  /-- Any other, with its type and its text. -/
  | other (text : String)
  deriving DecidableEq, Repr

/-- A response: its status, and its body as JSON or what reading it raises. -/
structure Http where
  status : Nat
  json : Except Fault Json

def Http.raiseForStatus (r : Http) : Except Fault Unit :=
  if 200 ≤ r.status ∧ r.status < 300 then .ok () else .error (.httpStatus r.status)

/-- `v[key]`. -/
def item (v : Json) (key : String) : Except Fault Json :=
  match v with
  | .obj fields =>
    match fields.lookup key with
    | some w => .ok w
    | none => .error (.other ("KeyError: '" ++ key ++ "'"))
  | .arr _ => .error (.other "TypeError: list indices must be integers or slices, not str")
  | .str _ => .error (.other "TypeError: string indices must be integers, not 'str'")
  | _ => .error (.other "TypeError: object is not subscriptable")

/-- `v[0]`, of a value that counts as true. -/
def firstItem (v : Json) : Except Fault Json :=
  match v with
  | .arr (w :: _) => .ok w
  | .str s => .ok (.str (String.ofList (s.toList.take 1)))
  | .obj _ => .error (.other "KeyError: 0")
  | _ => .error (.other "TypeError: object is not subscriptable")

/-- `v.get(key)`, `None` where it is missing. -/
def field (v : Json) (key : String) : Except Fault Json :=
  match v with
  | .obj fields => .ok ((fields.lookup key).getD .null)
  | _ => .error (.other "AttributeError: object has no attribute 'get'")

theorem raiseForStatus_ok {r : Http} (h : r.raiseForStatus = .ok ()) : 200 ≤ r.status ∧ r.status < 300 := by
  unfold Http.raiseForStatus at h
  split at h
  · assumption
  · cases h

theorem item_ok {v w : Json} {key : String} (h : item v key = .ok w) :
    ∃ fields, v = .obj fields ∧ fields.lookup key = some w := by
  unfold item at h
  split at h
  · split at h
    · cases h
      exact ⟨_, rfl, by assumption⟩
    · cases h
  all_goals cases h

theorem item_of_lookup {fields : List (String × Json)} {key : String} {w : Json} (h : fields.lookup key = some w) :
    item (.obj fields) key = .ok w := by
  simp only [item, h]

end CoreHeartbeat.Services
