/-
  CoreHeartbeat.Attachments.Storage — uploaded documents as a turn reads them
  (`services/documents.py`), and images made ready for a model (`services/images.py`).

  The table of documents is asked for the rows of one user, and the bucket for one object at a
  time. Failures of either are caught and come out as nothing found. A row is JSON as the table
  answers it: `typesIn` and `rowsOf` read it the way the comprehensions of the source do, with
  their truth values, their string methods and the exceptions of both.

  An image is opened, its declared size is looked at before its pixels are, and it is turned
  upright, brought to the longest side a model is shown and saved as PNG or JPEG; too many
  pixels, too many bytes after that, or any exception of Pillow, and it is left out. Pillow is a
  parameter, and so are the case mapping and the decoding of Python's strings.

  The requests are those of the gateway for objects, settings and secrets, and a few more: rows
  of the table, a nonce, and the vision model. A turn is a program of both (`Gateway.Ask ⊕
  Ask`), so that one world can serve turns and requests to the gateway together (`Pipeline`).

  `keeps_fromTable` is the rule for a read of the table: what holds of its answer, and of
  nothing found.
-/

import CoreHeartbeat.Gateway.Routes
import CoreHeartbeat.Untrusted.Documents

namespace CoreHeartbeat.Attachments

open Dialogue
open CoreHeartbeat.Calendar (given)
open CoreHeartbeat.Graph (Json Image)
open CoreHeartbeat.Knowledge (truthy orElse hashable)
open CoreHeartbeat.Services (Fault Http field)
open CoreHeartbeat.Gateway (Bytes fetchOriginal documentKey)
open CoreHeartbeat.Untrusted (Text Nonce)

/-! ## Requests -/

inductive Ask where
  /-- GET `documents?select=id,content_type&user_id=eq.<user>&id=in.(…)`. -/
  | contentTypes (userId : String) (docIds : List String)
  /-- GET `documents?select=id,filename,content_type,status,created_at&user_id=eq.<user>&chat_id=eq.<chat>`. -/
  | chatDocuments (userId chatId : String)
  /-- Whether `google.genai` can be imported. -/
  | visionSdk
  /-- `generate_content` on one image, and the `text` of the response. -/
  | vision (model : String) (image : Image) (question : String)
  /-- `secrets.token_hex`. -/
  | nonce

def Answer : Ask → Type
  | .contentTypes _ _ => Except Fault Http
  | .chatDocuments _ _ => Except Fault Http
  | .visionSdk => Bool
  | .vision _ _ _ => Except Fault (Option String)
  | .nonce => Nonce

abbrev Answers : Gateway.Ask ⊕ Ask → Type := Sum.elim Gateway.Answer Answer

abbrev Call (α : Type) : Type := Py Answers Fault α

def ask (q : Ask) : Call (Answer q) := liftM (request (π := Answers) (.inr q))

def asGateway {α : Type} (x : Gateway.Call α) : Call α := left x

def outcome {α : Type} (answer : Except Fault α) : Call α := liftM answer

def utf8 (text : String) : Bytes := text.toUTF8.data.toList

structure Python where
  /-- `str.lower`. -/
  lower : List Char → List Char
  lower_nil : lower [] = []
  /-- `bytes.decode("utf-8", errors="replace")`. -/
  decode : Bytes → String
  decode_utf8 : ∀ text, decode (utf8 text) = text

def asciiPython : Python where
  lower := List.map Char.toLower
  lower_nil := rfl
  decode data := (String.fromUTF8? ⟨data.toArray⟩).getD "\ufffd"
  decode_utf8 text := by
    have hbytes : (⟨(utf8 text).toArray⟩ : ByteArray) = text.toUTF8 := by simp [utf8]
    rw [hbytes, PyText.fromUTF8?_toUTF8]
    rfl

/-! ## Images -/

def imageMediaTypes : List String := ["image/png", "image/jpeg"]

def knownUnviewableMediaTypes : List String :=
  ["image/webp", "image/heic", "image/heif", "image/avif", "image/gif", "image/tiff"]

def decodableFormats : List String := ["PNG", "JPEG", "MPO"]

def outputFormat : List (String × String × String) :=
  [("PNG", "PNG", "image/png"), ("JPEG", "JPEG", "image/jpeg"), ("MPO", "JPEG", "image/jpeg")]

def maxImageBytes : Nat := 4000000

def maxImagePixels : Nat := 64000000

/-- An opened image: its format, its declared dimensions, and its bytes when it is decoded,
    turned upright, brought to size and saved in a format. -/
structure Picture where
  format : Option String
  width : Nat
  height : Nat
  saved : String → Option Bytes

/-- `Image.open` of Pillow; `none` is an exception. -/
abbrev Pillow : Type := Bytes → Option Picture

/-- A Pillow to which everything is a small PNG. -/
def plainPillow : Pillow := fun raw => some ⟨some "PNG", 2, 2, fun _ => some raw⟩

def downscaleForModel (pillow : Pillow) (data : Bytes) : Option (Bytes × String) := do
  let im ← pillow data
  let fmt := String.ofList ((im.format.getD "").toList.map Char.toUpper)
  if fmt ∉ decodableFormats then none
  else if maxImagePixels < im.width * im.height then none
  else do
    let output ← outputFormat.lookup fmt
    let out ← im.saved output.1
    if out = [] ∨ maxImageBytes < out.length then none else some (out, output.2)

def base64Digit (n : Nat) : Char :=
  "ABCDEFGHIJKLMNOPQRSTUVWXYZabcdefghijklmnopqrstuvwxyz0123456789+/".toList.getD n '='

def base64 : List Nat → List Char
  | [] => []
  | [a] => [base64Digit (a / 4), base64Digit (a % 4 * 16), '=', '=']
  | [a, b] => [base64Digit (a / 4), base64Digit (a % 4 * 16 + b / 16), base64Digit (b % 16 * 4), '=']
  | a :: b :: c :: rest =>
    base64Digit (a / 4) :: base64Digit (a % 4 * 16 + b / 16) :: base64Digit (b % 16 * 4 + c / 64) ::
      base64Digit (c % 64) :: base64 rest

def imageOf (prepared : Bytes × String) (docId : String) : Image :=
  ⟨prepared.2, String.ofList (base64 (prepared.1.map UInt8.toNat)), docId⟩

/-- The bytes of an original as an image, or `none` where they cannot be shown to a model. -/
def prepared (pillow : Pillow) (docId : String) (raw : Bytes) : Option Image :=
  (downscaleForModel pillow raw).map (imageOf · docId)

def prepareFromStorage (pillow : Pillow) (userId docId : String) : Call (Option Image) := do
  match ← attempt (asGateway (fetchOriginal userId docId)) with
  | .error _ => return none
  | .ok raw => return prepared pillow docId raw

/-! ## The table of documents -/

def each (v : Json) : Except Fault (List Json) := (Knowledge.items v).mapError Fault.other

/-- `doc_id -> content_type`. -/
abbrev Types : Type := List (Json × Json)

/-- Whether two keys are one, as `True == 1`; of floats, whether they are written alike. -/
def sameKey : Json → Json → Bool
  | .str s, .str s' => s = s'
  | .int n, .int n' => n = n'
  | .bool b, .bool b' => b = b'
  | .int n, .bool b => n = b.toInt
  | .bool b, .int n => b.toInt = n
  | .float repr, .float repr' => repr = repr'
  | _, _ => false

def Types.set : Types → Json → Json → Types
  | [], id, v => [(id, v)]
  | (id', v') :: types, id, v => if sameKey id' id then (id', v) :: types else (id', v') :: set types id v

/-- `types.get(docId)`. -/
def Types.find (types : Types) (docId : String) : Option Json :=
  (types.find? fun entry => sameKey entry.1 (.str docId)).map (·.2)

def typesOf : Types → List Json → Except Fault Types
  | types, [] => .ok types
  | types, row :: rows => do
    let id ← field row "id"
    if truthy id then
      let v ← field row "content_type"
      if hashable id then typesOf (types.set id (orElse v (.str ""))) rows
      else .error (.other "TypeError: unhashable type")
    else typesOf types rows

/-- `{row["id"]: (row.get("content_type") or "") for row in rows if row.get("id")}`. -/
def typesIn (rows : Json) : Except Fault Types := do typesOf [] (← each rows)

/-- The `rows` of a response, where it is one that is read. -/
def rowsOf (r : Http) : Except Fault Json := do
  r.raiseForStatus
  r.json

def tableReached : Call Bool := do
  let url ← asGateway (Gateway.ask (.env "SUPABASE_URL"))
  let key ← outcome (← asGateway (Gateway.ask (.secret "SUPABASE_SERVICE_ROLE_KEY")))
  return ((given url).getD "").toList.rdropWhile (· = '/') ≠ [] ∧ (given key).isSome

/-- What is read of the table's answer; nothing where the table cannot be reached or read. -/
def fromTable {α : Type} (nothing : α) (q : Ask) (read : Answer q → Except Fault α) : Call α := do
  if ← tableReached then
    match ← attempt (do outcome (read (← ask q))) with
    | .error _ => return nothing
    | .ok a => return a
  else return nothing

def fetchContentTypes (userId : String) (docIds : List String) : Call Types :=
  if docIds = [] then return []
  else fromTable [] (.contentTypes userId docIds) fun (r : Except Fault Http) => r >>= rowsOf >>= typesIn

def withId : List Json → Except Fault (List Json)
  | [] => .ok []
  | row :: rows => do
    let id ← field row "id"
    let rest ← withId rows
    return if truthy id then row :: rest else rest

def listChatDocuments (userId chatId : String) : Call (List Json) :=
  if chatId = "" then return []
  else fromTable [] (.chatDocuments userId chatId) fun (r : Except Fault Http) => r >>= rowsOf >>= each >>= withId

/-- `(content_type or "").split(";")[0].strip().lower()`. -/
def mediaOf (py : Python) (contentType : Json) : Except Fault String :=
  match orElse contentType (.str "") with
  | .str s => .ok (String.ofList (py.lower (PyText.strip (s.toList.takeWhile (· ≠ ';')))))
  | _ => .error (.other "AttributeError: object has no attribute 'split'")

def fetchExtracted (py : Python) (userId docId : String) : Call String := do
  match ← attempt (do outcome (← asGateway (Gateway.ask (.getObject (documentKey userId docId "extracted.txt"))))) with
  | .error _ => return ""
  | .ok data => return py.decode data

/-- A read of the table, by what holds once it was found out whether it can be reached. -/
theorem keeps_fromTable {α : Type} {nothing : α} {q : Ask} {read : Answer q → Except Fault α} {c : Contract Answers}
    {P : History Answers → Prop} {post : History Answers → Except Fault α → Prop} {t : History Answers}
    (hreached : Keeps c (fun t' _ => P t') t tableReached.run) (hfault : ∀ t' e, P t' → post t' (.error e))
    (hnothing : ∀ t', P t' → post t' (.ok nothing)) (hasks : ∀ t', P t' → c.asks t' (.inr q))
    (hanswered : ∀ t' r, P t' → c.answers t' (.inr q) r → post (t' ++ [⟨.inr q, r⟩]) (.ok nothing) ∧
      ∀ a, read r = .ok a → post (t' ++ [⟨.inr q, r⟩]) (.ok a)) :
    Keeps c post t (fromTable nothing q read).run := by
  refine keeps_then (keeps_mono hreached fun t' result hP => ?_)
  cases result with
  | error e => exact hfault t' e hP
  | ok reached =>
    cases reached with
    | false => exact hnothing t' hP
    | true =>
      refine keeps_attempt (keeps_asked (hasks t' hP) fun r hr => keeps_lift ?_)
      obtain ⟨hnone, hsome⟩ := hanswered t' r hP hr
      cases hread : read r with
      | error e => exact hnone
      | ok a => exact hsome a hread

end CoreHeartbeat.Attachments
