/-
  CoreHeartbeat.Gateway.Routes — the routes that act for a user: documents, the Knowledge base
  and the upload folder (`router.py`, with the calls of `services/kb.py` and
  `services/documents.py`).

  A route runs for the identity its caller resolved to. What it asks of the Knowledge base
  carries an owner: the caller, or `global` for an admin. Exceptions that a route does not catch
  leave it, and the framework answers 500.

  The routes, and what each is there for:
  - `parseDocument`: an original of the caller's is read, turned into text and stored; a
    document too large, or one that docling cannot read, is answered with an error result. The
    store of the text stands outside every `try`.
  - `kbIngest`: an original of the caller's goes to the Knowledge base under the caller's name,
    or under the shared one for an admin.
  - `kbDeleteDocument`: the same two owners.
  - `kbJob`, `kbDocuments`: reads; the status of an ingest needs no sign-in.
  - `kbChatStream`: a turn of Knowledge chat for the caller.
  - `uploadFile`, `listUploads`, `deleteUpload`: the shared folder, for an admin.

  `Request.serve` is a whole request: the dependency resolves the caller, and the route runs.
  What is asked of whom is `TrustBoundary`.
-/

import CoreHeartbeat.Gateway.Identity

namespace CoreHeartbeat.Gateway

open Dialogue (attempt)
open CoreHeartbeat.Calendar (given)
open CoreHeartbeat.Graph (Json)
open CoreHeartbeat.Knowledge (truthy)
open CoreHeartbeat.Services (Fault Http firstItem field)
open CoreHeartbeat.Uploads (sandboxUserId unquoted)

/-! ## Replies -/

inductive Reply where
  | json (status : Nat) (content : Json)
  /-- `DocumentParseResult`. -/
  | ready (charCount : Nat)
  | error (text : String)
  /-- The stream of a Knowledge-chat turn. -/
  | stream (userId : String)

def Reply.status : Reply → Nat
  | .json status _ => status
  | _ => 200

def detail (status : Nat) (text : String) : Reply := .json status (.obj [("detail", .str text)])

/-- What `json.dumps(…, allow_nan=False)` accepts. -/
def finite : Json → Bool
  | .float repr => repr ≠ "nan" && repr ≠ "inf" && repr ≠ "-inf"
  | .arr items => finiteItems items
  | .obj fields => finiteFields fields
  | _ => true
where
  finiteItems : List Json → Bool
    | [] => true
    | v :: vs => finite v && finiteItems vs
  finiteFields : List (String × Json) → Bool
    | [] => true
    | (_, v) :: fs => finite v && finiteFields fs

/-- `JSONResponse(status_code=200, content=content)`. -/
def okJson (content : Json) : Except Fault Reply :=
  if finite content then .ok (.json 200 content)
  else .error (.other "ValueError: Out of range float values are not JSON compliant")

/-- `f"{type(exc).__name__}: {exc}"`. -/
def faultText : Fault → String
  | .transport text => text
  | .httpStatus code => "HTTPStatusError: " ++ toString code
  | .other text => text

/-! ## Services -/

def adminIn (r : Http) : Except Fault Bool := do
  r.raiseForStatus
  let rows ← r.json
  if truthy rows then return truthy (← field (← firstItem rows) "is_admin") else return false

/-- `is_admin` of `services/kb.py`. -/
def isAdmin (userId : String) : Call Bool := do
  let url ← ask (.env "SUPABASE_URL")
  let key ← outcome (← ask (.secret "SUPABASE_SERVICE_ROLE_KEY"))
  if (given url).isNone || (given key).isNone then return false
  else do
    let r ← outcome (← ask (.profile userId))
    outcome (adminIn r)

/-- `is_admin`, where an exception is a no. -/
def isAdminOrNot (userId : String) : Call Bool := do
  match ← attempt (isAdmin userId) with
  | .error _ => return false
  | .ok admin => return admin

/-- `_kb_base` and `_kb_headers`, and the request they are for. -/
def kbRequest (method : Method) (path owner : String) (body : KbBody) : Call Http := do
  let url ← ask (.env "GRAPHRAG_SERVICE_URL")
  if (given url).isNone then throw (.other "KbError: GRAPHRAG_SERVICE_URL is not set")
  else do
    let key ← ask (.env "GRAPHRAG_API_KEY")
    if (given key).isNone then throw (.other "KbError: GRAPHRAG_API_KEY is not set")
    else outcome (← ask (.kb method path owner body))

/-- `r.raise_for_status(); return r.json()`. -/
def accepted (r : Http) : Call Json := do
  outcome r.raiseForStatus
  outcome r.json

def ingest (owner filename : String) (content : Bytes) (replaces : Option String) : Call Json := do
  accepted (← kbRequest .post "/api/ingest" owner (.ingest content filename (given replaces)))

def getJob (jobId owner : String) : Call Json := do
  accepted (← kbRequest .get ("/api/jobs/" ++ jobId) owner .none)

def listDocuments (owner : String) : Call Json := do
  accepted (← kbRequest .get "/api/documents" owner .none)

def deleteDocument (docId owner : String) : Call Bool := do
  let r ← kbRequest .delete ("/api/documents/" ++ docId) owner .none
  if r.status = 404 then return false
  else do
    outcome r.raiseForStatus
    return true

/-- `_key` of `services/documents.py`. -/
def documentKey (userId docId name : String) : String := userId ++ "/" ++ docId ++ "/" ++ name

def fetchOriginal (userId docId : String) : Call Bytes := do
  outcome (← ask (.getObject (documentKey userId docId "original")))

def storeExtracted (userId docId text : String) : Call Unit := do
  outcome (← ask (.putObject (documentKey userId docId "extracted.txt") text))

/-! ## The routes -/

inductive Scope where
  | private_ | global
  deriving DecidableEq, Repr

def globalOwner : String := "global"

def maxDocBytes : Nat := 20 * 1024 * 1024

def parseDocumentEndpoint (userId docId filename : String) (contentType : Option String) : Call Reply := do
  if userId = sandboxUserId then return detail 401 "authentication required for documents"
  else do
    match ← attempt (fetchOriginal userId docId) with
    | .error _ => return .error "original file not found"
    | .ok data =>
      if maxDocBytes < data.length then return .error "file exceeds the 20 MB limit"
      else do
        match ← ask (.extract data filename contentType) with
        | .error exc => return .error (String.ofList ((faultText exc).toList.take 200))
        | .ok text => do
          storeExtracted userId docId text
          return .ready text.length

/-- The owner of what a caller writes, and the refusal of one who is no admin. -/
def ownerFor (userId : String) (isGlobal : Bool) : Call (Option String) := do
  if isGlobal then
    if ← isAdminOrNot userId then return some globalOwner else return none
  else return some userId

def kbIngest (userId docId filename : String) (scope : Scope) (replaces : Option String) : Call Reply := do
  if userId = sandboxUserId then return detail 401 "authentication required for the knowledge base"
  else do
    match ← ownerFor userId (scope = .global) with
    | none => return detail 403 "admin required to add global documents"
    | some owner =>
      match ← attempt (fetchOriginal userId docId) with
      | .error _ => return detail 404 "original file not found"
      | .ok data =>
        if maxDocBytes < data.length then return detail 413 "file exceeds the 20 MB limit"
        else do
          match ← attempt (ingest owner filename data replaces) with
          | .error _ => return detail 502 "knowledge base ingest failed"
          | .ok result => outcome (okJson result)

def kbChatStream (userId : String) : Call Reply := do
  if userId = sandboxUserId then return detail 401 "authentication required for the knowledge base"
  else do
    ask (.chat userId)
    return .stream userId

def kbJob (userId jobId : String) : Call Reply := do
  match ← attempt (do outcome (okJson (← getJob jobId userId))) with
  | .error _ => return detail 502 "knowledge base unavailable"
  | .ok reply => return reply

def kbDocuments (userId : String) : Call Reply := do
  if userId = sandboxUserId then return detail 401 "authentication required for the knowledge base"
  else do
    match ← attempt (do outcome (okJson (← listDocuments userId))) with
    | .error _ => return detail 502 "knowledge base unavailable"
    | .ok reply => return reply

def kbDeleteDocument (userId docId scope : String) : Call Reply := do
  if userId = sandboxUserId then return detail 401 "authentication required for the knowledge base"
  else do
    match ← ownerFor userId (scope = "global") with
    | none => return detail 403 "admin required to delete global documents"
    | some owner =>
      match ← attempt (deleteDocument docId owner) with
      | .error _ => return detail 502 "knowledge base unavailable"
      | .ok false => return detail 404 "document not found or not permitted"
      | .ok true => return .json 200 (.obj [("deleted", .str docId)])

def requireAdmin (userId : String) : Call (Option Reply) := do
  if userId = sandboxUserId then return some (detail 401 "authentication required for file uploads")
  else if ← isAdminOrNot userId then return none
  else return some (detail 403 "admin required for file uploads")

/-- The rest of an upload route: the call of the service, and what its failures answer. -/
def folderReply (op : FolderOp) (failed : String) (reply : Json → Except Fault Reply) : Call Reply := do
  match ← ask (.folder op) with
  | .ok result => outcome (reply result)
  | .error (.upload status text) => return detail status text
  | .error (.fault _) => return detail 500 failed

def uploadFile (userId header : String) : Call Reply := do
  match ← requireAdmin userId with
  | some refusal => return refusal
  | none =>
    let rawName := unquoted header
    if PyText.strip rawName.toList = [] then return detail 400 "X-Upload-Filename is required"
    else folderReply (.store rawName) "upload failed" okJson

def listUploads (userId : String) : Call Reply := do
  match ← requireAdmin userId with
  | some refusal => return refusal
  | none => folderReply .list "could not read the upload folder" fun files => okJson (.obj [("files", files)])

def deleteUpload (userId name : String) : Call Reply := do
  match ← requireAdmin userId with
  | some refusal => return refusal
  | none => folderReply (.delete (unquoted name)) "delete failed" fun _ => okJson (.obj [("deleted", .str name)])

inductive Route where
  | parseDocument (docId filename : String) (contentType : Option String)
  | kbIngest (docId filename : String) (scope : Scope) (replaces : Option String)
  | kbChatStream
  | kbJob (jobId : String)
  | kbDocuments
  | kbDeleteDocument (docId scope : String)
  | uploadFile (header : String)
  | listUploads
  | deleteUpload (name : String)

def Route.serve (userId : String) : Route → Call Reply
  | .parseDocument docId filename contentType => Gateway.parseDocumentEndpoint userId docId filename contentType
  | .kbIngest docId filename scope replaces => Gateway.kbIngest userId docId filename scope replaces
  | .kbChatStream => Gateway.kbChatStream userId
  | .kbJob jobId => Gateway.kbJob userId jobId
  | .kbDocuments => Gateway.kbDocuments userId
  | .kbDeleteDocument docId scope => Gateway.kbDeleteDocument userId docId scope
  | .uploadFile header => Gateway.uploadFile userId header
  | .listUploads => Gateway.listUploads userId
  | .deleteUpload name => Gateway.deleteUpload userId name

structure Request where
  authorization : Option String
  route : Route

/-- The dependency resolves the caller, and the route runs for it. -/
def Request.serve (req : Request) : Call Reply := do
  req.route.serve (← resolveUserId req.authorization)

end CoreHeartbeat.Gateway
