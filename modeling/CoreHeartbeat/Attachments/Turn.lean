/-
  CoreHeartbeat.Attachments.Turn — what a turn makes of the documents attached to it: the loads
  before the graph runs (`_load_documents`, `_load_document_images` and
  `_load_attachment_manifest` of `orchestrator.py`), and the tool that looks at an image again
  (`tools/attachments.py`).

  `loads` is the three of them in the order of `run` and `astream_run`. The texts are fetched
  until the budget is spent, joined and fenced; the images are those of the message's documents
  that the table lists as PNG or JPEG, at most three; the manifest names the documents of the
  chat, or where the table shows none those of the message. The first two catch what the
  services raise, and the third catches what the two reads of the table raise, but not what its
  own comprehension does.

  The tool takes a document id and a question from the model. It looks the document up, says
  what it cannot show, and otherwise hands the image and the question to the vision model and
  fences the answer (`Reading.text`). `runAttachmentTool` has the tool's outermost `try`.

  Everything here is a definition; whose documents these are is in `Ownership`, and what the
  loads come to in `Loads`.
-/

import CoreHeartbeat.Attachments.Storage

namespace CoreHeartbeat.Attachments

open Dialogue (attempt)
open CoreHeartbeat.Calendar (given)
open CoreHeartbeat.Graph (Json Args Image)
open CoreHeartbeat.Knowledge (orElse stripped)
open CoreHeartbeat.Services (Fault field)
open CoreHeartbeat.Untrusted (Text Tables Nonce wrap docCharBudget maxDocsPerTurn separator contextNotice documentContent
  imageReading documentPreamble)

def maxImagesPerTurn : Nat := 3

def maxAttachmentsListed : Nat := 20

variable (py : Python) (pillow : Pillow) (u : Tables) (userId : String)

/-! ## Before the graph -/

/-- The loop of `_load_documents`, as the `parts` it makes. -/
def loadParts (remaining : Nat) : List String → Call (List Text)
  | [] => return []
  | id :: ids => do
    let text := ((← attempt (fetchExtracted py userId id)).toOption.getD "").toList
    if text = [] then loadParts remaining ids
    else
      let chunk := text.take remaining
      if remaining - chunk.length = 0 then return [chunk, '\n' :: contextNotice]
      else return chunk :: (← loadParts (remaining - chunk.length) ids)

def loadDocuments (docIds : List String) : Call Text := do
  if docIds = [] then return []
  else
    let parts ← loadParts py userId docCharBudget (docIds.take maxDocsPerTurn)
    if parts = [] then return []
    else
      let nonce ← ask .nonce
      return wrap u nonce (separator.intercalate parts) documentContent docCharBudget documentPreamble

/-- The loop of `_load_document_images`, after `found` images; an original is fetched and made
    ready as `prepare_from_storage` does it. -/
def loadImages (types : Types) (found : Nat) : List String → Call (List Image)
  | [] => return []
  | id :: ids => do
    if maxImagesPerTurn ≤ found then return []
    else
      let media ← outcome (mediaOf py ((types.find id).getD .null))
      if media ∉ imageMediaTypes then loadImages types found ids
      else
        match ← prepareFromStorage pillow userId id with
        | none => loadImages types found ids
        | some image => return image :: (← loadImages types (found + 1) ids)

def loadDocumentImages (docIds : List String) : Call (List Image) := do
  if docIds = [] then return []
  else
    match ← attempt (fetchContentTypes userId (docIds.take maxDocsPerTurn)) with
    | .error _ => return []
    | .ok types => loadImages py pillow userId types 0 (docIds.take maxDocsPerTurn)

structure Attachment where
  id : Json
  filename : Json
  mediaType : String
  viewable : Bool

def attachmentOf (row : Json) : Except Fault Attachment := do
  let media ← mediaOf py (← field row "content_type")
  let id ← field row "id"
  let filename ← field row "filename"
  return ⟨id, orElse filename (.str "(unnamed)"), media, media ∈ imageMediaTypes⟩

def rowOf (entry : Json × Json) : Json := .obj [("id", entry.1), ("content_type", entry.2)]

/-- The rows, or where there are none those of the message's own documents. -/
def orOwnRows (docIds : List String) (rows : List Json) : Call (List Json) := do
  if rows.isEmpty ∧ docIds ≠ [] then
    let types := (← attempt (fetchContentTypes userId (docIds.take maxDocsPerTurn))).toOption.getD []
    return types.map rowOf
  else return rows

def loadAttachmentManifest (docIds : List String) (chatId : Option String) : Call (List Attachment) := do
  let listed ←
    match given chatId with
    | none => pure (.ok [])
    | some chatId => attempt (listChatDocuments userId chatId)
  let rows ← orOwnRows userId docIds (listed.toOption.getD [])
  outcome ((rows.take maxAttachmentsListed).mapM (attachmentOf py))

structure Prelude where
  documents : Text
  images : List Image
  attachments : List Attachment

def loads (docIds : List String) (chatId : Option String) : Call Prelude := do
  let documents ← loadDocuments py u userId docIds
  let images ← loadDocumentImages py pillow userId docIds
  let attachments ← loadAttachmentManifest py userId docIds chatId
  return ⟨documents, images, attachments⟩

/-! ## Looking again -/

def maxAnswerChars : Nat := 4000

/-- `_vision_answer`; an error is the text of an `AttachmentError`. -/
def visionAnswer (image : Image) (question : String) : Call (Except String Text) := do
  let key ← asGateway (Gateway.ask (.env "GEMINI_API_KEY"))
  if PyText.strip ((given key).getD "").toList = [] then
    return .error "no vision model is configured, so I cannot re-open images"
  else
    let sdk : Bool ← ask .visionSdk
    if sdk then
      let model ← asGateway (Gateway.ask (.env "REREAD_VISION_MODEL"))
      let text ← outcome (← ask (.vision ((given model).getD "gemini-2.5-flash") image question))
      let text := PyText.strip (text.getD "").toList
      if text = [] then return .error "the vision model returned nothing for that image"
      else return .ok (text.take maxAnswerChars)
    else return .error "the vision SDK is unavailable"

/-- What the tool returns: a text of its own, or what the vision model read, to be fenced. -/
inductive Reading where
  | said (text : String)
  | read (nonce : Nonce) (answer : Text)

def Reading.text : Reading → Text
  | .said text => text.toList
  | .read nonce answer => wrap u nonce answer imageReading maxAnswerChars documentPreamble

/-- `(args.get(key) or "").strip()`. -/
def argOf (args : Args) (key : String) : Except Fault String :=
  (stripped (orElse ((args.lookup key).getD .null) (.str ""))).mapError Fault.other

def notAnImage (media : String) : String :=
  if media ∈ knownUnviewableMediaTypes then
    "I cannot view " ++ media ++ " images — only PNG and JPEG. I have the text " ++
      "extracted from this file, but I have not seen the picture itself, " ++
      "so I should not describe what it looks like."
  else
    "That attachment is " ++ (if media = "" then "an unknown type" else media) ++ ", not an image I can " ++
      "look at. Answer from its extracted text, and say that is what you are doing."

def rereadAttachment (args : Args) : Call Reading := do
  let docId ← outcome (argOf args "doc_id")
  let question ← outcome (argOf args "question")
  if docId = "" then
    return .said "error: reread_attachment needs doc_id (the id shown in the attachment list)."
  else if question = "" then
    return .said "error: reread_attachment needs a question to answer about the image."
  else
    let types ← fetchContentTypes userId [docId]
    match types.find docId with
    | none => return .said ("error: no attachment with id " ++ docId ++ " in this conversation.")
    | some contentType =>
      let media ← outcome (mediaOf py contentType)
      if media ∉ imageMediaTypes then return .said (notAnImage media)
      else
        match ← prepareFromStorage pillow userId docId with
        | none =>
          return .said ("I could not open that image (it may be corrupt, or too large even " ++
            "after resizing). I have not seen it, so I should not describe it.")
        | some image =>
          match ← attempt (visionAnswer image question) with
          | .error _ => return .said "error: the image could not be examined just now."
          | .ok (.error text) => return .said ("error: " ++ text)
          | .ok (.ok answer) => return .read (← ask .nonce) answer

/-- `type(exc).__name__`. -/
def typeName (exc : Fault) : String := String.ofList ((Gateway.faultText exc).toList.takeWhile (· ≠ ':'))

/-- `run_attachment_tool`, of its one tool. -/
def runAttachmentTool (args : Args) : Call Reading := do
  if PyText.strip userId.toList = [] then return .said "error: no user context for this attachment lookup."
  else
    match ← attempt (rereadAttachment py pillow userId args) with
    | .error exc => return .said ("error: " ++ typeName exc)
    | .ok reading => return reading

end CoreHeartbeat.Attachments
