/-
  CoreHeartbeat.Attachments.Ownership — whose documents a turn sees.

  The ids in a message come from the browser, and those in a call of the tool from a model, so
  neither can be trusted to be the caller's. The table of documents is asked with the caller's
  id in the query, the bucket with it in the key, and an original is fetched only once the table
  listed it. Nothing is taken from what the table, the bucket or the models answer: each may
  answer anything, in any order of requests.

  A history shows what was established so far: `Typed` and `Listed` (the table listed the
  document for the caller, as an image), `Opened` (an image was made of the caller's original),
  `Shown` (a part is the start of a text stored for the caller). The contract of a load is
  stated on it. An `Errand` is what it is about: the documents named, whether their texts are
  read, the chat whose documents are listed, and the question that a model is asked.

  Proved, whatever ids a message or a model names and whatever is answered:
  - `turn_attachments_owned`: the loads of a turn ask for the caller's rows, of the documents
    named and of the message's own chat, and for the caller's objects alone, and for an original
    only after the caller's table listed it as an image; no model is asked. What they load are
    pieces of texts stored for the caller and images made of the caller's originals, a few of
    them (`turn_attachments_owned_image` is a turn with one).
  - `reread_owned`: the tool asks for nothing but the one document named, no texts and no other
    rows of a chat; it shows a model at most one image, one of the caller's own, with the
    question put to it, and says that it read something only when the model answered about that
    image (`reread_owned_image`).
-/

import CoreHeartbeat.Attachments.Turn
import CoreHeartbeat.Lib.Fallible

namespace CoreHeartbeat.Attachments

open Dialogue
open CoreHeartbeat.Graph (Json Args Image)
open CoreHeartbeat.Services (Fault Http)
open CoreHeartbeat.Gateway (Bytes fetchOriginal documentKey)
open CoreHeartbeat.Untrusted (Text Tables wrap docCharBudget maxDocsPerTurn separator contextNotice documentContent
  documentPreamble splicedNonce)

variable (py : Python) (pillow : Pillow) (userId : String)

/-! ## What a history shows -/

/-- The table listed the document among the user's, with a content type. -/
def Typed (t : History Answers) (docId : String) (contentType : Json) : Prop :=
  ∃ docIds r types, (⟨.inr (.contentTypes userId docIds), .ok r⟩ : Exchange Answers) ∈ t ∧
    (rowsOf r >>= typesIn) = .ok types ∧ types.find docId = some contentType

/-- The table listed the document among the user's, as an image. -/
def Listed (t : History Answers) (docId : String) : Prop :=
  ∃ contentType media, Typed userId t docId contentType ∧ mediaOf py contentType = .ok media ∧ media ∈ imageMediaTypes

/-- The image was made of the original that the user uploaded. -/
def Opened (t : History Answers) (image : Image) : Prop :=
  Listed py userId t image.docId ∧ ∃ raw,
    (⟨.inl (.getObject (documentKey userId image.docId "original")), .ok raw⟩ : Exchange Answers) ∈ t ∧
      prepared pillow image.docId raw = some image

/-- A part of the documents: the start of a text stored for the user, or the notice. -/
def Shown (t : History Answers) (named : List String) (part : Text) : Prop :=
  part = '\n' :: contextNotice ∨ ∃ docId ∈ named, ∃ data,
    (⟨.inl (.getObject (documentKey userId docId "extracted.txt")), .ok data⟩ : Exchange Answers) ∈ t ∧
      part <+: (py.decode data).toList

def isVision (e : Exchange Answers) : Bool :=
  match e.asked with
  | .inr (.vision _ _ _) => true
  | _ => false

/-- What is done for a user: the documents it names, whether their texts are read, the chat
    whose documents are listed, and the question put to a model. -/
structure Errand where
  named : List String
  texts : Bool
  chat : Option String
  question : Option String

def turnErrand (docIds : List String) (chatId : Option String) : Errand :=
  ⟨docIds.take maxDocsPerTurn, true, Calendar.given chatId, none⟩

def namedBy (args : Args) : List String := (argOf args "doc_id").toOption.toList

def rereadErrand (args : Args) : Errand := ⟨namedBy args, false, none, (argOf args "question").toOption⟩

def settings : List String := ["SUPABASE_URL", "GEMINI_API_KEY", "REREAD_VISION_MODEL"]

def Allowed (errand : Errand) (t : History Answers) : Gateway.Ask ⊕ Ask → Prop
  | .inl (.env name) => name ∈ settings
  | .inl (.secret name) => name = "SUPABASE_SERVICE_ROLE_KEY"
  | .inl (.getObject key) =>
    ∃ docId ∈ errand.named, errand.texts = true ∧ key = documentKey userId docId "extracted.txt" ∨
      key = documentKey userId docId "original" ∧ Listed py userId t docId
  | .inl _ => False
  | .inr (.contentTypes v docIds) => v = userId ∧ docIds ⊆ errand.named
  | .inr (.chatDocuments v chatId) => v = userId ∧ errand.chat = some chatId
  | .inr (.vision _ image question) =>
    errand.question = some question ∧ Opened py pillow userId t image ∧ image.docId ∈ errand.named ∧ t.any isVision = false
  | .inr .visionSdk => errand.question.isSome = true
  | .inr .nonce => True

def userContract (errand : Errand) : Contract Answers where
  asks t q := Allowed py pillow userId errand t q
  answers _ _ _ := True

variable {py pillow userId} {u : Tables}

/-- Whatever the types say of a document, the table said of the user's. -/
def TypesOf (userId : String) (t : History Answers) (types : Types) : Prop :=
  ∀ docId contentType, types.find docId = some contentType → Typed userId t docId contentType

theorem Typed.mono {t : History Answers} {docId : String} {contentType : Json} (h : Typed userId t docId contentType)
    (m : History Answers) : Typed userId (t ++ m) docId contentType := by
  obtain ⟨docIds, r, types, hmem, hrest⟩ := h
  exact ⟨docIds, r, types, List.mem_append_left _ hmem, hrest⟩

theorem TypesOf.mono {t : History Answers} {types : Types} (h : TypesOf userId t types) (m : History Answers) :
    TypesOf userId (t ++ m) types :=
  fun docId contentType hfind => (h docId contentType hfind).mono m

theorem typesOf_nil (t : History Answers) : TypesOf userId t [] := nofun

theorem Listed.mono {t : History Answers} {docId : String} (h : Listed py userId t docId) (m : History Answers) :
    Listed py userId (t ++ m) docId := by
  obtain ⟨contentType, media, htyped, hrest⟩ := h
  exact ⟨contentType, media, htyped.mono m, hrest⟩

theorem Opened.mono {t : History Answers} {image : Image} (h : Opened py pillow userId t image) (m : History Answers) :
    Opened py pillow userId (t ++ m) image := by
  obtain ⟨hlisted, raw, hmem, hprepared⟩ := h
  exact ⟨hlisted.mono m, raw, List.mem_append_left _ hmem, hprepared⟩

theorem Shown.mono {t : History Answers} {named : List String} {part : Text} (h : Shown py userId t named part)
    (m : History Answers) : Shown py userId (t ++ m) named part := by
  rcases h with h | ⟨docId, hnamed, data, hmem, hpart⟩
  · exact Or.inl h
  · exact Or.inr ⟨docId, hnamed, data, List.mem_append_left _ hmem, hpart⟩

/-- More was asked, and no model. -/
def After (t t' : History Answers) : Prop := ∃ m, t' = t ++ m ∧ m.any isVision = false

theorem After.refl (t : History Answers) : After t t := ⟨[], (List.append_nil t).symm, rfl⟩

theorem After.snoc {t t' : History Answers} (h : After t t') {e : Exchange Answers} (he : isVision e = false) :
    After t (t' ++ [e]) := by
  obtain ⟨m, rfl, hm⟩ := h
  refine ⟨m ++ [e], List.append_assoc _ _ _, ?_⟩
  rw [List.any_append, hm, Bool.false_or, List.any_cons, he]
  rfl

theorem After.trans {t t' t'' : History Answers} (h : After t t') (h' : After t' t'') : After t t'' := by
  obtain ⟨m, rfl, hm⟩ := h
  obtain ⟨m', rfl, hm'⟩ := h'
  exact ⟨m ++ m', List.append_assoc _ _ _, by rw [List.any_append, hm, hm']; rfl⟩

theorem After.quiet {t t' : History Answers} (h : After t t') (ht : t.any isVision = false) : t'.any isVision = false := by
  obtain ⟨m, rfl, hm⟩ := h
  rw [List.any_append, ht, hm]
  rfl

theorem After.prefix_of {t t' : History Answers} (h : After t t') : t <+: t' := by
  obtain ⟨m, rfl, -⟩ := h
  exact List.prefix_append t m

theorem Opened.after {t t' : History Answers} {image : Image} (h : Opened py pillow userId t image) (hafter : After t t') :
    Opened py pillow userId t' image := by
  obtain ⟨m, rfl, -⟩ := hafter
  exact h.mono m

/-! ## Rows and objects -/

section
variable {errand : Errand} {t : History Answers}

/-- A request of the gateway's, and what follows its answer. -/
theorem keeps_gateway {α : Type} {post : History Answers → Except Fault α → Prop} {q : Gateway.Ask}
    {f : Gateway.Answer q → Call α} (hasks : Allowed py pillow userId errand t (.inl q))
    (h : ∀ r, Keeps (userContract py pillow userId errand) post (t ++ [⟨.inl q, r⟩]) (f r).run) :
    Keeps (userContract py pillow userId errand) post t (asGateway (Gateway.ask q) >>= f).run :=
  ⟨hasks, fun r _ => h r⟩

theorem tableReached_keeps :
    Keeps (userContract py pillow userId errand) (fun t' _ => After t t') t tableReached.run := by
  refine keeps_gateway (by simp [Allowed, settings]) fun url => ?_
  refine keeps_gateway rfl fun key => ?_
  have hafter := ((After.refl t).snoc (e := ⟨.inl (.env "SUPABASE_URL"), url⟩) rfl).snoc
    (e := ⟨.inl (.secret "SUPABASE_SERVICE_ROLE_KEY"), key⟩) rfl
  exact keeps_given (fun e _ => hafter) fun _ _ => hafter

theorem fetchContentTypes_keeps {docIds : List String} (hnamed : docIds ⊆ errand.named) :
    Keeps (userContract py pillow userId errand)
      (fun t' result => After t t' ∧ ∀ types, result = .ok types → TypesOf userId t' types)
      t (fetchContentTypes userId docIds).run := by
  have hnone : ∀ t' : History Answers, After t t' →
      After t t' ∧ ∀ types, (.ok [] : Except Fault Types) = .ok types → TypesOf userId t' types := by
    rintro t' hafter
    refine ⟨hafter, fun types htypes => ?_⟩
    cases htypes
    exact typesOf_nil t'
  unfold fetchContentTypes
  split
  · exact hnone t (After.refl t)
  · refine keeps_fromTable tableReached_keeps (fun _ _ hafter => ⟨hafter, nofun⟩) hnone (fun _ _ => ⟨rfl, hnamed⟩) ?_
    intro t' answer hafter _
    have hafter := hafter.snoc (e := ⟨.inr (.contentTypes userId docIds), answer⟩) rfl
    refine ⟨hnone _ hafter, fun types htypes => ⟨hafter, fun types' hsame docId contentType hfind => ?_⟩⟩
    cases hsame
    obtain ⟨rows, hread, hin⟩ := Fallible.bind_ok.mp htypes
    obtain ⟨r, rfl, hrows⟩ := Fallible.bind_ok.mp hread
    exact ⟨docIds, r, types, List.mem_append_right _ (List.mem_singleton.mpr rfl),
      Fallible.bind_ok.mpr ⟨rows, hrows, hin⟩, hfind⟩

/-- An object of the bucket, fetched and decoded or not. -/
theorem prepareFromStorage_keeps {docId : String} (hnamed : docId ∈ errand.named) (hlisted : Listed py userId t docId) :
    Keeps (userContract py pillow userId errand) (fun t' result => After t t' ∧ ∃ found, result = .ok found ∧
        ∀ image, found = some image → Opened py pillow userId t' image ∧ image.docId = docId)
      t (prepareFromStorage pillow userId docId).run := by
  refine keeps_attempt ⟨⟨docId, hnamed, Or.inr ⟨rfl, hlisted⟩⟩, fun answer _ => ?_⟩
  have hafter := (After.refl t).snoc (e := ⟨.inl (.getObject (documentKey userId docId "original")), answer⟩) rfl
  cases answer with
  | error e => exact ⟨hafter, none, rfl, nofun⟩
  | ok raw =>
    refine ⟨hafter, prepared pillow docId raw, rfl, fun image himage => ?_⟩
    obtain ⟨out, -, rfl⟩ := Option.map_eq_some_iff.mp himage
    exact ⟨⟨hlisted.mono _, raw, List.mem_append_right _ (List.mem_singleton.mpr rfl), himage⟩, rfl⟩

/-! ## Documents -/

theorem fetchExtracted_keeps (htexts : errand.texts = true) {docId : String} (hnamed : docId ∈ errand.named) :
    Keeps (userContract py pillow userId errand) (fun t' result => After t t' ∧ ∃ text, result = .ok text ∧
        ∀ n, text.toList ≠ [] → Shown py userId t' errand.named (text.toList.take n))
      t (fetchExtracted py userId docId).run := by
  refine keeps_attempt ⟨⟨docId, hnamed, Or.inl ⟨htexts, rfl⟩⟩, fun answer _ => ?_⟩
  have hafter := (After.refl t).snoc (e := ⟨.inl (.getObject (documentKey userId docId "extracted.txt")), answer⟩) rfl
  cases answer with
  | error e => exact ⟨hafter, "", rfl, fun n hne => absurd rfl hne⟩
  | ok data =>
    refine ⟨hafter, py.decode data, rfl, fun n _ => Or.inr ⟨docId, hnamed, data, ?_, List.take_prefix n _⟩⟩
    exact List.mem_append_right _ (List.mem_singleton.mpr rfl)

theorem loadParts_keeps (htexts : errand.texts = true) {docIds : List String} (hnamed : docIds ⊆ errand.named)
    (remaining : Nat) :
    Keeps (userContract py pillow userId errand) (fun t' result => After t t' ∧ ∃ parts, result = .ok parts ∧
        ∀ part ∈ parts, Shown py userId t' errand.named part)
      t (loadParts py userId remaining docIds).run := by
  induction docIds generalizing t remaining with
  | nil => exact ⟨After.refl t, [], rfl, nofun⟩
  | cons docId docIds ih =>
    have hrest : docIds ⊆ errand.named := fun d hd => hnamed (List.mem_cons_of_mem _ hd)
    refine keeps_attempt (keeps_mono (fetchExtracted_keeps htexts (hnamed List.mem_cons_self))
      fun t' result hresult => ?_)
    obtain ⟨hafter, text, rfl, hshown⟩ := hresult
    dsimp only [Except.toOption, Option.getD_some]
    split
    · refine keeps_mono (ih hrest remaining) fun t'' result hresult => ?_
      exact ⟨hafter.trans hresult.1, hresult.2⟩
    · rename_i hne
      split
      · refine ⟨hafter, _, rfl, fun part hpart => ?_⟩
        rcases List.mem_pair.mp hpart with rfl | rfl
        · exact hshown _ hne
        · exact Or.inl rfl
      · refine keeps_then (keeps_mono (ih hrest _) fun t'' result hresult => ?_)
        obtain ⟨hafter', parts, rfl, hparts⟩ := hresult
        refine ⟨hafter.trans hafter', _, rfl, fun part hpart => ?_⟩
        rcases List.mem_cons.mp hpart with rfl | hpart
        · obtain ⟨m, rfl, -⟩ := hafter'
          exact (hshown _ hne).mono m
        · exact hparts part hpart

def Contained (py : Python) (u : Tables) (userId : String) (t : History Answers) (named : List String) (documents : Text) : Prop :=
  documents = [] ∨ ∃ nonce parts,
    documents = wrap u nonce (separator.intercalate parts) documentContent docCharBudget documentPreamble ∧
      ∀ part ∈ parts, Shown py userId t named part

theorem loadDocuments_keeps (htexts : errand.texts = true) {docIds : List String}
    (hnamed : docIds.take maxDocsPerTurn ⊆ errand.named) :
    Keeps (userContract py pillow userId errand) (fun t' result => After t t' ∧ ∃ documents, result = .ok documents ∧
        Contained py u userId t' errand.named documents)
      t (loadDocuments py u userId docIds).run := by
  unfold loadDocuments
  split
  · exact ⟨After.refl t, [], rfl, Or.inl rfl⟩
  · refine keeps_then (keeps_mono (loadParts_keeps htexts hnamed _) fun t' result hresult => ?_)
    obtain ⟨hafter, parts, rfl, hparts⟩ := hresult
    dsimp only
    split
    · exact ⟨hafter, [], rfl, Or.inl rfl⟩
    · refine keeps_asked trivial fun nonce _ => ?_
      refine ⟨hafter.snoc rfl, _, rfl, Or.inr ⟨nonce, parts, rfl, fun part hpart => ?_⟩⟩
      exact (hparts part hpart).mono _

/-! ## Images -/

theorem listed_of_typed {types : Types} (htypes : TypesOf userId t types) {docId media : String}
    (hmedia : mediaOf py ((types.find docId).getD .null) = .ok media) (himage : media ∈ imageMediaTypes) :
    Listed py userId t docId := by
  cases hfind : types.find docId with
  | none =>
    -- a document that was not listed has the empty content type
    rw [hfind] at hmedia
    have hempty : mediaOf py .null = .ok (String.ofList (py.lower [])) := rfl
    rw [Option.getD_none, hempty, py.lower_nil] at hmedia
    cases hmedia
    exact absurd himage (by decide)
  | some contentType =>
    rw [hfind] at hmedia
    exact ⟨contentType, media, htypes docId contentType hfind, hmedia, himage⟩

theorem loadImages_keeps {types : Types} (htypes : TypesOf userId t types) {docIds : List String}
    (hnamed : docIds ⊆ errand.named) (found : Nat) :
    Keeps (userContract py pillow userId errand) (fun t' result => After t t' ∧ ∀ images, result = .ok images →
        images.length ≤ maxImagesPerTurn - found ∧
          ∀ image ∈ images, Opened py pillow userId t' image ∧ image.docId ∈ errand.named)
      t (loadImages py pillow userId types found docIds).run := by
  induction docIds generalizing t found with
  | nil =>
    refine ⟨After.refl t, fun images himages => ?_⟩
    cases himages
    exact ⟨Nat.zero_le _, nofun⟩
  | cons docId docIds ih =>
    have hrest : docIds ⊆ errand.named := fun d hd => hnamed (List.mem_cons_of_mem _ hd)
    unfold loadImages
    split
    · refine ⟨After.refl t, fun images himages => ?_⟩
      cases himages
      exact ⟨Nat.zero_le _, nofun⟩
    · rename_i hroom
      refine keeps_given (fun e _ => ⟨After.refl t, nofun⟩) fun media hmedia => ?_
      split
      · exact ih htypes hrest found
      · rename_i himage
        have hlisted := listed_of_typed htypes hmedia (not_not.mp himage)
        refine keeps_then (keeps_mono (prepareFromStorage_keeps (hnamed List.mem_cons_self) hlisted) fun t' result hresult => ?_)
        obtain ⟨hafter, image?, rfl, hopened⟩ := hresult
        have htypes' : TypesOf userId t' types := by
          obtain ⟨m, rfl, -⟩ := hafter
          exact htypes.mono m
        cases image? with
        | none =>
          refine keeps_mono (ih htypes' hrest found) fun t'' result hresult => ?_
          exact ⟨hafter.trans hresult.1, hresult.2⟩
        | some image =>
          obtain ⟨hopened, hdoc⟩ := hopened image rfl
          refine keeps_then (keeps_mono (ih htypes' hrest (found + 1)) fun t'' result hresult => ?_)
          obtain ⟨hafter', himages⟩ := hresult
          cases result with
          | error e => exact ⟨hafter.trans hafter', nofun⟩
          | ok images =>
            obtain ⟨hlength, hall⟩ := himages images rfl
            refine ⟨hafter.trans hafter', fun images' himages' => ?_⟩
            cases himages'
            refine ⟨by rw [List.length_cons]; omega, fun image' himage' => ?_⟩
            rcases List.mem_cons.mp himage' with rfl | himage'
            · obtain ⟨m, rfl, -⟩ := hafter'
              exact ⟨hopened.mono m, hdoc ▸ hnamed List.mem_cons_self⟩
            · exact hall image' himage'

def ImagesOf (py : Python) (pillow : Pillow) (userId : String) (t : History Answers) (named : List String)
    (images : List Image) : Prop :=
  images.length ≤ maxImagesPerTurn ∧ ∀ image ∈ images, Opened py pillow userId t image ∧ image.docId ∈ named

theorem loadDocumentImages_keeps {docIds : List String} (hnamed : docIds.take maxDocsPerTurn ⊆ errand.named) :
    Keeps (userContract py pillow userId errand) (fun t' result => After t t' ∧ ∀ images, result = .ok images →
        ImagesOf py pillow userId t' errand.named images)
      t (loadDocumentImages py pillow userId docIds).run := by
  have hnone : ∀ t' : History Answers, After t t' → After t t' ∧ ∀ images, (.ok [] : Except Fault (List Image)) = .ok images →
      ImagesOf py pillow userId t' errand.named images := by
    rintro t' hafter
    refine ⟨hafter, fun images himages => ?_⟩
    cases himages
    exact ⟨Nat.zero_le _, nofun⟩
  unfold loadDocumentImages
  split
  · exact hnone t (After.refl t)
  · refine keeps_attempt (keeps_mono (fetchContentTypes_keeps hnamed) fun t' result hresult => ?_)
    obtain ⟨hafter, htypes⟩ := hresult
    cases result with
    | error e => exact hnone t' hafter
    | ok types =>
      refine keeps_mono (loadImages_keeps (htypes types rfl) hnamed 0) fun t'' result hresult => ?_
      exact ⟨hafter.trans hresult.1, hresult.2⟩

/-! ## The manifest -/

theorem listChatDocuments_keeps {chatId : String} (hchat : errand.chat = some chatId) :
    Keeps (userContract py pillow userId errand) (fun t' _ => After t t') t (listChatDocuments userId chatId).run := by
  unfold listChatDocuments
  split
  · exact After.refl t
  · refine keeps_fromTable tableReached_keeps (fun _ _ hafter => hafter) (fun _ hafter => hafter) (fun _ _ => ⟨rfl, hchat⟩) ?_
    intro t' answer hafter _
    have hafter := hafter.snoc (e := ⟨.inr (.chatDocuments userId chatId), answer⟩) rfl
    exact ⟨hafter, fun _ _ => hafter⟩

theorem orOwnRows_keeps {docIds : List String} (hnamed : docIds.take maxDocsPerTurn ⊆ errand.named) (rows : List Json) :
    Keeps (userContract py pillow userId errand) (fun t' _ => After t t') t (orOwnRows userId docIds rows).run := by
  unfold orOwnRows
  split
  · exact keeps_attempt (keeps_mono (fetchContentTypes_keeps hnamed) fun t' result hresult => hresult.1)
  · exact After.refl t

theorem loadAttachmentManifest_keeps {docIds : List String} (hnamed : docIds.take maxDocsPerTurn ⊆ errand.named)
    {chatId : Option String} (hchat : errand.chat = Calendar.given chatId) :
    Keeps (userContract py pillow userId errand) (fun t' result => After t t' ∧ ∀ attachments, result = .ok attachments →
        attachments.length ≤ maxAttachmentsListed)
      t (loadAttachmentManifest py userId docIds chatId).run := by
  have hlisted : ∀ (t' : History Answers) (rows : List Json), After t t' →
      Keeps (userContract py pillow userId errand) (fun t' result => After t t' ∧ ∀ attachments, result = .ok attachments →
          attachments.length ≤ maxAttachmentsListed)
        t' (orOwnRows userId docIds rows >>= fun rows =>
          outcome ((rows.take maxAttachmentsListed).mapM (attachmentOf py))).run := by
    intro t' rows hafter
    refine keeps_then (keeps_mono (orOwnRows_keeps hnamed rows) fun t'' result hafter' => ?_)
    have hafter := hafter.trans hafter'
    cases result with
    | error e => exact ⟨hafter, nofun⟩
    | ok rows =>
      refine keeps_lift ⟨hafter, fun attachments hattachments => ?_⟩
      rw [Fallible.mapM_length hattachments]
      exact List.length_take_le _ _
  unfold loadAttachmentManifest
  cases hgiven : Calendar.given chatId with
  | none => exact hlisted t [] (After.refl t)
  | some chatId =>
    refine keeps_attempt (keeps_mono (listChatDocuments_keeps (hchat.trans hgiven)) fun t' result hafter => ?_)
    exact hlisted t' _ hafter

/-! ## The loads -/

structure Loaded (py : Python) (pillow : Pillow) (u : Tables) (userId : String) (named : List String)
    (t : History Answers) (loaded : Prelude) : Prop where
  documents : Contained py u userId t named loaded.documents
  images : ImagesOf py pillow userId t named loaded.images
  attachments : loaded.attachments.length ≤ maxAttachmentsListed
  quiet : t.any isVision = false

theorem Contained.mono {documents : Text} (h : Contained py u userId t named documents) (m : History Answers) :
    Contained py u userId (t ++ m) named documents := by
  rcases h with h | ⟨nonce, parts, h, hparts⟩
  · exact Or.inl h
  · exact Or.inr ⟨nonce, parts, h, fun part hpart => (hparts part hpart).mono m⟩

theorem ImagesOf.mono {images : List Image} (h : ImagesOf py pillow userId t named images) (m : History Answers) :
    ImagesOf py pillow userId (t ++ m) named images :=
  ⟨h.1, fun image himage => ⟨(h.2 image himage).1.mono m, (h.2 image himage).2⟩⟩

theorem loads_keeps (docIds : List String) (chatId : Option String) :
    Keeps (userContract py pillow userId (turnErrand docIds chatId))
      (fun t result => ∀ loaded, result = .ok loaded → Loaded py pillow u userId (docIds.take maxDocsPerTurn) t loaded)
      [] (loads py pillow u userId docIds chatId).run := by
  have hnamed : docIds.take maxDocsPerTurn ⊆ (turnErrand docIds chatId).named := List.Subset.refl _
  refine keeps_then (keeps_mono (loadDocuments_keeps rfl hnamed) fun t result hresult => ?_)
  obtain ⟨hafter, documents, rfl, hdocuments⟩ := hresult
  refine keeps_then (keeps_mono (loadDocumentImages_keeps hnamed) fun t' result hresult => ?_)
  obtain ⟨hafter', himages⟩ := hresult
  cases result with
  | error e => exact nofun
  | ok images =>
    have hquiet := (hafter.trans hafter').quiet rfl
    obtain ⟨m, rfl, -⟩ := hafter'
    refine keeps_then (keeps_mono (loadAttachmentManifest_keeps hnamed rfl) fun t'' result hresult => ?_)
    obtain ⟨hafter'', hattachments⟩ := hresult
    have hquiet := hafter''.quiet hquiet
    obtain ⟨m', rfl, -⟩ := hafter''
    cases result with
    | error e => exact nofun
    | ok attachments =>
      intro loaded hloaded
      cases hloaded
      exact ⟨(hdocuments.mono m).mono m', (himages images rfl).mono m', hattachments attachments rfl, hquiet⟩

end

/-- Whatever the loads of a turn are answered: they ask for the caller's own, and load it. -/
theorem turn_attachments_owned {docIds : List String} {chatId : Option String} {t : History Answers}
    {rest : Prog Answers (Except Fault Prelude)} (h : Reaches (loads py pillow u userId docIds chatId).run t rest) :
    (∀ l q r m, t = l ++ ⟨q, r⟩ :: m → Allowed py pillow userId (turnErrand docIds chatId) l q) ∧
      ∀ loaded, rest = .done (.ok loaded) → Loaded py pillow u userId (docIds.take maxDocsPerTurn) t loaded := by
  obtain ⟨hkeeps, hhonoured⟩ := keeps_reaches (fun _ _ _ => trivial) (loads_keeps docIds chatId) h
  refine ⟨fun l q r m hsplit => (hhonoured l q r m hsplit).1, ?_⟩
  rintro loaded rfl
  exact hkeeps loaded rfl

def imageRows : Http := ⟨200, .ok (.arr [.obj [("id", .str "d1"), ("content_type", .str "image/png")]])⟩

theorem turn_attachments_owned_image :
    ∃ t loaded, Reaches (loads asciiPython plainPillow Tables.ascii "ann" ["d1"] none).run t (.done (.ok loaded)) ∧
      Loaded asciiPython plainPillow Tables.ascii "ann" ["d1"] t loaded ∧ loaded.images = [⟨"image/png", "Bw==", "d1"⟩] := by
  have h : Reaches (loads asciiPython plainPillow Tables.ascii "ann" ["d1"] none).run [] _ := .start
  have h := h.answered (q := Sum.inl (Gateway.Ask.getObject (documentKey "ann" "d1" "extracted.txt")))
    (.error (.other "NoSuchKey") : Except Fault Bytes)
  have h := h.answered (q := Sum.inl (Gateway.Ask.env "SUPABASE_URL")) (some "u" : Option String)
  have h := h.answered (q := Sum.inl (Gateway.Ask.secret "SUPABASE_SERVICE_ROLE_KEY"))
    (.ok (some "k") : Except Fault (Option String))
  have h := h.answered (q := Sum.inr (Ask.contentTypes "ann" ["d1"])) (.ok imageRows : Except Fault Http)
  have h := h.answered (q := Sum.inl (Gateway.Ask.getObject (documentKey "ann" "d1" "original")))
    (.ok [7] : Except Fault Bytes)
  have h := h.answered (q := Sum.inl (Gateway.Ask.env "SUPABASE_URL")) (none : Option String)
  have h := h.answered (q := Sum.inl (Gateway.Ask.secret "SUPABASE_SERVICE_ROLE_KEY"))
    (.ok none : Except Fault (Option String))
  exact ⟨_, _, h, (turn_attachments_owned h).2 _ rfl, rfl⟩

/-! ## Looking again -/

/-- The model answered a question about the image. -/
def Seen (t : History Answers) (image : Image) (question : String) (answer : Text) : Prop :=
  ∃ model text, (⟨.inr (.vision model image question), .ok text⟩ : Exchange Answers) ∈ t ∧
    answer = (PyText.strip (text.getD "").toList).take maxAnswerChars ∧ answer ≠ []

/-- What is read is the model's answer about an image of the user's that was named. -/
def ReadsOwn (py : Python) (pillow : Pillow) (userId : String) (args : Args) (t : History Answers) (reading : Reading) :
    Prop :=
  ∀ nonce answer, reading = .read nonce answer → ∃ image question, Opened py pillow userId t image ∧
    image.docId ∈ namedBy args ∧ argOf args "question" = .ok question ∧ Seen t image question answer

section
variable {errand : Errand} {t : History Answers}

theorem visionAnswer_keeps {image : Image} (hopened : Opened py pillow userId t image) (hnamed : image.docId ∈ errand.named)
    (hquiet : t.any isVision = false) {question : String} (hquestion : errand.question = some question) :
    Keeps (userContract py pillow userId errand) (fun t' result => t <+: t' ∧ ∀ answer, result = .ok (.ok answer) →
        Seen t' image question answer)
      t (visionAnswer image question).run := by
  refine keeps_gateway (by simp [Allowed, settings]) fun key => ?_
  have hafter := (After.refl t).snoc (e := ⟨.inl (.env "GEMINI_API_KEY"), key⟩) rfl
  split
  · exact ⟨hafter.prefix_of, nofun⟩
  · refine keeps_asked (Option.isSome_of_eq_some hquestion) fun (sdk : Bool) _ => ?_
    have hafter := hafter.snoc (e := ⟨.inr .visionSdk, sdk⟩) rfl
    cases sdk with
    | false => exact ⟨hafter.prefix_of, nofun⟩
    | true =>
      refine keeps_gateway (by simp [Allowed, settings]) fun model => ?_
      have hafter := hafter.snoc (e := ⟨.inl (.env "REREAD_VISION_MODEL"), model⟩) rfl
      refine keeps_asked ⟨hquestion, hopened.after hafter, hnamed, hafter.quiet hquiet⟩ fun answer _ => ?_
      have hgrown := hafter.prefix_of.trans
        (List.prefix_append _ [⟨.inr (.vision ((Calendar.given model).getD "gemini-2.5-flash") image question), answer⟩])
      refine keeps_given (fun e _ => ⟨hgrown, nofun⟩) fun text htext => ?_
      dsimp only
      split
      · exact ⟨hgrown, nofun⟩
      · rename_i hne
        refine ⟨hgrown, fun answer' hanswer => ?_⟩
        cases hanswer
        cases htext
        refine ⟨_, text, List.mem_append_right _ (List.mem_singleton.mpr rfl), rfl, fun hnil => hne ?_⟩
        rcases List.take_eq_nil_iff.mp hnil with hzero | hnil
        · cases hzero
        · exact hnil

theorem readsOwn_said {args : Args} {text : String} (reading : Reading)
    (h : (.ok (.said text) : Except Fault Reading) = .ok reading) : ReadsOwn py pillow userId args t reading := by
  cases h
  rintro nonce answer h
  cases h

theorem rereadAttachment_keeps (args : Args) :
    Keeps (userContract py pillow userId (rereadErrand args))
      (fun t result => ∀ reading, result = .ok reading → ReadsOwn py pillow userId args t reading)
      [] (rereadAttachment py pillow userId args).run := by
  refine keeps_given (fun e _ => nofun) fun docId hdoc => ?_
  refine keeps_given (fun e _ => nofun) fun question hquestion => ?_
  have hnamed : (rereadErrand args).named = [docId] := by rw [rereadErrand, namedBy, hdoc]; rfl
  have hput : (rereadErrand args).question = some question := by rw [rereadErrand, hquestion]; rfl
  split
  · exact readsOwn_said
  · split
    · exact readsOwn_said
    · refine keeps_then (keeps_mono (fetchContentTypes_keeps (by rw [hnamed]; exact List.Subset.refl _))
        fun t result hresult => ?_)
      obtain ⟨hafter, htypes⟩ := hresult
      cases result with
      | error e => exact nofun
      | ok types =>
        dsimp only
        cases hfind : types.find docId with
        | none => exact readsOwn_said
        | some contentType =>
          refine keeps_given (fun e _ => nofun) fun media hmedia => ?_
          split
          · exact readsOwn_said
          · rename_i himage
            have hlisted : Listed py userId t docId :=
              ⟨contentType, media, htypes types rfl docId contentType hfind, hmedia, not_not.mp himage⟩
            have hmem : docId ∈ (rereadErrand args).named := by rw [hnamed]; exact List.mem_singleton.mpr rfl
            refine keeps_then (keeps_mono (prepareFromStorage_keeps hmem hlisted) fun t' result hresult => ?_)
            obtain ⟨hafter', image?, rfl, hopened⟩ := hresult
            have hquiet := (hafter.trans hafter').quiet rfl
            cases image? with
            | none => exact readsOwn_said
            | some image =>
              obtain ⟨hopened, hid⟩ := hopened image rfl
              have hmem : image.docId ∈ (rereadErrand args).named := hid ▸ hmem
              refine keeps_attempt (keeps_mono (visionAnswer_keeps hopened hmem hquiet hput)
                fun t'' result hresult => ?_)
              obtain ⟨⟨m, rfl⟩, hseen⟩ := hresult
              cases result with
              | error e => exact readsOwn_said
              | ok answer =>
                cases answer with
                | error text => exact readsOwn_said
                | ok answer =>
                  refine keeps_asked trivial fun nonce _ => ?_
                  obtain ⟨model, text, hvision, hanswer⟩ := hseen answer rfl
                  rintro reading ⟨rfl⟩ nonce' answer' ⟨rfl⟩
                  exact ⟨image, question, (hopened.mono m).mono _, hmem, hquestion, model, text,
                    List.mem_append_left _ hvision, hanswer⟩

theorem runAttachmentTool_keeps (args : Args) :
    Keeps (userContract py pillow userId (rereadErrand args))
      (fun t result => ∀ reading, result = .ok reading → ReadsOwn py pillow userId args t reading)
      [] (runAttachmentTool py pillow userId args).run := by
  unfold runAttachmentTool
  split
  · exact readsOwn_said
  · refine keeps_attempt (keeps_mono (rereadAttachment_keeps args) fun t result hresult => ?_)
    cases result with
    | error e => exact readsOwn_said
    | ok reading => exact hresult

end

/-- Whatever a call of the tool is answered: it asks for the caller's own, of one model at most,
    and what it reads is the answer about the caller's image. -/
theorem reread_owned {args : Args} {t : History Answers} {rest : Prog Answers (Except Fault Reading)}
    (h : Reaches (runAttachmentTool py pillow userId args).run t rest) :
    (∀ l q r m, t = l ++ ⟨q, r⟩ :: m → Allowed py pillow userId (rereadErrand args) l q) ∧
      ∀ reading, rest = .done (.ok reading) → ReadsOwn py pillow userId args t reading := by
  obtain ⟨hkeeps, hhonoured⟩ := keeps_reaches (fun _ _ _ => trivial) (runAttachmentTool_keeps args) h
  refine ⟨fun l q r m hsplit => (hhonoured l q r m hsplit).1, ?_⟩
  rintro reading rfl
  exact hkeeps reading rfl

theorem reread_owned_image :
    ∃ t nonce, Reaches (runAttachmentTool asciiPython plainPillow "ann"
        [("doc_id", .str "d1"), ("question", .str "who?")]).run t (.done (.ok (.read nonce "me".toList))) ∧
      ReadsOwn asciiPython plainPillow "ann" [("doc_id", .str "d1"), ("question", .str "who?")] t
        (.read nonce "me".toList) := by
  have h : Reaches (runAttachmentTool asciiPython plainPillow "ann"
    [("doc_id", .str "d1"), ("question", .str "who?")]).run [] _ := .start
  have h := h.answered (q := Sum.inl (Gateway.Ask.env "SUPABASE_URL")) (some "u" : Option String)
  have h := h.answered (q := Sum.inl (Gateway.Ask.secret "SUPABASE_SERVICE_ROLE_KEY"))
    (.ok (some "k") : Except Fault (Option String))
  have h := h.answered (q := Sum.inr (Ask.contentTypes "ann" ["d1"])) (.ok imageRows : Except Fault Http)
  have h := h.answered (q := Sum.inl (Gateway.Ask.getObject (documentKey "ann" "d1" "original")))
    (.ok [7] : Except Fault Bytes)
  have h := h.answered (q := Sum.inl (Gateway.Ask.env "GEMINI_API_KEY")) (some "k" : Option String)
  have h := h.answered (q := Sum.inr Ask.visionSdk) true
  have h := h.answered (q := Sum.inl (Gateway.Ask.env "REREAD_VISION_MODEL")) (none : Option String)
  have h := h.answered (q := Sum.inr (Ask.vision "gemini-2.5-flash" ⟨"image/png", "Bw==", "d1"⟩ "who?"))
    (.ok (some "me") : Except Fault (Option String))
  have h := h.answered (q := Sum.inr Ask.nonce) splicedNonce
  exact ⟨_, splicedNonce, h, (reread_owned h).2 _ rfl⟩

end CoreHeartbeat.Attachments
