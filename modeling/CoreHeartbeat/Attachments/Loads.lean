/-
  CoreHeartbeat.Attachments.Loads — what the loads of a turn come to.

  `Ownership` says whom a turn may ask about; here it is what comes of the answers. The loads
  are programs of requests, and the bucket, the table of documents, the secrets and Pillow may
  each answer or fail as they like, except where a theorem names what it counts on:
  - `stillContract`: the bucket answers every object as it has it while the turn reads. The
    documents are then a function of the stored texts, and `Untrusted.Documents` is about that
    function (`storedTexts` stands for its `Fetch`).
  - `TextAnswer`: the content types that the table answers are texts or null. The column is of
    that type, but nothing in the code checks it, and a number there leaves the loads as an
    exception of `split`.

  Proved:
  - `loadDocuments_refines`: while the bucket stands still, the documents of a turn are those of
    `Untrusted.loadDocuments`, for the texts that are stored. What is proved of the fence, of
    its budget and of its separators is so proved of what a turn puts into its prompt.
  - `loads_return`: whatever fails, a turn starts, as long as the content types in the table are
    texts: a bucket that refuses is a document without a text, a table that refuses is a turn
    without images, an original that Pillow cannot open is left out.
  - `runAttachmentTool_returns`: the tool never raises; what goes wrong is told to the model.
  - `loads_return_offline`: a turn with an image, with nothing to be reached.
-/

import CoreHeartbeat.Attachments.Ownership

namespace CoreHeartbeat.Attachments

open Dialogue
open CoreHeartbeat.Graph (Json Args Image)
open CoreHeartbeat.Knowledge (truthy orElse)
open CoreHeartbeat.Services (Fault Http field)
open CoreHeartbeat.Gateway (Bytes documentKey)
open CoreHeartbeat.Untrusted (Tables Fetch partsOf docCharBudget maxDocsPerTurn)

variable {py : Python} {pillow : Pillow} {u : Tables} {userId : String} {t : History Answers}

/-! ## A bucket that stands still -/

section
variable {bucket : String → Except Fault Bytes}

/-- Objects are answered as the bucket has them. -/
def stillContract (bucket : String → Except Fault Bytes) : Contract Answers where
  asks _ _ := True
  answers _ q r := match q, r with
    | .inl (.getObject key), answer => answer = bucket key
    | _, _ => True

def storedTexts (py : Python) (userId : String) (bucket : String → Except Fault Bytes) : Fetch := fun docId =>
  (bucket (documentKey userId docId "extracted.txt")).toOption.map fun data => (py.decode data).toList

theorem fetchExtracted_still (docId : String) :
    Keeps (stillContract bucket) (fun _ result => ∃ text, result = .ok text ∧
        text.toList = (storedTexts py userId bucket).text docId)
      t (fetchExtracted py userId docId).run := by
  refine keeps_attempt ⟨trivial, fun answer hanswer => ?_⟩
  have hstored : storedTexts py userId bucket docId =
      (show Except Fault Bytes from answer).toOption.map fun data => (py.decode data).toList := by
    rw [show answer = bucket (documentKey userId docId "extracted.txt") from hanswer]
    rfl
  cases answer with
  | error e => exact ⟨"", rfl, by rw [Fetch.text, hstored]; rfl⟩
  | ok data => exact ⟨py.decode data, rfl, by rw [Fetch.text, hstored]; rfl⟩

theorem loadParts_refines (docIds : List String) (remaining : Nat) :
    Keeps (stillContract bucket) (fun _ result => result = .ok (partsOf (storedTexts py userId bucket) remaining docIds))
      t (loadParts py userId remaining docIds).run := by
  induction docIds generalizing t remaining with
  | nil => exact rfl
  | cons docId docIds ih =>
    refine keeps_attempt (keeps_mono (fetchExtracted_still docId) fun t' result hresult => ?_)
    obtain ⟨text, rfl, htext⟩ := hresult
    dsimp only [Except.toOption, Option.getD_some]
    rw [partsOf, ← htext]
    split
    · exact ih remaining
    · dsimp only
      split
      · exact rfl
      · refine keeps_then (keeps_mono (ih _) fun t'' result hparts => ?_)
        rw [hparts]
        exact rfl

/-- The loads of documents compute what `Untrusted.loadDocuments` is of the stored texts. -/
theorem loadDocuments_refines (docIds : List String) :
    Keeps (stillContract bucket) (fun _ result => result = .ok [] ∧ (∀ nonce,
          Untrusted.loadDocuments u nonce (storedTexts py userId bucket) docIds = []) ∨
        ∃ nonce, result = .ok (Untrusted.loadDocuments u nonce (storedTexts py userId bucket) docIds))
      t (loadDocuments py u userId docIds).run := by
  unfold loadDocuments
  split
  · rename_i hnone
    subst hnone
    exact Or.inl ⟨rfl, fun nonce => rfl⟩
  · refine keeps_then (keeps_mono (loadParts_refines _ _) fun t' result hparts => ?_)
    rw [hparts]
    dsimp only
    split
    · rename_i hnone
      exact Or.inl ⟨rfl, fun nonce => by rw [Untrusted.loadDocuments, if_pos hnone]⟩
    · rename_i hsome
      refine keeps_asked trivial fun nonce _ => ?_
      refine Or.inr ⟨nonce, congrArg Except.ok ?_⟩
      exact (if_neg hsome).symm

end

/-! ## Content types -/

def IsText (v : Json) : Prop := v = .null ∨ ∃ s, v = .str s

theorem orElse_text {v : Json} (h : IsText v) : ∃ s, orElse v (.str "") = .str s := by
  rcases h with rfl | ⟨s, rfl⟩
  · exact ⟨"", rfl⟩
  · unfold orElse
    split
    · exact ⟨s, rfl⟩
    · exact ⟨"", rfl⟩

theorem mediaOf_text (py : Python) {v : Json} (h : IsText v) : ∃ media, mediaOf py v = .ok media := by
  obtain ⟨s, hs⟩ := orElse_text h
  unfold mediaOf
  rw [hs]
  exact ⟨_, rfl⟩

/-- The content types of a response are texts. -/
def TextColumn (r : Http) : Prop :=
  ∀ rows, (rowsOf r >>= each) = .ok rows → ∀ row ∈ rows, ∀ v, field row "content_type" = .ok v → IsText v

/-- The table of documents answers content types that are texts. -/
def TextAnswer : (q : Gateway.Ask ⊕ Ask) → Answers q → Prop
  | .inr (.contentTypes _ _), answer => ∀ r, answer = .ok r → TextColumn r
  | .inr (.chatDocuments _ _), answer => ∀ r, answer = .ok r → TextColumn r
  | _, _ => True

def textContract : Contract Answers where
  asks _ _ := True
  answers _ q r := TextAnswer q r

def TextTypes (types : Types) : Prop := ∀ entry ∈ types, IsText entry.2

theorem TextTypes.set {types : Types} (h : TextTypes types) (id : Json) {v : Json} (hv : IsText v) :
    TextTypes (types.set id v) := by
  induction types with
  | nil =>
    intro entry hentry
    rw [List.mem_singleton.mp hentry]
    exact hv
  | cons first types ih =>
    obtain ⟨hfirst, hrest⟩ := List.forall_mem_cons.mp h
    unfold Types.set
    split
    · exact List.forall_mem_cons.mpr ⟨hv, hrest⟩
    · exact List.forall_mem_cons.mpr ⟨hfirst, ih hrest⟩

theorem TextTypes.find {types : Types} (h : TextTypes types) (docId : String) : IsText ((types.find docId).getD .null) := by
  unfold Types.find
  cases hfind : List.find? (fun entry => sameKey entry.1 (.str docId)) types with
  | none => exact Or.inl rfl
  | some entry => exact h entry (List.mem_of_find?_eq_some hfind)

theorem typesOf_text {types types' : Types} (htypes : TextTypes types) {rows : List Json}
    (hrows : ∀ row ∈ rows, ∀ v, field row "content_type" = .ok v → IsText v) (h : typesOf types rows = .ok types') :
    TextTypes types' := by
  induction rows generalizing types with
  | nil =>
    cases h
    exact htypes
  | cons row rows ih =>
    obtain ⟨hrow, hrest⟩ := List.forall_mem_cons.mp hrows
    unfold typesOf at h
    obtain ⟨id, -, h⟩ := Fallible.bind_ok.mp h
    split at h
    · obtain ⟨v, hv, h⟩ := Fallible.bind_ok.mp h
      split at h
      · exact ih (htypes.set id (Or.inr (orElse_text (hrow v hv)))) hrest h
      · cases h
    · exact ih htypes hrest h

theorem fetchContentTypes_text (docIds : List String) :
    Keeps textContract (fun _ result => ∀ types, result = .ok types → TextTypes types) t
      (fetchContentTypes userId docIds).run := by
  have hempty : TextTypes [] := List.forall_mem_nil _
  have hnone : ∀ types : Types, (.ok [] : Except Fault Types) = .ok types → TextTypes types := by
    rintro types ⟨rfl⟩
    exact hempty
  unfold fetchContentTypes
  split
  · exact hnone
  · refine keeps_fromTable (keeps_any (fun _ _ => trivial) _) (fun _ _ _ => nofun) (fun _ _ => hnone) (fun _ _ => trivial) ?_
    intro t' answer _ hanswer
    refine ⟨hnone, fun types htypes => ?_⟩
    obtain ⟨rows, hread, htypes⟩ := Fallible.bind_ok.mp htypes
    obtain ⟨r, hr, hread⟩ := Fallible.bind_ok.mp hread
    obtain ⟨list, hlist, htypes⟩ := Fallible.bind_ok.mp htypes
    have hcolumn : TextColumn r := hanswer r hr
    have hrows := hcolumn list (Fallible.bind_ok.mpr ⟨rows, hread, hlist⟩)
    rintro types' ⟨rfl⟩
    exact typesOf_text hempty hrows htypes

/-! ## The loads return -/

theorem prepareFromStorage_returns (docId : String) :
    Keeps textContract (fun _ result => ∃ found, result = .ok found) t (prepareFromStorage pillow userId docId).run := by
  refine keeps_attempt (keeps_mono (keeps_any (fun _ _ => trivial) _) fun t' result _ => ?_)
  cases result with
  | error e => exact ⟨none, rfl⟩
  | ok raw => exact ⟨prepared pillow docId raw, rfl⟩

theorem loadImages_return {types : Types} (htypes : TextTypes types) (docIds : List String) (found : Nat) :
    Keeps textContract (fun _ result => ∃ images, result = .ok images) t
      (loadImages py pillow userId types found docIds).run := by
  induction docIds generalizing t found with
  | nil => exact ⟨[], rfl⟩
  | cons docId docIds ih =>
    unfold loadImages
    split
    · exact ⟨[], rfl⟩
    · obtain ⟨media, hmedia⟩ := mediaOf_text py (htypes.find docId)
      rw [hmedia]
      refine keeps_given (fun e he => by cases he) fun media' hsame => ?_
      cases hsame
      split
      · exact ih found
      · refine keeps_then (keeps_mono (prepareFromStorage_returns docId) fun t' result hresult => ?_)
        obtain ⟨image?, rfl⟩ := hresult
        cases image? with
        | none => exact ih found
        | some image =>
          refine keeps_then (keeps_mono (ih (found + 1)) fun t'' result hresult => ?_)
          obtain ⟨images, rfl⟩ := hresult
          exact ⟨image :: images, rfl⟩

theorem loadDocumentImages_return (docIds : List String) :
    Keeps textContract (fun _ result => ∃ images, result = .ok images) t
      (loadDocumentImages py pillow userId docIds).run := by
  unfold loadDocumentImages
  split
  · exact ⟨[], rfl⟩
  · refine keeps_attempt (keeps_mono (fetchContentTypes_text _) fun t' result htypes => ?_)
    cases result with
    | error e => exact ⟨[], rfl⟩
    | ok types => exact loadImages_return (htypes types rfl) _ 0

theorem loadParts_return (docIds : List String) (remaining : Nat) :
    Keeps textContract (fun _ result => ∃ parts, result = .ok parts) t (loadParts py userId remaining docIds).run := by
  induction docIds generalizing t remaining with
  | nil => exact ⟨[], rfl⟩
  | cons docId docIds ih =>
    refine keeps_attempt (keeps_mono (keeps_any (fun _ _ => trivial) _) fun t' result _ => ?_)
    dsimp only
    split
    · exact ih remaining
    · split
      · exact ⟨_, rfl⟩
      · refine keeps_then (keeps_mono (ih _) fun t'' result hresult => ?_)
        obtain ⟨parts, rfl⟩ := hresult
        exact ⟨_, rfl⟩

theorem loadDocuments_return (docIds : List String) :
    Keeps textContract (fun _ result => ∃ documents, result = .ok documents) t (loadDocuments py u userId docIds).run := by
  unfold loadDocuments
  split
  · exact ⟨[], rfl⟩
  · refine keeps_then (keeps_mono (loadParts_return _ _) fun t' result hresult => ?_)
    obtain ⟨parts, rfl⟩ := hresult
    dsimp only
    split
    · exact ⟨[], rfl⟩
    · exact keeps_asked trivial fun nonce _ => ⟨_, rfl⟩

def Listable (py : Python) (row : Json) : Prop := ∃ attachment, attachmentOf py row = .ok attachment

theorem listable {fields : List (String × Json)} (h : IsText ((fields.lookup "content_type").getD .null)) :
    Listable py (.obj fields) := by
  obtain ⟨media, hmedia⟩ := mediaOf_text py h
  exact Fallible.bind_returns rfl (Fallible.bind_returns hmedia ⟨_, rfl⟩)

theorem mem_withId {rows rows' : List Json} (h : withId rows = .ok rows') {row : Json} (hrow : row ∈ rows') :
    row ∈ rows ∧ ∃ fields, row = .obj fields := by
  induction rows generalizing rows' with
  | nil =>
    cases h
    cases hrow
  | cons first rows ih =>
    obtain ⟨id, hid, h⟩ := Fallible.bind_ok.mp h
    obtain ⟨rest, hrest, h⟩ := Fallible.bind_ok.mp h
    have hlater : row ∈ rest → row ∈ first :: rows ∧ ∃ fields, row = .obj fields := by
      intro hmem
      obtain ⟨hmem, hfields⟩ := ih hrest hmem
      exact ⟨List.mem_cons_of_mem _ hmem, hfields⟩
    cases h
    split at hrow
    · rcases List.mem_cons.mp hrow with rfl | hmem
      · refine ⟨List.mem_cons_self, ?_⟩
        cases row with
        | obj fields => exact ⟨fields, rfl⟩
        | _ => cases hid
      · exact hlater hmem
    · exact hlater hrow

theorem listChatDocuments_text (py : Python) (chatId : String) :
    Keeps textContract (fun _ result => ∀ rows, result = .ok rows → ∀ row ∈ rows, Listable py row) t
      (listChatDocuments userId chatId).run := by
  have hnone : ∀ rows : List Json, (.ok [] : Except Fault (List Json)) = .ok rows → ∀ row ∈ rows, Listable py row := by
    rintro rows ⟨rfl⟩
    nofun
  unfold listChatDocuments
  split
  · exact hnone
  · refine keeps_fromTable (keeps_any (fun _ _ => trivial) _) (fun _ _ _ => nofun) (fun _ _ => hnone) (fun _ _ => trivial) ?_
    intro t' answer _ hanswer
    refine ⟨hnone, fun rows hrows => ?_⟩
    obtain ⟨list, hlist, hrows⟩ := Fallible.bind_ok.mp hrows
    obtain ⟨value, hvalue, hlist⟩ := Fallible.bind_ok.mp hlist
    obtain ⟨r, hr, hvalue⟩ := Fallible.bind_ok.mp hvalue
    have hcolumn : TextColumn r := hanswer r hr
    rintro rows' ⟨rfl⟩ row hrow
    obtain ⟨hmem, fields, rfl⟩ := mem_withId hrows hrow
    exact listable (hcolumn list (Fallible.bind_ok.mpr ⟨value, hvalue, hlist⟩) _ hmem _ rfl)

theorem orOwnRows_text (docIds : List String) {rows : List Json} (hrows : ∀ row ∈ rows, Listable py row) :
    Keeps textContract (fun _ result => ∃ rows, result = .ok rows ∧ ∀ row ∈ rows, Listable py row) t
      (orOwnRows userId docIds rows).run := by
  unfold orOwnRows
  split
  · refine keeps_attempt (keeps_mono (fetchContentTypes_text _) fun t' result htypes => ⟨_, rfl, fun row hrow => ?_⟩)
    have htext : TextTypes (result.toOption.getD []) := by
      cases result with
      | error e => exact List.forall_mem_nil _
      | ok types => exact htypes types rfl
    obtain ⟨entry, hentry, rfl⟩ := List.mem_map.mp hrow
    exact listable (htext entry hentry)
  · exact ⟨rows, rfl, hrows⟩

theorem loadAttachmentManifest_returns (docIds : List String) (chatId : Option String) :
    Keeps textContract (fun _ result => ∃ attachments, result = .ok attachments) t
      (loadAttachmentManifest py userId docIds chatId).run := by
  have hlisted : ∀ {t' : History Answers} {rows : List Json}, (∀ row ∈ rows, Listable py row) →
      Keeps textContract (fun _ result => ∃ attachments, result = .ok attachments) t'
        (orOwnRows userId docIds rows >>= fun rows =>
          outcome ((rows.take maxAttachmentsListed).mapM (attachmentOf py))).run := by
    intro t' rows hrows
    refine keeps_then (keeps_mono (orOwnRows_text docIds hrows) fun t'' result hresult => ?_)
    obtain ⟨rows', rfl, hrows'⟩ := hresult
    refine keeps_lift ?_
    exact Fallible.mapM_comesThrough.mpr fun row hrow => hrows' row (List.mem_of_mem_take hrow)
  unfold loadAttachmentManifest
  cases Calendar.given chatId with
  | none => exact hlisted (List.forall_mem_nil _)
  | some chatId =>
    refine keeps_attempt (keeps_mono (listChatDocuments_text py chatId) fun t' result hresult => hlisted ?_)
    cases result with
    | error e => exact List.forall_mem_nil _
    | ok rows => exact hresult rows rfl

/-- A turn starts, whatever fails before. -/
theorem loads_return {docIds : List String} {chatId : Option String} {result : Except Fault Prelude}
    (h : Reaches (loads py pillow u userId docIds chatId).run t (.done result)) (htext : ∀ e ∈ t, TextAnswer e.asked e.answer) :
    ∃ loaded, result = .ok loaded := by
  have hkeeps : Keeps textContract (fun _ result => ∃ loaded, result = .ok loaded) []
      (loads py pillow u userId docIds chatId).run := by
    unfold loads
    refine keeps_then (keeps_mono (loadDocuments_return docIds) fun t result hresult => ?_)
    obtain ⟨documents, rfl⟩ := hresult
    refine keeps_then (keeps_mono (loadDocumentImages_return docIds) fun t result hresult => ?_)
    obtain ⟨images, rfl⟩ := hresult
    refine keeps_then (keeps_mono (loadAttachmentManifest_returns docIds chatId) fun t result hresult => ?_)
    obtain ⟨attachments, rfl⟩ := hresult
    exact ⟨_, rfl⟩
  refine (keeps_within hkeeps h fun l q r m hsplit => htext ⟨q, r⟩ ?_).1
  rw [hsplit]
  exact List.mem_append_right _ List.mem_cons_self

theorem loads_return_offline :
    ∃ t result, Reaches (loads asciiPython plainPillow Tables.ascii "ann" ["d1"] none).run t (.done result) ∧
      ∃ loaded, result = .ok loaded := by
  have h : Reaches (loads asciiPython plainPillow Tables.ascii "ann" ["d1"] none).run [] _ := .start
  have h := h.answered (q := Sum.inl (Gateway.Ask.getObject (documentKey "ann" "d1" "extracted.txt")))
    (.error (.transport "connect") : Except Fault Bytes)
  have h := h.answered (q := Sum.inl (Gateway.Ask.env "SUPABASE_URL")) (some "u" : Option String)
  have h := h.answered (q := Sum.inl (Gateway.Ask.secret "SUPABASE_SERVICE_ROLE_KEY"))
    (.ok (some "k") : Except Fault (Option String))
  have h := h.answered (q := Sum.inr (Ask.contentTypes "ann" ["d1"])) (.error (.transport "connect") : Except Fault Http)
  have h := h.answered (q := Sum.inl (Gateway.Ask.env "SUPABASE_URL")) (some "u" : Option String)
  have h := h.answered (q := Sum.inl (Gateway.Ask.secret "SUPABASE_SERVICE_ROLE_KEY"))
    (.error (.other "ClientError") : Except Fault (Option String))
  refine ⟨_, _, h, loads_return h fun e he => ?_⟩
  simp only [List.nil_append, List.cons_append, List.mem_cons, List.not_mem_nil, or_false] at he
  rcases he with rfl | rfl | rfl | rfl | rfl | rfl
  case inr.inr.inr.inl => exact nofun
  all_goals exact trivial

/-- The tool never raises. -/
theorem runAttachmentTool_returns {args : Args} {result : Except Fault Reading}
    (h : Reaches (runAttachmentTool py pillow userId args).run t (.done result)) : ∃ reading, result = .ok reading := by
  have hkeeps : Keeps Contract.free (fun _ result => ∃ reading, result = .ok reading) []
      (runAttachmentTool py pillow userId args).run := by
    unfold runAttachmentTool
    split
    · exact ⟨_, rfl⟩
    · refine keeps_attempt (keeps_mono (keeps_any (fun _ _ => trivial) _) fun t' result _ => ?_)
      cases result with
      | error exc => exact ⟨_, rfl⟩
      | ok reading => exact ⟨reading, rfl⟩
  exact (keeps_reaches (fun _ _ _ => trivial) hkeeps h).1

end CoreHeartbeat.Attachments
