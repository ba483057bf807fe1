/-
  CoreHeartbeat.Knowledge.Tools — the three tools of the knowledge chat (`_tool_search`,
  `_tool_read`, `_tool_list`, `run_tool` in `knowledge_chat.py`).

  A tool asks the KB service first and then numbers what it was answered, without waiting in
  between. The service may answer anything: any JSON, `KbNotFound`, another exception. What a
  tool raises becomes text for the model (`run_tool`), and the passages numbered up to there
  stay.

  A search names documents or none. One search is made for each named document, and the results
  are merged in turn; inside named documents there is no relevance floor, and outside weak
  matches are cut. A read names one document by a title that may be inexact; the service
  resolves it and answers with alternatives. Both hand their chunks to one loop (`addChunks`),
  which numbers them, renders a line for each, and stops when the budget is spent. `Settings`
  has the environment variables of the module and what it takes from Python: the rendering of a
  value as text, and the comparison of floats.

  Proved:
  - `callTool_inv`: what `add` preserves, a tool call preserves.
  - `runTool_grows`: so it only appends passages to the turn's context.
-/

import CoreHeartbeat.Knowledge.Passages
import Mathlib.Data.List.Sort

namespace CoreHeartbeat.Knowledge

open CoreHeartbeat.Graph (Json Args)
open TurnContext (Row)

/-! ## Settings -/

def scopedWeakMax : Nat := 6
def libraryTitles : Nat := 200
def excerptChars : Int := 400
def memoryAnswerChars : Nat := 80
def maxCallsPerRound : Nat := 6

structure Settings where
  maxRounds : Int := 4
  searchTopK : Int := 8
  passageChars : Int := 1500
  readMaxChunks : Int := 12
  readPassageChars : Int := 2000
  contextChars : Int := 40000
  historyTurns : Int := 20
  /-- `float(score) < MIN_SCORE`, for a number. -/
  belowMinScore : Json → Except Fault Bool
  repr : Json → String
  unicode : PyText.Unicode

def Settings.str (st : Settings) : Json → String
  | .str s => s
  | v => st.repr v

/-! ## The KB service -/

inductive KbFault where
  /-- `KbNotFound` with its payload. -/
  | notFound (payload : Json)
  | raised (fault : Fault)

structure Kb where
  /-- By the number of the search among those made at once. -/
  search : Nat → (query : String) → (topK : Int) → (documentTitles : Option (List String)) → Except KbFault Json
  /-- In which order these searches end. -/
  searchRank : Nat → Nat
  readDocument : (document : String) → (focus : Option String) → (maxChunks : Int) → Except KbFault Json
  listDocuments : Except Fault Json

/-- The order in which `n` concurrent tasks end. -/
def completionOrder (rank : Nat → Nat) (n : Nat) : List Nat := (List.range n).insertionSort fun i j => rank i ≤ rank j

def failure {ε α : Type} : Except ε α → Option ε
  | .error e => some e
  | .ok _ => none

/-- `asyncio.gather`: the results in order, or the failure that comes first. -/
def gathered {ε α : Type} (rank : Nat → Nat) (results : List (Except ε α)) : Except ε (List α) :=
  match (completionOrder rank results.length).findSome? fun i => results[i]?.bind failure with
  | some e => .error e
  | none => results.mapM id

/-! ## `_tool_search` -/

def notFoundText (payload : Json) (what : String) : Except Fault String := do
  let nested ← (← itemsOf payload "unresolved").mapM fun u => do titlesOf (← itemsOf u "alternatives")
  let direct ← titlesOf (← itemsOf payload "alternatives")
  let alts := nested.flatten ++ direct
  let msg := "No document in the knowledge base matches " ++ what ++ "."
  let closest ←
    if alts.isEmpty then pure ""
    else if alts.all isStr then pure (" Closest titles: " ++ "; ".intercalate (textsOf alts).eraseDups ++ ".")
    else throw "TypeError"
  return msg ++ closest ++ " Check the document list and try again with a title from it."

/-- The chunks of the lists in turn: the first of each, the second of each, … -/
def interleaved (lists : List Json) : Except Fault (List Json) := do
  let lens ← lists.mapM lenOf
  let rounds ← (List.range (lens.foldl max 0)).mapM fun i =>
    ((lists.zip lens).filter fun l => i < l.2).mapM fun l => itemAt l.1 i
  return rounds.flatten

/-- What is searched for: one search for each named document. -/
def searchPayload (st : Settings) (kb : Kb) (query : String) (documents : List String) : Except KbFault Json :=
  if 1 < documents.length then do
    let per := max 3 (st.searchTopK / documents.length)
    let results ← gathered kb.searchRank (documents.zipIdx.map fun d => kb.search d.2 query per (some [d.1]))
    let merged := do
      let lists ← results.mapM fun r => return orElse (← get r "chunks") (.arr [])
      interleaved lists
    return .obj [("chunks", .arr (← merged.mapError .raised))]
  else kb.search 0 query st.searchTopK (if documents = [] then none else some documents)

def weak (st : Settings) (c : Json) : Except Fault Bool := do
  let score ← get c "score"
  if isNumber score then st.belowMinScore score else return false

/-- The chunks that are kept; inside named documents there is no relevance floor. -/
def keptChunks (st : Settings) (documents : List String) (payload : Json) : Except Fault (List Json) := do
  let allChunks ← itemsOf payload "chunks"
  if documents = [] then allChunks.filterM fun c => return !(← weak st c)
  else if ← allChunks.allM (weak st) then return allChunks.take scopedWeakMax
  else return allChunks

def summaryLines (ctx : TurnContext) (chunks : List Json) : Except Fault (List String) := do
  let titles ← chunks.mapM fun c => do
    let title ← get c "title"
    if truthy title && !hashable title then throw "TypeError"
    return title
  let lines ← (textsOf (titles.filter truthy)).eraseDups.mapM fun title => do
    let summary := ctx.summary title
    if truthy summary then
      return ["SUMMARY of " ++ title ++ " (not citable — search it with more specific terms " ++
        "to find the passages behind it): " ++ (← clip summary 400)]
    else return []
  return lines.flatten

/-- The first ten characters of `str(v or "")`. -/
def day (st : Settings) (v : Json) : String := String.ofList ((st.str (orElse v (.str ""))).toList.take 10)

def orUntitled (v : Json) : Except Fault String := stripped (orElse v (.str "Untitled"))

def searchRow (st : Settings) (c : Json) : Except Fault (Row × (Passage → String)) := do
  let content ← get c "content"
  let body := orElse (← get c "parent_content") (orElse content (.str ""))
  let key := "chunk:" ++ st.str (← get c "id")
  let documentId ← get c "document_id"
  let title ← orUntitled (← get c "title")
  let chunkIndex ← get c "chunk_index"
  let text ← clip body st.passageChars
  let isWeak ← weak st c
  let date := day st (← get c "document_created_at")
  let tag := if isWeak then " — weak match, check it actually answers the question" else ""
  return (⟨key, documentId, title, chunkIndex, text, orElse content body, isWeak⟩,
    fun p => "[" ++ toString p.n ++ "] " ++ p.title ++ (if date = "" then "" else " (added " ++ date ++ ")") ++ tag ++
      "\n" ++ p.text)

/-- The loop over the chunks: the lines, whether the budget ran out, and the context. -/
def addChunks (cap : Int) (row : Json → Except Fault (Row × (Passage → String))) :
    TurnContext → List Json → Except Fault (List String × Bool) × TurnContext
  | ctx, [] => (.ok ([], false), ctx)
  | ctx, c :: cs =>
    match row c with
    | .error fault => (.error fault, ctx)
    | .ok (r, line) =>
      match ctx.add cap r with
      | (none, ctx) => (.ok ([], true), ctx)
      | (some p, ctx) =>
        match addChunks cap row ctx cs with
        | (.ok (lines, full), ctx) => (.ok (line p :: lines, full), ctx)
        | (.error fault, ctx) => (.error fault, ctx)

def contextFull : String := "(Context budget for this turn is full — answer from the passages you have.)"

/-- What is to be numbered, and the lines over it; or the answer, when there is nothing. -/
def searchFindings (st : Settings) (kb : Kb) (ctx : TurnContext) (args : Args) :
    Except Fault (String ⊕ (List String × List Json)) := do
  let query := String.ofList (PyText.strip (st.str (orElse ((args.lookup "query").getD .null) (.str ""))).toList)
  if query = "" then return .inl "error: query is required"
  let named ← items (orElse ((args.lookup "documents").getD .null) (.arr []))
  let documents := (named.map st.str).filter fun d => PyText.strip d.toList ≠ []
  match searchPayload st kb query documents with
  | .error (.raised fault) => throw fault
  | .error (.notFound payload) =>
    let what := ", ".intercalate (documents.map fun d => "\"" ++ d ++ "\"")
    return .inl (← notFoundText payload (if what = "" then "that reference" else what))
  | .ok payload =>
    let chunks ← keptChunks st documents payload
    if chunks.isEmpty then return .inl "No passages in the knowledge base are relevant to this query."
    let summaries ← if documents = [] then pure [] else summaryLines ctx chunks
    return .inr (summaries, chunks)

def toolSearch (st : Settings) (kb : Kb) (ctx : TurnContext) (args : Args) : Except Fault String × TurnContext :=
  match searchFindings st kb ctx args with
  | .error fault => (.error fault, ctx)
  | .ok (.inl text) => (.ok text, ctx)
  | .ok (.inr (summaries, chunks)) =>
    match addChunks st.contextChars (searchRow st) ctx chunks with
    | (.error fault, ctx) => (.error fault, ctx)
    | (.ok (found, full), ctx) =>
      let lines := summaries ++ found ++ (if full then [contextFull] else [])
      (.ok (if lines = [] then "Context budget for this turn is full — answer from the passages you have."
        else "\n\n".intercalate lines), ctx)

/-! ## `_tool_read` -/

def readRow (st : Settings) (doc : Json) (title : String) (c : Json) : Except Fault (Row × (Passage → String)) := do
  let id ← get doc "id"
  let chunkIndex ← get c "chunk_index"
  let content ← get c "content"
  let text ← clip content st.readPassageChars
  return (⟨"doc:" ++ st.str id ++ ":" ++ st.str chunkIndex, id, title, chunkIndex, text, .null, false⟩,
    fun p => "[" ++ toString p.n ++ "] " ++ p.text)

/-- The document read: its title, the lines over its passages, its chunks, the lines below. -/
structure Document where
  doc : Json
  title : String
  head : String
  payload : Json

def readDocument (st : Settings) (payload : Json) : Except Fault Document := do
  let doc := orElse (← get payload "document") (.obj [])
  let title ← orUntitled (← get doc "title")
  let createdAt ← get doc "created_at"
  let summary ← get doc "summary"
  let added := if truthy createdAt then ["Added: " ++ day st createdAt] else []
  let summarized ←
    if truthy summary then do
      pure ["Summary written when it was added (cite a passage, not this line): " ++ (← stripped summary)]
    else pure []
  return ⟨doc, title, "\n".intercalate (["DOCUMENT: " ++ title] ++ added ++ summarized), payload⟩

def readFindings (st : Settings) (kb : Kb) (args : Args) : Except Fault (String ⊕ (Document × List Json)) := do
  let document := String.ofList (PyText.strip (st.str (orElse ((args.lookup "document").getD .null) (.str ""))).toList)
  if document = "" then return .inl "error: document is required"
  let focus := String.ofList (PyText.strip (st.str (orElse ((args.lookup "focus").getD .null) (.str ""))).toList)
  match kb.readDocument document (if focus = "" then none else some focus) st.readMaxChunks with
  | .error (.raised fault) => throw fault
  | .error (.notFound payload) => return .inl (← notFoundText payload ("\"" ++ document ++ "\""))
  | .ok payload =>
    let found ← readDocument st payload
    return .inr (found, ← itemsOf payload "chunks")

def toolRead (st : Settings) (kb : Kb) (ctx : TurnContext) (args : Args) : Except Fault String × TurnContext :=
  match readFindings st kb args with
  | .error fault => (.error fault, ctx)
  | .ok (.inl text) => (.ok text, ctx)
  | .ok (.inr (found, chunks)) =>
    match addChunks st.contextChars (readRow st found.doc found.title) ctx chunks with
    | (.error fault, ctx) => (.error fault, ctx)
    | (.ok (lines, full), ctx) =>
      (do
        let none := if lines = [] then ["No readable passages are stored for this document."] else []
        let alts ← titlesOf (← itemsOf found.payload "alternatives")
        let others ← if alts.isEmpty then pure [] else do
          pure ["Other documents with similar titles: " ++ (← joined "; " alts)]
        return "\n\n".intercalate
          ([found.head] ++ lines ++ none ++ (if full then [contextFull] else []) ++ others), ctx)

/-! ## `_tool_list`, `run_tool` -/

def toolList (st : Settings) (kb : Kb) : Except Fault String := do
  let docs ← itemsOf (← kb.listDocuments) "documents"
  if docs.isEmpty then return "The knowledge base has no documents."
  let lines ← docs.mapM fun d => do
    let title ← orUntitled (← get d "title")
    let createdAt ← get d "created_at"
    let summary ← get d "summary"
    let tail ← if truthy summary then do pure (": " ++ (← clip summary 300)) else pure ""
    return "- " ++ title ++ " (added " ++ day st createdAt ++ ")" ++ tail
  return "\n".intercalate ((toString docs.length ++ " document(s):") :: lines)

def callTool (st : Settings) (kb : Kb) (ctx : TurnContext) (name : String) (args : Args) :
    Except Fault String × TurnContext :=
  match name with
  | "search_knowledge" => toolSearch st kb ctx args
  | "read_document" => toolRead st kb ctx args
  | "list_documents" => (toolList st kb, ctx)
  | _ => (.ok ("error: unknown tool " ++ st.repr (.str name)), ctx)

def runTool (st : Settings) (kb : Kb) (ctx : TurnContext) (name : String) (args : Args) : String × TurnContext :=
  let (result, ctx) := callTool st kb ctx name args
  (match result with
    | .ok text => text
    | .error fault =>
      "error: the knowledge base could not be reached (" ++ fault ++ "). Tell the user to try again shortly.", ctx)

/-! ## A tool call appends passages -/

open TurnContext (Grows)

/-- What `add` preserves, the loop preserves. -/
theorem addChunks_inv {I : TurnContext → Prop} {cap : Int} (hadd : ∀ ctx r, I ctx → I (ctx.add cap r).2)
    (row : Json → Except Fault (Row × (Passage → String))) {ctx : TurnContext} (h : I ctx) (cs : List Json) :
    I (addChunks cap row ctx cs).2 := by
  induction cs generalizing ctx with
  | nil => exact h
  | cons c cs ih =>
    simp only [addChunks]
    split
    · exact h
    · rename_i r line _
      have hnext := hadd ctx r h
      split
      · rename_i ctx' heq; rw [heq] at hnext; exact hnext
      · rename_i p ctx' heq
        rw [heq] at hnext
        have hrest := ih hnext
        split <;> (rename_i hloop; rw [hloop] at hrest; exact hrest)

/-- And so does a tool call. -/
theorem callTool_inv {I : TurnContext → Prop} {st : Settings} (hadd : ∀ ctx r, I ctx → I (ctx.add st.contextChars r).2)
    (kb : Kb) {ctx : TurnContext} (h : I ctx) (name : String) (args : Args) : I (callTool st kb ctx name args).2 := by
  unfold callTool
  split
  · unfold toolSearch
    split
    · exact h
    · exact h
    · rename_i chunks _
      have hloop := addChunks_inv hadd (searchRow st) h chunks
      split <;> (rename_i heq; rw [heq] at hloop; exact hloop)
  · unfold toolRead
    split
    · exact h
    · exact h
    · rename_i found chunks _
      have hloop := addChunks_inv hadd (readRow st found.doc found.title) h chunks
      split <;> (rename_i heq; rw [heq] at hloop; exact hloop)
  · exact h
  · exact h

theorem runTool_grows (st : Settings) (kb : Kb) (ctx : TurnContext) (name : String) (args : Args) :
    Grows ctx (runTool st kb ctx name args).2 :=
  callTool_inv (fun _ _ h => h.trans (TurnContext.add_grows _ _)) kb (Grows.refl ctx) name args

end CoreHeartbeat.Knowledge
