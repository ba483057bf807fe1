/-
  CoreHeartbeat.Attachments.Pipeline — documents from upload to prompt, with everyone at work at
  once.

  Any number of requests to the gateway, turns and looks at images are served one request at a
  time in any order, over one bucket. They are the programs of `Gateway.Routes` and of `Turn` as
  they stand, side by side among the requests of both. A browser may put or remove an original
  at any moment (it uploads into the bucket itself), and a store that fails may have landed all
  the same. All else that is asked may be answered with anything.

  Two things are counted on (`Serves`): the bucket answers an object as it has it, and a subject
  that a verified token names is a user id, without a slash. Of the user in question the theorem
  asks the same. Without it two users could share the key of a document.

  The contract of each job is the one proved in its own module. `Sourced` is the invariant of
  the bucket: every object besides the originals was there at the start or was put by a request
  that was served, and what was acknowledged since is not forgotten.

  Proved:
  - `documents_end_to_end`: a text read for a user's document was there at the start, or was
    stored by a request whose caller was verified as that user, for that document, and was
    extracted from that user's original of it; and no later store of it was acknowledged.
  - `documents_end_to_end_stored`: a request parses a document, and a turn reads what it stored.
-/

import CoreHeartbeat.Attachments.Ownership
import CoreHeartbeat.Gateway.TrustBoundary

namespace CoreHeartbeat.Attachments

open Dialogue
open CoreHeartbeat.Graph (Json Args)
open CoreHeartbeat.Services (Fault)
open CoreHeartbeat.Gateway (Bytes documentKey identity subject subjectIn subjectIn_some Extracted)
open CoreHeartbeat.Untrusted (Tables maxDocsPerTurn)
open CoreHeartbeat.Uploads (sandboxUserId)

/-! ## Who is at work -/

inductive Job where
  | request (req : Gateway.Request)
  | turn (userId : String) (docIds : List String) (chatId : Option String)
  | reread (userId : String) (args : Args)

variable (py : Python) (pillow : Pillow) (u : Tables)

def Job.prog : Job → Prog Answers Unit
  | .request req => req.serve.run.left >>= fun _ => pure ()
  | .turn userId docIds chatId => (loads py pillow u userId docIds chatId).run >>= fun _ => pure ()
  | .reread userId args => (runAttachmentTool py pillow userId args).run >>= fun _ => pure ()

def jobContract : Job → Contract Answers
  | .request req =>
    { asks := fun t q => match q with
        | .inl q => Gateway.Allowed req (lefts t) q
        | .inr _ => False
      answers := fun _ _ _ => True }
  | .turn userId docIds chatId => userContract py pillow userId (turnErrand docIds chatId)
  | .reread userId args => userContract py pillow userId (rereadErrand args)

variable {py pillow u}

theorem prog_keeps (job : Job) : Keeps (jobContract py pillow job) (fun _ _ => True) [] (job.prog py pillow u) := by
  cases job with
  | request req =>
    refine keeps_bind (keeps_mono (keeps_left (c := Gateway.requestContract req) (fun _ _ h => h) (fun _ _ _ h => h)
      (Gateway.request_keeps req)) fun _ _ _ => trivial)
  | turn userId docIds chatId => exact keeps_bind (keeps_mono (loads_keeps docIds chatId) fun _ _ _ => trivial)
  | reread userId args => exact keeps_bind (keeps_mono (runAttachmentTool_keeps args) fun _ _ _ => trivial)

/-! ## The bucket -/

abbrev Bucket : Type := String → Option Bytes

/-- How the bucket serves an object, and that a subject is the id of a user, without a slash. -/
def Serves (w : Bucket) : (q : Gateway.Ask ⊕ Ask) → Answers q → Bucket → Prop
  | .inl (.getObject key), answer, w' => w' = w ∧ ∀ data, answer = .ok data → w key = some data
  | .inl (.putObject key text), answer, w' =>
    w' = Function.update w key (some (utf8 text)) ∨ answer ≠ .ok () ∧ w' = w
  | .inl (.decode _ _ _ _), answer, w' =>
    w' = w ∧ ∀ payload sub, answer = .ok payload → subject payload = some sub → '/' ∉ sub.toList
  | _, _, w' => w' = w

def bucketWorld : World Answers Bucket where
  serves := Serves
  moves w w' := ∃ userId docId data, w' = Function.update w (documentKey userId docId "original") data

/-! ## Keys -/

theorem documentKey_toList (userId docId name : String) :
    (documentKey userId docId name).toList = userId.toList ++ '/' :: (docId.toList ++ '/' :: name.toList) := by
  simp [documentKey]

theorem extracted_ne_original (userId docId userId' docId' : String) :
    documentKey userId docId "extracted.txt" ≠ documentKey userId' docId' "original" := by
  intro h
  have hlast := congrArg (fun key => key.toList.getLast?) h
  simp [documentKey_toList, List.getLast?_append, List.getLast?_cons] at hlast

theorem documentKey_inj {userId docId userId' docId' name : String} (huser : '/' ∉ userId.toList)
    (huser' : '/' ∉ userId'.toList) (h : documentKey userId docId name = documentKey userId' docId' name) :
    userId = userId' ∧ docId = docId' := by
  have hlist := congrArg String.toList h
  rw [documentKey_toList, documentKey_toList] at hlist
  have hfirst : ∀ {s r : List Char}, '/' ∉ s → (s ++ '/' :: r).takeWhile (· ≠ '/') = s := by
    intro s r hs
    have hall : ∀ c ∈ s, decide (c ≠ '/') = true := by
      intro c hc
      refine decide_eq_true fun he => hs ?_
      rwa [← he]
    rw [List.takeWhile_append_of_pos hall]
    simp
  have hsame : userId.toList = userId'.toList := by
    rw [← hfirst huser, hlist, hfirst huser']
  rw [hsame] at hlist
  have hrest := List.append_cancel_left hlist
  rw [List.cons.injEq] at hrest
  exact ⟨String.toList_inj.mp hsame, String.toList_inj.mp (List.append_cancel_right hrest.2)⟩

/-! ## Where a text comes from -/

section
variable {ι : Type} {w₀ : Bucket} {log : List (ι × Exchange Answers)} {key : String} {data : Bytes}

def acknowledges (key : String) (e : Exchange Answers) : Prop :=
  ∃ text, e = ⟨.inl (.putObject key text), (.ok () : Except Fault Unit)⟩

/-- The object is what was there at the start or what a store wrote, and no later store was
    acknowledged. -/
def Source (w₀ : Bucket) (log : List (ι × Exchange Answers)) (key : String) (data : Bytes) : Prop :=
  (w₀ key = some data ∧ ∀ e ∈ log, ¬acknowledges key e.2) ∨
    ∃ l j text answer m, log = l ++ (j, ⟨.inl (.putObject key text), answer⟩) :: m ∧ data = utf8 text ∧
      ∀ e ∈ m, ¬acknowledges key e.2

theorem Source.snoc (h : Source w₀ log key data) {e : ι × Exchange Answers} (he : ¬acknowledges key e.2) :
    Source w₀ (log ++ [e]) key data := by
  have hlast : ∀ {m : List (ι × Exchange Answers)}, (∀ e ∈ m, ¬acknowledges key e.2) →
      ∀ e' ∈ m ++ [e], ¬acknowledges key e'.2 := by
    intro m hm e' he'
    rcases List.mem_append.mp he' with he' | he'
    · exact hm e' he'
    · rw [List.mem_singleton.mp he']
      exact he
  rcases h with ⟨h, hnone⟩ | ⟨l, j, text, answer, m, rfl, hdata, hnone⟩
  · exact Or.inl ⟨h, hlast hnone⟩
  · exact Or.inr ⟨l, j, text, answer, m ++ [e], by rw [List.append_assoc]; rfl, hdata, hlast hnone⟩

/-- Objects other than originals have their source in what was served. -/
def Sourced (w₀ : Bucket) (log : List (ι × Exchange Answers)) (w : Bucket) : Prop :=
  ∀ key data, (∀ userId docId, key ≠ documentKey userId docId "original") → w key = some data → Source w₀ log key data

/-- What was served says of users and objects what the world has. -/
def Truthful (w₀ : Bucket) (log : List (ι × Exchange Answers)) (e : Exchange Answers) : Prop :=
  (∀ key data, e = ⟨.inl (.getObject key), (.ok data : Except Fault Bytes)⟩ →
      (∀ userId docId, key ≠ documentKey userId docId "original") → Source w₀ log key data) ∧
    ∀ token decodeKey algorithms issuer payload sub,
      e = ⟨.inl (.decode token decodeKey algorithms issuer), (.ok payload : Except Gateway.JwtFault Json)⟩ →
        subject payload = some sub → '/' ∉ sub.toList

theorem Sourced.same {w : Bucket} (h : Sourced w₀ log w) {e : ι × Exchange Answers} (he : ∀ key, ¬acknowledges key e.2) :
    Sourced w₀ (log ++ [e]) w :=
  fun key data hkey hw => (h key data hkey hw).snoc (he key)

theorem Sourced.put {w w' : Bucket} (h : Sourced w₀ log w) {i : ι} {key text : String} {answer : Except Fault Unit}
    (hw' : w' = Function.update w key (some (utf8 text)) ∨ answer ≠ .ok () ∧ w' = w) :
    Sourced w₀ (log ++ [(i, ⟨.inl (.putObject key text), answer⟩)]) w' := by
  rcases hw' with rfl | ⟨hfailed, rfl⟩
  · intro key' data hkey hw
    by_cases hsame : key' = key
    · subst hsame
      rw [Function.update_self] at hw
      exact Or.inr ⟨log, i, text, answer, [], rfl, (Option.some.inj hw).symm, nofun⟩
    · rw [Function.update_of_ne hsame] at hw
      refine (h key' data hkey hw).snoc ?_
      rintro ⟨text', he⟩
      cases he
      exact hsame rfl
  · refine h.same ?_
    rintro key' ⟨text', he⟩
    cases he
    exact hfailed rfl

theorem not_acknowledges {q : Gateway.Ask ⊕ Ask} {r : Answers q} (hq : ∀ key text, q ≠ .inl (.putObject key text))
    (key : String) : ¬acknowledges key ⟨q, r⟩ := by
  rintro ⟨text, he⟩
  exact hq key text (congrArg Exchange.asked he)

theorem truthful_other {q : Gateway.Ask ⊕ Ask} {r : Answers q} (hobject : ∀ key, q ≠ .inl (.getObject key))
    (hdecode : ∀ token key algorithms issuer, q ≠ .inl (.decode token key algorithms issuer)) :
    Truthful w₀ log ⟨q, r⟩ :=
  ⟨fun _ _ he => absurd (congrArg Exchange.asked he) (hobject _),
    fun _ _ _ _ _ _ he => absurd (congrArg Exchange.asked he) (hdecode _ _ _ _)⟩

/-- One request served. -/
theorem sourced_step {w w' : Bucket} {i : ι} {q : Gateway.Ask ⊕ Ask} {r : Answers q} (h : Sourced w₀ log w)
    (hserves : Serves w q r w') : Sourced w₀ (log ++ [(i, ⟨q, r⟩)]) w' ∧ Truthful w₀ log ⟨q, r⟩ := by
  rcases q with q | q
  · cases q with
    | getObject key =>
      obtain ⟨rfl, hread⟩ := hserves
      refine ⟨h.same (not_acknowledges nofun), fun key' data he hkey => ?_, nofun⟩
      cases he
      exact h _ data hkey (hread data rfl)
    | putObject key text => exact ⟨h.put hserves, truthful_other nofun nofun⟩
    | decode token key algorithms issuer =>
      obtain ⟨rfl, hsubject⟩ := hserves
      refine ⟨h.same (not_acknowledges nofun), nofun, ?_⟩
      intro token' key' algorithms' issuer' payload sub he hsub
      cases he
      exact hsubject payload sub rfl hsub
    | _ =>
      obtain rfl := hserves
      exact ⟨h.same (not_acknowledges nofun), truthful_other nofun nofun⟩
  · cases q with
    | _ =>
      obtain rfl := hserves
      exact ⟨h.same (not_acknowledges nofun), truthful_other nofun nofun⟩

theorem sourced_move {w w' : Bucket} (h : Sourced w₀ log w) (hmove : bucketWorld.moves w w') : Sourced w₀ log w' := by
  obtain ⟨userId, docId, data, rfl⟩ := hmove
  intro key data' hkey hw
  rw [Function.update_of_ne (hkey userId docId)] at hw
  exact h key data' hkey hw

end

/-! ## From upload to prompt -/

section
variable {ι : Type} [DecidableEq ι] {jobs : ι → Job} {w₀ : Bucket} {s : Pool Answers Unit Bucket ι}

/-- What the gateway asked for a job, of what was served. -/
def asked (log : List (ι × Exchange Answers)) (j : ι) : History Gateway.Answer :=
  lefts (log.filterMap fun e => if e.1 = j then some e.2 else none)

theorem pool_truthful (h : Reachable bucketWorld w₀ (fun i => (jobs i).prog py pillow u) s) {l m : List (ι × Exchange Answers)}
    {i : ι} {e : Exchange Answers} (hsplit : s.log = l ++ (i, e) :: m) : Truthful w₀ l e := by
  refine pool_answers (F := Sourced w₀) (A := Truthful w₀) (fun _ _ _ => sourced_move)
    (fun key data _ hw => Or.inl ⟨hw, nofun⟩) (fun _ _ _ _ _ _ hF hserves => sourced_step hF hserves) h l i e m hsplit

/-- What a job asked was within its contract. -/
theorem pool_asks (h : Reachable bucketWorld w₀ (fun i => (jobs i).prog py pillow u) s) {l m : List (ι × Exchange Answers)}
    {j : ι} {q : Gateway.Ask ⊕ Ask} {r : Answers q} (hsplit : s.log = l ++ (j, ⟨q, r⟩) :: m) :
    (jobContract py pillow (jobs j)).asks (l.filterMap fun e => if e.1 = j then some e.2 else none) q := by
  obtain ⟨-, hjobs⟩ := pool_keeps (I := fun _ => True) (c := fun i => jobContract py pillow (jobs i))
    (fun _ _ _ _ => trivial) (fun i w t q r w' _ _ _ => ⟨trivial, by cases jobs i <;> trivial⟩) trivial
    (fun i => prog_keeps (jobs i)) h
  have hhistory := pool_history h j
  have hown : ((j, (⟨q, r⟩ : Exchange Answers)) :: m).filterMap (fun e => if e.1 = j then some e.2 else none) =
      ⟨q, r⟩ :: m.filterMap fun e => if e.1 = j then some e.2 else none := List.filterMap_cons_some (if_pos rfl)
  rw [hsplit, List.filterMap_append, hown] at hhistory
  exact ((hjobs j).2 _ q r _ hhistory).1

/-- The caller of a request is a user id. -/
theorem identity_plain (h : Reachable bucketWorld w₀ (fun i => (jobs i).prog py pillow u) s)
    {l m : List (ι × Exchange Answers)} (hsplit : s.log = l ++ m) (j : ι) : '/' ∉ (identity (asked l j)).toList := by
  unfold identity
  cases hsubject : (asked l j).findSome? subjectIn with
  | none => decide
  | some sub =>
    obtain ⟨e, he, hsub⟩ := List.exists_of_findSome?_eq_some hsubject
    obtain ⟨token, key, algorithms, issuer, payload, rfl, hpayload⟩ := subjectIn_some hsub
    obtain ⟨⟨j', e'⟩, hmem, hown⟩ := List.mem_filterMap.mp (mem_lefts.mp he)
    obtain ⟨l₁, l₂, rfl⟩ := List.append_of_mem hmem
    rw [List.append_assoc] at hsplit
    split at hown
    · cases hown
      exact (pool_truthful h hsplit).2 token key algorithms issuer payload sub rfl hpayload
    · cases hown

theorem not_job_of_docId {route : Gateway.Route} {docId : String} (h : route.docId? = some docId) : route.isJob = false := by
  cases route <;> first | rfl | cases h

/-- A text read for a document of a user was there at the start, or was stored for that document
    by a request of that user, as it was extracted from that user's original. -/
theorem documents_end_to_end (h : Reachable bucketWorld w₀ (fun i => (jobs i).prog py pillow u) s)
    {l m : List (ι × Exchange Answers)} {i : ι} {userId docId : String} {data : Bytes} (huser : '/' ∉ userId.toList)
    (hread : s.log = l ++
      (i, ⟨.inl (.getObject (documentKey userId docId "extracted.txt")), (.ok data : Except Fault Bytes)⟩) :: m) :
    (w₀ (documentKey userId docId "extracted.txt") = some data ∧
        ∀ e ∈ l, ¬acknowledges (documentKey userId docId "extracted.txt") e.2) ∨
      ∃ l₁ j text answer l₂ req,
        l = l₁ ++ (j, ⟨.inl (.putObject (documentKey userId docId "extracted.txt") text), answer⟩) :: l₂ ∧
          py.decode data = text ∧ (∀ e ∈ l₂, ¬acknowledges (documentKey userId docId "extracted.txt") e.2) ∧
            jobs j = .request req ∧ identity (asked l₁ j) = userId ∧ userId ≠ sandboxUserId ∧
              req.route.docId? = some docId ∧ Extracted (asked l₁ j) userId docId text := by
  have hsource := (pool_truthful h hread).1 _ data rfl fun userId' docId' => extracted_ne_original _ _ _ _
  refine hsource.imp_right ?_
  rintro ⟨l₁, j, text, answer, l₂, rfl, rfl, hnone⟩
  rw [List.append_assoc] at hread
  have hasks := pool_asks h hread
  cases hjob : jobs j with
  | turn => rw [hjob] at hasks; exact hasks.elim
  | reread => rw [hjob] at hasks; exact hasks.elim
  | request req =>
    rw [hjob] at hasks
    have hallowed : Gateway.Allowed req (asked l₁ j) (.putObject (documentKey userId docId "extracted.txt") text) := hasks
    obtain ⟨hadmitted, -, docId', filename, contentType, hroute, hkey, hextracted⟩ := hallowed
    have hdoc : req.route.docId? = some docId' := by rw [hroute]; rfl
    obtain ⟨hcaller, rfl⟩ := documentKey_inj huser (identity_plain h hread j) hkey
    rw [← hcaller] at hextracted
    refine ⟨l₁, j, text, answer, l₂, req, rfl, py.decode_utf8 text, hnone, hjob, hcaller.symm, ?_, hdoc, hextracted⟩
    rw [hcaller]
    exact hadmitted.1.resolve_left fun hstatus => nomatch (not_job_of_docId hdoc).symm.trans hstatus

end

def parseThenRead : Bool → Job
  | true => .request ⟨some "Bearer tk", .parseDocument "d1" "notes.txt" none⟩
  | false => .turn "ann" ["d1"] none

def uploaded : Bucket := Function.update (fun _ => none) (documentKey "ann" "d1" "original") (some [7])

theorem documents_end_to_end_stored :
    ∃ (s : Pool Answers Unit Bucket Bool) (l l₁ : List (Bool × Exchange Answers)) (j : Bool),
      Reachable bucketWorld uploaded (fun i => (parseThenRead i).prog asciiPython plainPillow Tables.ascii) s ∧
        s.log = l ++ [(false, ⟨.inl (.getObject (documentKey "ann" "d1" "extracted.txt")),
          (.ok (utf8 "hi") : Except Fault Bytes)⟩)] ∧
        l₁ <+: l ∧ identity (asked l₁ j) = "ann" ∧ Extracted (asked l₁ j) "ann" "d1" "hi" := by
  let original := documentKey "ann" "d1" "original"
  let stored := documentKey "ann" "d1" "extracted.txt"
  have huploaded : uploaded original = some [7] := Function.update_self _ _ _
  have hparsed : Function.update uploaded stored (some (utf8 "hi")) stored = some (utf8 "hi") := Function.update_self _ _ _
  have h : Reachable bucketWorld uploaded (fun i => (parseThenRead i).prog asciiPython plainPillow Tables.ascii) _ := .start
  have h := h.serve true (Sum.inl (Gateway.Ask.header "tk"))
    (.ok (.obj [("alg", .str "HS256")]) : Except Gateway.JwtFault Json) _ rfl rfl
  have h := h.serve true (Sum.inl (Gateway.Ask.secret "SUPABASE_JWT_SECRET"))
    (.ok (some "s") : Except Fault (Option String)) _ rfl rfl
  have h := h.serve true (Sum.inl (Gateway.Ask.env "SUPABASE_JWT_ISSUER")) (none : Option String) _ rfl rfl
  have h := h.serve true (Sum.inl (Gateway.Ask.decode "tk" (.secret "s") Gateway.jwtAlgorithms none))
    (.ok (.obj [("sub", .str "ann")]) : Except Gateway.JwtFault Json) _ rfl
    ⟨rfl, fun payload sub hpayload hsub => by cases hpayload; cases hsub; decide⟩
  have h := h.serve true (Sum.inl (Gateway.Ask.getObject original))
    (.ok [7] : Except Fault Bytes) _ rfl ⟨rfl, fun data hdata => by cases hdata; exact huploaded⟩
  have h := h.serve true (Sum.inl (Gateway.Ask.extract [7] "notes.txt" none)) (.ok "hi" : Except Fault String) _ rfl rfl
  have h := h.serve true (Sum.inl (Gateway.Ask.putObject stored "hi")) (.ok () : Except Fault Unit) _ rfl (Or.inl rfl)
  have h := h.serve false (Sum.inl (Gateway.Ask.getObject stored)) (.ok (utf8 "hi") : Except Fault Bytes) _ rfl
    ⟨rfl, fun data hdata => by cases hdata; exact hparsed⟩
  have hstored : ∀ (s : Pool Answers Unit Bucket Bool) (l : List (Bool × Exchange Answers)),
      Reachable bucketWorld uploaded (fun i => (parseThenRead i).prog asciiPython plainPillow Tables.ascii) s →
      s.log = l ++ [(false, ⟨.inl (.getObject stored), (.ok (utf8 "hi") : Except Fault Bytes)⟩)] →
      ∃ (l₁ : List (Bool × Exchange Answers)) (j : Bool),
        l₁ <+: l ∧ identity (asked l₁ j) = "ann" ∧ Extracted (asked l₁ j) "ann" "d1" "hi" := by
    intro s l hs hlog
    have hstart : uploaded stored ≠ some (utf8 "hi") := by
      rw [uploaded, Function.update_of_ne (extracted_ne_original _ _ _ _)]
      nofun
    obtain ⟨hat, -⟩ | ⟨l₁, j, text, answer, l₂, req, rfl, htext, -, -, hcaller, -, -, hextracted⟩ :=
      documents_end_to_end hs (by decide) hlog
    · exact absurd hat hstart
    · rw [asciiPython.decode_utf8] at htext
      exact ⟨l₁, j, List.prefix_append _ _, hcaller, htext ▸ hextracted⟩
  obtain ⟨l₁, j, hfound⟩ := hstored _ _ h rfl
  exact ⟨_, _, l₁, j, h, rfl, hfound⟩

end CoreHeartbeat.Attachments
