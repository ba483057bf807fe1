/-
  CoreHeartbeat.Gateway.TrustBoundary — what the gateway asks of other services, and for whom.

  A request may contain anything, and the world may answer it with anything: the token library,
  the table of profiles, the bucket, docling, the Knowledge base and the folder are all behind
  requests. What must not depend on any of it is who a request is made for.

  The contract of a request is `Verified.Allowed`: the settings and secrets that are read, the
  token that is verified, and, once the caller is told, what its route is there for and nothing
  else: method, path, owner and body at the Knowledge base, the operation in the folder, the key
  in the bucket, and at most one request that has an effect. Here every route is taken through
  it, with what holds of its reply (`Replied`).

  Proved, whatever a request contains and whatever the world answers it:
  - `gateway_trust_boundary`: everything asked on a caller's behalf is within what the route is
    for, and asked for the identity that the caller's token was verified as, or for the shared
    documents after the table of profiles said that identity is an admin; the sandbox identity
    reaches nothing but the status of an ingest; and an identity is never taken from a token
    that was not verified with the key its algorithm belongs to.
  - `gateway_replies`: a caller who is not admitted gets 401 or 403, unless telling who it is
    raised; one who is gets neither from the gateway; and a write to the Knowledge base is
    reported only when the service accepted it.
  - `gateway_trust_boundary_deletion`, `gateway_replies_deletion`: an admin deletes a shared
    document, and a caller without a token is turned away.
-/

import CoreHeartbeat.Gateway.Verified

namespace CoreHeartbeat.Gateway

open Dialogue
open CoreHeartbeat.Graph (Json)
open CoreHeartbeat.Services (Fault Http field raiseForStatus_ok)
open CoreHeartbeat.Uploads (sandboxUserId)

variable {req : Request} {t : History Answer}

/-- What a last computation comes to. -/
theorem keeps_outcome {α : Type} {post : History Answer → Except Fault α → Prop} {result : Except Fault α}
    (h : post t result) : Keeps (requestContract req) post t (outcome result).run := by
  cases result <;> exact h

/-! ## Admins and owners -/

theorem At.profiled {userId : String} (h : At userId false t) (answer : Except Fault Http) :
    At userId (saysAdmin userId ⟨.profile userId, answer⟩) (t ++ [⟨.profile userId, answer⟩]) where
  identity := (identity_snoc rfl).trans h.identity
  admin := by
    have hbefore := h.admin
    unfold adminSaid at *
    rw [List.any_append, hbefore, Bool.false_or, List.any_cons, List.any_nil, Bool.or_false]
  noWork := by
    rw [List.any_append, h.noWork]
    rfl

theorem saysAdmin_profile (userId : String) (r : Http) :
    saysAdmin userId ⟨.profile userId, .ok r⟩ = (adminIn r).toOption.getD false := by
  simp only [saysAdmin, decide_true, Bool.true_and]
  cases adminIn r <;> rfl

/-- What was told of the user is what the profile tells, and an exception is a no. -/
theorem isAdmin_keeps {userId : String} (h : At userId false t) (hcaller : userId ≠ sandboxUserId)
    (hshared : (req.route.isGlobal || req.route.isUpload) = true) :
    Keeps (requestContract req) (fun t' result => At userId (result.toOption.getD false) t') t (isAdmin userId).run := by
  refine keeps_asked (by simp [requestContract, Allowed, settings]) fun url _ => ?_
  have h := h.snoc (e := ⟨.env "SUPABASE_URL", url⟩) ⟨rfl, fun _ => rfl, rfl⟩
  refine keeps_asked (by simp [requestContract, Allowed, secrets]) fun key _ => ?_
  have h := h.snoc (e := ⟨.secret "SUPABASE_SERVICE_ROLE_KEY", key⟩) ⟨rfl, fun _ => rfl, rfl⟩
  refine keeps_given (fun e _ => h) fun key _ => ?_
  split
  · exact h
  · refine keeps_asked ⟨h.identity.symm, h.identity.symm ▸ hcaller, hshared⟩ fun answer _ => ?_
    have h := h.profiled answer
    cases answer with
    | error e => exact h
    | ok r =>
      rw [saysAdmin_profile] at h
      refine keeps_given (fun e he => by cases he) fun r' hr => ?_
      cases hr
      exact keeps_outcome h

theorem isAdminOrNot_keeps {userId : String} (h : At userId false t) (hcaller : userId ≠ sandboxUserId)
    (hshared : (req.route.isGlobal || req.route.isUpload) = true) :
    Keeps (requestContract req) (fun t' result => ∃ admin, result = .ok admin ∧ At userId admin t') t
      (isAdminOrNot userId).run := by
  refine keeps_attempt (keeps_mono (isAdmin_keeps h hcaller hshared) fun t' result h => ?_)
  cases result with
  | error e => exact ⟨false, rfl, h⟩
  | ok admin => exact ⟨admin, rfl, h⟩

/-- The owner is the caller's own, or the shared one for an admin. -/
theorem ownerFor_keeps {userId : String} (h : At userId false t) (hcaller : userId ≠ sandboxUserId) :
    Keeps (requestContract req) (fun t' result => ∃ admin owner, result = .ok owner ∧ At userId admin t' ∧
        (owner = none → req.route.isGlobal = true ∧ admin = false) ∧
        ∀ name, owner = some name → (req.route.isGlobal = true → admin = true) ∧ name = req.route.owner userId)
      t (ownerFor userId req.route.isGlobal).run := by
  unfold ownerFor Route.owner
  cases hglobal : req.route.isGlobal with
  | false =>
    refine ⟨false, some userId, rfl, h, nofun, fun name hname => ⟨nofun, ?_⟩⟩
    cases hname
    rfl
  | true =>
    have hshared : (req.route.isGlobal || req.route.isUpload) = true := by rw [hglobal, Bool.true_or]
    refine keeps_then (keeps_mono (isAdminOrNot_keeps h hcaller hshared) fun t' result hresult => ?_)
    obtain ⟨admin, rfl, h⟩ := hresult
    cases admin with
    | false => exact ⟨false, none, rfl, h, fun _ => ⟨rfl, rfl⟩, nofun⟩
    | true =>
      refine ⟨true, some globalOwner, rfl, h, nofun, fun name hname => ⟨fun _ => rfl, ?_⟩⟩
      cases hname
      rfl

/-! ## The Knowledge base -/

def Accepted (t : History Answer) : Prop :=
  ∃ method path owner body r, (⟨.kb method path owner body, .ok r⟩ : Exchange Answer) ∈ t ∧
    200 ≤ r.status ∧ r.status < 300

section
variable {userId : String} {admin : Bool}

theorem kbRequest_keeps (h : At userId admin t) (hadmits : req.route.admits userId admin) {method : Method} {path : String}
    {body : KbBody} (hasks : req.route.asksKb (req.route.mayUse t userId) method path body) :
    Keeps (requestContract req) (fun t' result => Knows userId admin t' ∧ ∀ r, result = .ok r →
        (⟨.kb method path (req.route.owner userId) body, .ok r⟩ : Exchange Answer) ∈ t')
      t (kbRequest method path (req.route.owner userId) body).run := by
  refine keeps_asked (by simp [requestContract, Allowed, settings]) fun url _ => ?_
  have h := h.snoc (e := ⟨.env "GRAPHRAG_SERVICE_URL", url⟩) ⟨rfl, fun _ => rfl, rfl⟩
  have hasks := Route.asksKb_mono (fun _ hdata => Route.mayUse_mono hdata [⟨.env "GRAPHRAG_SERVICE_URL", url⟩]) hasks
  split
  · exact ⟨h.toKnows, fun r hr => by cases hr⟩
  · refine keeps_asked (by simp [requestContract, Allowed, settings]) fun key _ => ?_
    have h := h.snoc (e := ⟨.env "GRAPHRAG_API_KEY", key⟩) ⟨rfl, fun _ => rfl, rfl⟩
    have hasks := Route.asksKb_mono (fun _ hdata => Route.mayUse_mono hdata [⟨.env "GRAPHRAG_API_KEY", key⟩]) hasks
    split
    · exact ⟨h.toKnows, fun r hr => by cases hr⟩
    · refine keeps_asked ⟨(h.admitted _).mpr hadmits, h.noWork, by rw [h.identity], by rw [h.identity]; exact hasks⟩
        fun answer _ => ?_
      have h := h.toKnows.snoc (e := ⟨.kb method path (req.route.owner userId) body, answer⟩) rfl rfl
      cases answer with
      | error e => exact ⟨h, fun r hr => by cases hr⟩
      | ok r =>
        refine ⟨h, fun r' hr => ?_⟩
        cases hr
        exact List.mem_append_right _ (List.mem_singleton.mpr rfl)

theorem accepted_keeps (h : At userId admin t) (hadmits : req.route.admits userId admin) {method : Method} {path : String}
    {body : KbBody} (hasks : req.route.asksKb (req.route.mayUse t userId) method path body) :
    Keeps (requestContract req) (fun t' result => Knows userId admin t' ∧ ∀ v, result = .ok v → Accepted t')
      t (kbRequest method path (req.route.owner userId) body >>= Gateway.accepted).run := by
  refine keeps_then (keeps_mono (kbRequest_keeps h hadmits hasks) fun t' result hresult => ?_)
  obtain ⟨h, hmem⟩ := hresult
  cases result with
  | error e => exact ⟨h, nofun⟩
  | ok r =>
    refine keeps_given (fun e _ => ⟨h, nofun⟩) fun _ hstatus => ?_
    have haccepted : Accepted t' := ⟨_, _, _, _, r, hmem r rfl, raiseForStatus_ok hstatus⟩
    cases hjson : r.json with
    | error e => exact ⟨h, nofun⟩
    | ok v => exact ⟨h, fun _ _ => haccepted⟩

theorem deleteDocument_keeps (h : At userId admin t) (hadmits : req.route.admits userId admin) {docId scope : String}
    (hroute : req.route = .kbDeleteDocument docId scope) :
    Keeps (requestContract req) (fun t' result => Knows userId admin t' ∧ (result = .ok true → Accepted t'))
      t (deleteDocument docId (req.route.owner userId)).run := by
  have hasks : req.route.asksKb (req.route.mayUse t userId) .delete ("/api/documents/" ++ docId) .none := by
    rw [hroute]
    exact ⟨rfl, rfl, rfl⟩
  refine keeps_then (keeps_mono (kbRequest_keeps h hadmits hasks) fun t' result hresult => ?_)
  obtain ⟨h, hmem⟩ := hresult
  cases result with
  | error e => exact ⟨h, nofun⟩
  | ok r =>
    dsimp only
    split
    · exact ⟨h, nofun⟩
    · refine keeps_given (fun e _ => ⟨h, nofun⟩) fun _ hstatus => ⟨h, fun _ => ?_⟩
      exact ⟨_, _, _, _, r, hmem r rfl, raiseForStatus_ok hstatus⟩

/-! ## Documents -/

theorem fetchOriginal_keeps (h : At userId admin t) (hadmits : req.route.admits userId admin) {docId : String}
    (hdoc : req.route.docId? = some docId) :
    Keeps (requestContract req) (fun t' result => At userId admin t' ∧ ∀ data, result = .ok data →
        (⟨.getObject (documentKey userId docId "original"), .ok data⟩ : Exchange Answer) ∈ t')
      t (fetchOriginal userId docId).run := by
  refine keeps_asked ⟨(h.admitted _).mpr hadmits, docId, hdoc, by rw [h.identity]⟩ fun answer _ => ?_
  have h := h.snoc (e := ⟨.getObject (documentKey userId docId "original"), answer⟩) ⟨rfl, fun _ => rfl, rfl⟩
  cases answer with
  | error e => exact ⟨h, nofun⟩
  | ok data =>
    refine ⟨h, fun data' hdata => ?_⟩
    cases hdata
    exact List.mem_append_right _ (List.mem_singleton.mpr rfl)

theorem storeExtracted_keeps (h : At userId admin t) (hadmits : req.route.admits userId admin)
    {docId filename text : String} {contentType : Option String}
    (hroute : req.route = .parseDocument docId filename contentType) (htext : Extracted t userId docId text) :
    Keeps (requestContract req) (fun t' _ => Knows userId admin t') t (storeExtracted userId docId text).run := by
  refine keeps_asked ⟨(h.admitted _).mpr hadmits, h.noWork, docId, filename, contentType, hroute, by rw [h.identity],
    h.identity.symm ▸ htext⟩ fun answer _ => ?_
  have h := h.toKnows.snoc (e := ⟨.putObject (documentKey userId docId "extracted.txt") text, answer⟩) rfl rfl
  cases answer <;> exact h

/-! ## Replies -/

structure Answered (req : Request) (t : History Answer) (reply : Reply) : Prop where
  refused : ¬Admitted req.route t → reply.status = if identity t = sandboxUserId then 401 else 403
  admitted : Admitted req.route t → req.route.isUpload = false → reply.status ≠ 401 ∧ reply.status ≠ 403
  written : req.route.isWrite = true → reply.status = 200 → Accepted t

/-- A route raises for none but those who may use it. -/
def Replied (req : Request) (t : History Answer) : Except Fault Reply → Prop
  | .ok reply => Answered req t reply
  | .error _ => Admitted req.route t

theorem Knows.refused (h : Knows userId admin t) (hno : ¬req.route.admits userId admin) {reply : Reply}
    (hstatus : reply.status = if userId = sandboxUserId then 401 else 403) : Replied req t (.ok reply) := by
  refine ⟨fun _ => by rw [hstatus, h.identity], fun hyes => absurd ((h.admitted _).mp hyes) hno, fun _ hok => ?_⟩
  rw [hstatus] at hok
  split at hok <;> cases hok

theorem Knows.served (h : Knows userId admin t) (hadmits : req.route.admits userId admin) {reply : Reply}
    (hstatus : req.route.isUpload = false → reply.status ≠ 401 ∧ reply.status ≠ 403)
    (hwritten : req.route.isWrite = true → reply.status = 200 → Accepted t) : Replied req t (.ok reply) :=
  ⟨fun hno => absurd ((h.admitted _).mpr hadmits) hno, fun _ => hstatus, hwritten⟩

/-- A reply to a route that writes nothing. -/
theorem Knows.said (h : Knows userId admin t) (hadmits : req.route.admits userId admin)
    (hread : req.route.isWrite = false) {reply : Reply} (hstatus : reply.status ≠ 401 ∧ reply.status ≠ 403) :
    Replied req t (.ok reply) :=
  h.served hadmits (fun _ => hstatus) fun hwrite _ => nomatch hread.symm.trans hwrite

theorem Knows.failed (h : Knows userId admin t) (hadmits : req.route.admits userId admin) {status : Nat} {text : String}
    (hstatus : status ≠ 200 ∧ status ≠ 401 ∧ status ≠ 403) : Replied req t (.ok (detail status text)) :=
  h.served hadmits (fun _ => hstatus.2) fun _ hok => absurd hok hstatus.1

theorem ok_admitted : 200 ≠ 401 ∧ 200 ≠ 403 := by decide

theorem okJson_status {content : Json} {reply : Reply} (h : okJson content = .ok reply) : reply.status = 200 := by
  unfold okJson at h
  split at h
  · cases h
    rfl
  · cases h

/-- A value as it is sent is one more reply. -/
theorem Knows.sent (h : Knows userId admin t) (hadmits : req.route.admits userId admin)
    (hwritten : req.route.isWrite = true → Accepted t) (content : Json) : Replied req t (okJson content) := by
  cases hreply : okJson content with
  | error e => exact (h.admitted _).mpr hadmits
  | ok reply =>
    refine h.served hadmits (fun _ => ?_) (fun hwrite _ => hwritten hwrite)
    rw [okJson_status hreply]
    exact ok_admitted

/-! ## The routes -/

theorem Knows.signedOut (h : Knows userId admin t) (hjob : req.route.isJob = false) (hsandbox : userId = sandboxUserId)
    {text : String} : Replied req t (.ok (detail 401 text)) := by
  refine h.refused (fun hadmits => ?_) (by rw [if_pos hsandbox]; rfl)
  rw [Route.admits, hjob] at hadmits
  exact hadmits.1.elim nofun fun hcaller => hcaller hsandbox

/-- A signed-in user may use a route that is not for admins. -/
theorem admits_own {route : Route} (hcaller : userId ≠ sandboxUserId)
    (hown : (route.isGlobal || route.isUpload) = false) : route.admits userId admin :=
  ⟨Or.inr hcaller, fun hshared => nomatch hown.symm.trans hshared⟩

theorem parseDocumentEndpoint_keeps (h : At userId false t) {docId filename : String} {contentType : Option String}
    (hroute : req.route = .parseDocument docId filename contentType) :
    Keeps (requestContract req) (Replied req) t (parseDocumentEndpoint userId docId filename contentType).run := by
  have hread : req.route.isWrite = false := by rw [hroute]; rfl
  unfold parseDocumentEndpoint
  split
  · exact h.signedOut (by rw [hroute]; rfl) ‹_›
  · rename_i hcaller
    have hadmits : req.route.admits userId false := admits_own hcaller (by rw [hroute]; rfl)
    have hdoc : req.route.docId? = some docId := by rw [hroute]; rfl
    have hreply : ∀ {t : History Answer} {reply : Reply}, Knows userId false t → reply.status = 200 →
        Replied req t (.ok reply) := by
      intro t reply h hstatus
      exact h.said hadmits hread (by rw [hstatus]; exact ok_admitted)
    refine keeps_attempt (keeps_mono (fetchOriginal_keeps h hadmits hdoc) fun t' result hresult => ?_)
    obtain ⟨h, hfetched⟩ := hresult
    cases result with
    | error e => exact hreply h.toKnows rfl
    | ok data =>
      dsimp only
      split
      · exact hreply h.toKnows rfl
      · rename_i hsize
        have hmayUse : req.route.mayUse t' (identity t') data :=
          h.identity.symm ▸ ⟨docId, hdoc, hfetched data rfl, Nat.not_lt.mp hsize⟩
        refine keeps_asked ⟨(h.admitted _).mpr hadmits, hmayUse, docId, hroute⟩ fun answer _ => ?_
        have h := h.snoc (e := ⟨.extract data filename contentType, answer⟩) ⟨rfl, fun _ => rfl, rfl⟩
        cases answer with
        | error e => exact hreply h.toKnows rfl
        | ok text =>
          have hextracted : Extracted (t' ++ [⟨.extract data filename contentType, .ok text⟩]) userId docId text :=
            ⟨data, filename, contentType, List.mem_append_left _ (hfetched data rfl),
              List.mem_append_right _ (List.mem_singleton.mpr rfl)⟩
          refine keeps_then (keeps_mono (storeExtracted_keeps h hadmits hroute hextracted) fun t'' result h => ?_)
          cases result with
          | error e => exact (h.admitted _).mpr hadmits
          | ok _ => exact hreply h rfl

/-- Who may use a route of the Knowledge base that signed-in users have. -/
theorem admits_of_owner (hjob : req.route.isJob = false) (hupload : req.route.isUpload = false)
    (hcaller : userId ≠ sandboxUserId) : req.route.admits userId admin ↔ (req.route.isGlobal = true → admin = true) := by
  unfold Route.admits
  rw [hjob, hupload, Bool.or_false]
  exact ⟨And.right, fun hadmin => ⟨Or.inr hcaller, hadmin⟩⟩

/-- What a signed-in user may do with documents of their own, and an admin with shared ones. -/
theorem owned_keeps (h : At userId false t) (hjob : req.route.isJob = false) (hupload : req.route.isUpload = false)
    {isGlobal : Bool} (hglobal : req.route.isGlobal = isGlobal) {signIn forbidden : String} {k : String → Call Reply}
    (hk : ∀ t admin, At userId admin t → req.route.admits userId admin →
      Keeps (requestContract req) (Replied req) t (k (req.route.owner userId)).run) :
    Keeps (requestContract req) (Replied req) t
      (if userId = sandboxUserId then (return detail 401 signIn : Call Reply)
        else do
          match ← ownerFor userId isGlobal with
          | none => return detail 403 forbidden
          | some owner => k owner).run := by
  subst hglobal
  split
  · exact h.signedOut hjob ‹_›
  · rename_i hcaller
    refine keeps_then (keeps_mono (ownerFor_keeps h hcaller) fun t' result hresult => ?_)
    obtain ⟨admin, owner, rfl, h, hnone, hsome⟩ := hresult
    have hadmits : req.route.admits userId admin ↔ (req.route.isGlobal = true → admin = true) :=
      admits_of_owner hjob hupload hcaller
    cases owner with
    | none =>
      obtain ⟨hshared, rfl⟩ := hnone rfl
      exact h.refused (fun hyes => nomatch hadmits.mp hyes hshared) (by rw [if_neg hcaller]; rfl)
    | some owner =>
      obtain ⟨hadmin, rfl⟩ := hsome owner rfl
      exact hk t' admin h (hadmits.mpr hadmin)

theorem kbIngest_keeps (h : At userId false t) {docId filename : String} {scope : Scope} {replaces : Option String}
    (hroute : req.route = .kbIngest docId filename scope replaces) :
    Keeps (requestContract req) (Replied req) t (kbIngest userId docId filename scope replaces).run := by
  have hdoc : req.route.docId? = some docId := by rw [hroute]; rfl
  refine owned_keeps h (by rw [hroute]; rfl) (by rw [hroute]; rfl) (by rw [hroute]; rfl) fun t admin h hadmits => ?_
  refine keeps_attempt (keeps_mono (fetchOriginal_keeps h hadmits hdoc) fun t' result hresult => ?_)
  obtain ⟨h, hfetched⟩ := hresult
  cases result with
  | error e => exact h.failed hadmits (by decide)
  | ok data =>
    dsimp only
    split
    · exact h.failed hadmits (by decide)
    · rename_i hsize
      have hasks : req.route.asksKb (req.route.mayUse t' userId) .post "/api/ingest"
          (.ingest data filename (Calendar.given replaces)) := by
        have hmayUse : req.route.mayUse t' userId data := ⟨docId, hdoc, hfetched data rfl, Nat.not_lt.mp hsize⟩
        rw [hroute] at hmayUse ⊢
        exact ⟨rfl, rfl, data, hmayUse, rfl⟩
      refine keeps_attempt (keeps_mono (accepted_keeps h hadmits hasks) fun t' result hresult => ?_)
      obtain ⟨h, haccepted⟩ := hresult
      cases result with
      | error e => exact h.failed hadmits (by decide)
      | ok v => exact keeps_outcome (h.sent hadmits (fun _ => haccepted v rfl) v)

theorem kbDeleteDocument_keeps (h : At userId false t) {docId scope : String}
    (hroute : req.route = .kbDeleteDocument docId scope) :
    Keeps (requestContract req) (Replied req) t (kbDeleteDocument userId docId scope).run := by
  refine owned_keeps h (by rw [hroute]; rfl) (by rw [hroute]; rfl) (by rw [hroute]; rfl) fun t admin h hadmits => ?_
  refine keeps_attempt (keeps_mono (deleteDocument_keeps h hadmits hroute) fun t' result hresult => ?_)
  obtain ⟨h, haccepted⟩ := hresult
  cases result with
  | error e => exact h.failed hadmits (by decide)
  | ok deleted =>
    cases deleted with
    | false => exact h.failed hadmits (by decide)
    | true => exact h.served hadmits (fun _ => ok_admitted) fun _ _ => haccepted rfl

theorem kbChatStream_keeps (h : At userId false t) (hroute : req.route = .kbChatStream) :
    Keeps (requestContract req) (Replied req) t (kbChatStream userId).run := by
  unfold kbChatStream
  split
  · exact h.signedOut (by rw [hroute]; rfl) ‹_›
  · rename_i hcaller
    have hadmits : req.route.admits userId false := admits_own hcaller (by rw [hroute]; rfl)
    refine keeps_asked ⟨(h.admitted _).mpr hadmits, h.noWork, h.identity.symm, hroute⟩ fun _ _ => ?_
    have h := h.toKnows.snoc (e := ⟨.chat userId, ()⟩) rfl rfl
    exact h.said hadmits (by rw [hroute]; rfl) ok_admitted

/-- What the Knowledge base answers to a read goes on as it is, and a failure as a 502. -/
theorem proxied_keeps (h : At userId admin t) (hadmits : req.route.admits userId admin)
    (hread : req.route.isWrite = false) {path : String}
    (hasks : req.route.asksKb (req.route.mayUse t userId) .get path .none) (text : String) :
    Keeps (requestContract req) (Replied req) t
      (show Call Reply from do
        match ← attempt (do outcome (okJson (← (kbRequest .get path (req.route.owner userId) .none >>= Gateway.accepted)))) with
        | .error _ => return detail 502 text
        | .ok reply => return reply).run := by
  refine keeps_attempt (keeps_then (keeps_mono (accepted_keeps h hadmits hasks) fun t' result hresult => ?_))
  obtain ⟨h, -⟩ := hresult
  cases result with
  | error e => exact h.failed hadmits (by decide)
  | ok v =>
    have hsent := h.sent hadmits (fun hwrite => nomatch hread.symm.trans hwrite) v
    refine keeps_outcome ?_
    cases hreply : okJson v with
    | error e => exact h.failed hadmits (by decide)
    | ok reply =>
      rw [hreply] at hsent
      exact hsent

theorem kbJob_keeps (h : At userId false t) {jobId : String} (hroute : req.route = .kbJob jobId) :
    Keeps (requestContract req) (Replied req) t (kbJob userId jobId).run := by
  have hadmits : req.route.admits userId false := by
    rw [hroute]
    exact ⟨Or.inl rfl, nofun⟩
  have howner : req.route.owner userId = userId := by rw [hroute]; rfl
  have hasks : req.route.asksKb (req.route.mayUse t userId) .get ("/api/jobs/" ++ jobId) .none := by
    rw [hroute]
    exact ⟨rfl, rfl, rfl⟩
  have hkeeps := proxied_keeps h hadmits (by rw [hroute]; rfl) hasks "knowledge base unavailable"
  rw [howner] at hkeeps
  exact hkeeps

theorem kbDocuments_keeps (h : At userId false t) (hroute : req.route = .kbDocuments) :
    Keeps (requestContract req) (Replied req) t (kbDocuments userId).run := by
  have howner : req.route.owner userId = userId := by rw [hroute]; rfl
  unfold kbDocuments
  split
  · exact h.signedOut (by rw [hroute]; rfl) ‹_›
  · rename_i hcaller
    have hadmits : req.route.admits userId false := admits_own hcaller (by rw [hroute]; rfl)
    have hasks : req.route.asksKb (req.route.mayUse t userId) .get "/api/documents" .none := by
      rw [hroute]
      exact ⟨rfl, rfl, rfl⟩
    have hkeeps := proxied_keeps h hadmits (by rw [hroute]; rfl) hasks "knowledge base unavailable"
    rw [howner] at hkeeps
    exact hkeeps

/-! ## The upload folder -/

theorem folderReply_keeps (h : At userId true t) (hcaller : userId ≠ sandboxUserId) (hupload : req.route.isUpload = true)
    (hread : req.route.isWrite = false) {op : FolderOp} (hop : req.route.folderOp? = some op) {failed : String}
    {reply : Json → Except Fault Reply} :
    Keeps (requestContract req) (Replied req) t (folderReply op failed reply).run := by
  have hadmits : req.route.admits userId true := ⟨Or.inr hcaller, fun _ => rfl⟩
  refine keeps_asked ⟨(h.admitted _).mpr hadmits, h.noWork, hop⟩ fun answer _ => ?_
  have h := h.toKnows.snoc (e := ⟨.folder op, answer⟩) rfl rfl
  have hsaid : ∀ result, Replied req (t ++ [⟨.folder op, answer⟩]) result := by
    intro result
    cases result with
    | error e => exact (h.admitted _).mpr hadmits
    | ok reply =>
      exact h.served hadmits (fun hno => nomatch hupload.symm.trans hno) fun hwrite => nomatch hread.symm.trans hwrite
  cases answer with
  | ok result => exact keeps_outcome (hsaid _)
  | error fault => cases fault <;> exact hsaid _

/-- An upload route is an admin's. -/
theorem required_keeps (h : At userId false t) (hjob : req.route.isJob = false) (hupload : req.route.isUpload = true)
    {k : Call Reply}
    (hk : ∀ t, At userId true t → userId ≠ sandboxUserId → Keeps (requestContract req) (Replied req) t k.run) :
    Keeps (requestContract req) (Replied req) t
      (show Call Reply from do
        match ← requireAdmin userId with
        | some refusal => return refusal
        | none => k).run := by
  unfold requireAdmin
  split
  · exact h.signedOut hjob ‹_›
  · rename_i hcaller
    have hshared : (req.route.isGlobal || req.route.isUpload) = true := by rw [hupload, Bool.or_true]
    refine keeps_then (keeps_then (keeps_mono (isAdminOrNot_keeps h hcaller hshared) fun t' result hresult => ?_))
    obtain ⟨admin, rfl, h⟩ := hresult
    cases admin with
    | true => exact hk t' h hcaller
    | false =>
      refine h.refused (fun hyes => ?_) (by rw [if_neg hcaller]; rfl)
      exact nomatch hyes.2 hshared

theorem uploadFile_keeps (h : At userId false t) {header : String} (hroute : req.route = .uploadFile header) :
    Keeps (requestContract req) (Replied req) t (uploadFile userId header).run := by
  have hupload : req.route.isUpload = true := by rw [hroute]; rfl
  refine required_keeps h (by rw [hroute]; rfl) hupload fun t h hcaller => ?_
  dsimp only
  split
  · exact h.failed ⟨Or.inr hcaller, fun _ => rfl⟩ (by decide)
  · rename_i hname
    have hop : req.route.folderOp? = some (.store (Uploads.unquoted header)) := by
      rw [hroute, Route.folderOp?, if_neg hname]
    exact folderReply_keeps h hcaller hupload (by rw [hroute]; rfl) hop

theorem serve_keeps (h : At userId false t) (req : Request) :
    Keeps (requestContract req) (Replied req) t (req.route.serve userId).run := by
  obtain ⟨authorization, route⟩ := req
  cases route with
  | parseDocument => exact parseDocumentEndpoint_keeps h rfl
  | kbIngest => exact kbIngest_keeps h rfl
  | kbChatStream => exact kbChatStream_keeps h rfl
  | kbJob => exact kbJob_keeps h rfl
  | kbDocuments => exact kbDocuments_keeps h rfl
  | kbDeleteDocument => exact kbDeleteDocument_keeps h rfl
  | uploadFile => exact uploadFile_keeps h rfl
  | listUploads => exact required_keeps h rfl rfl fun t h hcaller => folderReply_keeps h hcaller rfl rfl rfl
  | deleteUpload => exact required_keeps h rfl rfl fun t h hcaller => folderReply_keeps h hcaller rfl rfl rfl

end

/-- How a request ends: one who may not use the route is refused, unless telling who it is
    raised. -/
structure Ended (req : Request) (t : History Answer) (result : Except Fault Reply) : Prop where
  refused : ¬Admitted req.route t →
    (∃ reply, result = .ok reply ∧ reply.status = if identity t = sandboxUserId then 401 else 403) ∨
      ∃ e, result = .error e ∧ Reaches (resolveUserId req.authorization).run t (.done (.error e))
  admitted : Admitted req.route t → req.route.isUpload = false →
    ∀ reply, result = .ok reply → reply.status ≠ 401 ∧ reply.status ≠ 403
  written : req.route.isWrite = true → ∀ reply, result = .ok reply → reply.status = 200 → Accepted t

theorem ended_of_replied {result : Except Fault Reply} (h : Replied req t result) : Ended req t result := by
  cases result with
  | error e => exact ⟨fun hno => absurd h hno, fun _ _ => nofun, fun _ => nofun⟩
  | ok reply =>
    refine ⟨fun hno => Or.inl ⟨reply, rfl, h.refused hno⟩, fun hyes hupload => ?_, fun hwrite => ?_⟩
    · rintro _ ⟨rfl⟩
      exact h.admitted hyes hupload
    · rintro _ ⟨rfl⟩
      exact h.written hwrite

theorem request_keeps (req : Request) : Keeps (requestContract req) (Ended req) [] req.serve.run := by
  have hresolve : Keeps (requestContract req)
      (fun t result => Resolved t result ∧ Reaches (resolveUserId req.authorization).run t (.done result)) []
      (resolveUserId req.authorization).run := keeps_reached resolveUserId_keeps .start
  unfold Request.serve
  refine keeps_then (keeps_mono hresolve fun t result hresult => ?_)
  obtain ⟨hresolved, hreached⟩ := hresult
  cases result with
  | error e => exact ⟨fun _ => Or.inr ⟨e, rfl, hreached⟩, fun _ _ => nofun, fun _ => nofun⟩
  | ok userId => exact keeps_mono (serve_keeps (hresolved userId rfl) req) fun _ _ => ended_of_replied

/-! ## The boundary -/

/-- The caller's token was decoded with a right key, and names the caller. -/
def Verified (req : Request) (t : History Answer) : Prop :=
  ∃ token key algorithms issuer payload,
    (⟨.decode token key algorithms issuer, .ok payload⟩ : Exchange Answer) ∈ t ∧
      extractBearerToken req.authorization = some token ∧ RightKey t token key algorithms ∧
        subject payload = some (identity t)

theorem subjectIn_some {e : Exchange Answer} {sub : String} (h : subjectIn e = some sub) :
    ∃ token key algorithms issuer payload, e = ⟨.decode token key algorithms issuer, .ok payload⟩ ∧
      subject payload = some sub := by
  unfold subjectIn at h
  split at h
  · exact ⟨_, _, _, _, _, rfl, h⟩
  · cases h

theorem acting_other {e : Exchange Answer} (h : acting e.asked = true) : verifying e = false := by
  obtain ⟨q, r⟩ := e
  cases q with
  | env | secret | header | jwksClient | signingKey => cases h
  | _ => rfl

theorem request_honoured {rest : Prog Answer (Except Fault Reply)} (h : Reaches req.serve.run t rest) {l m : History Answer}
    {q : Ask} {r : Answer q} (hsplit : t = l ++ ⟨q, r⟩ :: m) : Allowed req l q :=
  ((keeps_reaches (fun _ _ _ => trivial) (request_keeps req) h).2 l q r m hsplit).1

/-- The caller is told before anything is asked for it. -/
theorem identity_settled {rest : Prog Answer (Except Fault Reply)} (h : Reaches req.serve.run t rest)
    {l m : History Answer} {q : Ask} {r : Answer q} (hsplit : t = l ++ ⟨q, r⟩ :: m) (hacting : acting q = true) :
    identity l = identity t := by
  have hq : subjectIn ⟨q, r⟩ = none := by
    cases q with
    | decode => cases hacting
    | _ => rfl
  have hlater : m.findSome? subjectIn = none := by
    refine List.findSome?_eq_none_iff.mpr fun e he => ?_
    refine Option.eq_none_iff_forall_ne_some.mpr fun sub hsub => ?_
    obtain ⟨token, key, algorithms, issuer, payload, rfl, -⟩ := subjectIn_some hsub
    obtain ⟨m₁, m₂, rfl⟩ := List.append_of_mem he
    -- a token decoded here would have been decoded after a request for the caller
    have hdecode := request_honoured h (l := l ++ ⟨q, r⟩ :: m₁) (by rw [hsplit, List.append_assoc]; rfl)
    have hverifying := List.all_eq_true.mp hdecode.2.2 ⟨q, r⟩ (List.mem_append_right _ List.mem_cons_self)
    exact Bool.false_ne_true ((acting_other (e := ⟨q, r⟩) hacting).symm.trans hverifying)
  rw [identity, identity, hsplit, List.findSome?_append, List.findSome?_cons, hq, hlater, Option.or_none]

def deletion : Request := ⟨some "Bearer tk", .kbDeleteDocument "d1" "global"⟩

theorem deletion_starts : Reaches deletion.serve.run []
    ((show Call String from do return (← verifySupabaseJwt "tk").getD sandboxUserId) >>= fun userId =>
      kbDeleteDocument userId "d1" "global").run := by
  have htoken : extractBearerToken (some "Bearer tk") = some "tk" := by decide
  have hstart : Reaches deletion.serve.run [] deletion.serve.run := .start
  unfold Request.serve resolveUserId deletion at hstart ⊢
  rw [htoken] at hstart ⊢
  exact hstart

theorem deletion_reaches : ∃ t, Reaches deletion.serve.run t (.done (.ok (.json 200 (.obj [("deleted", .str "d1")])))) ∧
    t.length = 11 ∧ identity t = "ann" := by
  have h := deletion_starts.answered (q := Ask.header "tk") (.ok (.obj [("alg", .str "ES256")]) : Except JwtFault Json)
  have h := h.answered (q := Ask.jwksClient) true
  have h := h.answered (q := Ask.signingKey "tk") (.ok "pk" : Except Fault String)
  have h := h.answered (q := Ask.env "SUPABASE_JWT_ISSUER") (none : Option String)
  have h := h.answered (q := Ask.decode "tk" (.jwks "pk") ["ES256"] none)
    (.ok (.obj [("sub", .str "ann")]) : Except JwtFault Json)
  have h := h.answered (q := Ask.env "SUPABASE_URL") (some "u" : Option String)
  have h := h.answered (q := Ask.secret "SUPABASE_SERVICE_ROLE_KEY") (.ok (some "k") : Except Fault (Option String))
  have h := h.answered (q := Ask.profile "ann")
    (.ok ⟨200, .ok (.arr [.obj [("is_admin", .bool true)]])⟩ : Except Fault Http)
  have h := h.answered (q := Ask.env "GRAPHRAG_SERVICE_URL") (some "u" : Option String)
  have h := h.answered (q := Ask.env "GRAPHRAG_API_KEY") (some "k" : Option String)
  have h := h.answered (q := Ask.kb .delete ("/api/documents/" ++ "d1") "global" .none)
    (.ok ⟨200, .ok .null⟩ : Except Fault Http)
  exact ⟨_, h, rfl, rfl⟩

/-- Whatever a request contains and whatever the world answers, it asks what its route is for,
    for one identity, and an identity other than the sandbox was verified. -/
theorem gateway_trust_boundary {rest : Prog Answer (Except Fault Reply)} (h : Reaches req.serve.run t rest) :
    (∀ l q r m, t = l ++ ⟨q, r⟩ :: m → Allowed req l q ∧ (acting q = true → identity l = identity t)) ∧
      (identity t ≠ sandboxUserId → Verified req t) := by
  refine ⟨fun l q r m hsplit => ⟨request_honoured h hsplit, identity_settled h hsplit⟩, fun hcaller => ?_⟩
  cases hsubject : t.findSome? subjectIn with
  | none =>
    rw [identity, hsubject] at hcaller
    exact absurd rfl hcaller
  | some sub =>
    have hidentity : identity t = sub := by rw [identity, hsubject]; rfl
    obtain ⟨e, he, hsub⟩ := List.exists_of_findSome?_eq_some hsubject
    obtain ⟨token, key, algorithms, issuer, payload, rfl, hpayload⟩ := subjectIn_some hsub
    obtain ⟨l, m, hsplit⟩ := List.append_of_mem he
    obtain ⟨htoken, hkey, -⟩ := request_honoured h hsplit
    refine ⟨token, key, algorithms, issuer, payload, he, htoken, ?_, hpayload.trans (congrArg some hidentity.symm)⟩
    rw [hsplit]
    exact hkey.mono _

theorem gateway_trust_boundary_deletion :
    ∃ t rest, Reaches deletion.serve.run t rest ∧ t.length = 11 ∧
      (∀ l q r m, t = l ++ ⟨q, r⟩ :: m → Allowed deletion l q ∧ (acting q = true → identity l = "ann")) ∧
        Verified deletion t := by
  obtain ⟨t, h, hlength, hidentity⟩ := deletion_reaches
  obtain ⟨hasked, hverified⟩ := gateway_trust_boundary h
  rw [hidentity] at hasked hverified
  exact ⟨t, _, h, hlength, hasked, hverified (by decide)⟩

/-- Who may not use a route is told so, unless telling who it is raised; who may is not; and a
    write is reported only when it was accepted. -/
theorem gateway_replies {result : Except Fault Reply} (h : Reaches req.serve.run t (.done result)) : Ended req t result :=
  (keeps_reaches (fun _ _ _ => trivial) (request_keeps req) h).1

def anonymous : Request := ⟨none, .kbDocuments⟩

theorem gateway_replies_deletion :
    (∃ t, Reaches deletion.serve.run t (.done (.ok (.json 200 (.obj [("deleted", .str "d1")])))) ∧ identity t = "ann" ∧
      Accepted t) ∧
    ∃ t reply, Reaches anonymous.serve.run t (.done (.ok reply)) ∧ reply.status = 401 := by
  constructor
  · obtain ⟨t, h, -, hidentity⟩ := deletion_reaches
    exact ⟨t, h, hidentity, (gateway_replies h).written rfl _ rfl rfl⟩
  · have h : Reaches anonymous.serve.run [] (.done (.ok (detail 401 "authentication required for the knowledge base"))) := .start
    have hno : ¬Admitted anonymous.route [] := fun hyes => hyes.1.elim nofun fun hcaller => hcaller rfl
    refine ⟨[], _, h, ?_⟩
    obtain ⟨reply, hreply, hstatus⟩ | ⟨e, hraised, -⟩ := (gateway_replies h).refused hno
    · cases hreply
      exact hstatus
    · cases hraised

end CoreHeartbeat.Gateway
