/-
  CoreHeartbeat.Gateway.Verified — what a request may ask, and who its caller is told to be.

  A history shows who the caller turned out to be (`identity`: the subject of a payload that the
  token library verified, or the sandbox user) and whether the table of profiles said it is an
  admin (`adminSaid`); the contract of a request is stated on both. Nothing is read off the
  token itself, and nothing off what a client sends along.

  `Allowed` is the contract, by request:
  - settings and secrets by name, and the token of this request's own header;
  - a token is decoded once nothing but verifying was done, and with the key its algorithm
    belongs to (`RightKey`);
  - a profile is asked for on the routes that are for admins, and is the caller's own;
  - an object is the original that the route names, of the caller; docling gets that original;
  - a store is the extracted text of it, the Knowledge base gets what `Route.asksKb` says, the
    folder what `Route.folderOp?` says, and a turn of Knowledge chat is the caller's; of these
    there is at most one (`isWork`).

  Proved: telling who it is keeps the contract and comes to the caller before anything is asked
  for it (`resolveUserId_keeps`), through each of its steps (`decodeAndExtractSub_keeps`,
  `verifyHs256_keeps`, `verifySupabaseJwt_keeps`).
-/

import CoreHeartbeat.Gateway.Routes

namespace CoreHeartbeat.Gateway

open Dialogue
open CoreHeartbeat.Calendar (given)
open CoreHeartbeat.Graph (Json)
open CoreHeartbeat.Services (Fault Http field)
open CoreHeartbeat.Uploads (sandboxUserId unquoted)

/-! ## What a history shows -/

def subject (payload : Json) : Option String :=
  match field payload "sub" with
  | .ok (.str sub) => given (some sub)
  | _ => none

def subjectIn (e : Exchange Answer) : Option String :=
  match e with
  | ⟨.decode _ _ _ _, .ok payload⟩ => subject payload
  | _ => none

def identity (t : History Answer) : String := (t.findSome? subjectIn).getD sandboxUserId

/-- The table of profiles said that the user is an admin. -/
def saysAdmin (userId : String) (e : Exchange Answer) : Bool :=
  match e with
  | ⟨.profile v, .ok r⟩ =>
    v = userId && match adminIn r with
      | .ok admin => admin
      | .error _ => false
  | _ => false

def adminSaid (userId : String) (t : History Answer) : Bool := t.any (saysAdmin userId)

/-- What a route is there for, and asks at most once. -/
def isWork (e : Exchange Answer) : Bool :=
  match e.asked with
  | .putObject _ _ | .kb _ _ _ _ | .folder _ | .chat _ => true
  | _ => false

/-- A request that is part of telling who the caller is, short of decoding the token. -/
def verifying (e : Exchange Answer) : Bool :=
  match e.asked with
  | .env _ | .secret _ | .header _ | .jwksClient | .signingKey _ => true
  | _ => false

def acting : Ask → Bool
  | .profile _ | .getObject _ | .putObject _ _ | .extract _ _ _ | .kb _ _ _ _ | .folder _ | .chat _ => true
  | _ => false

/-! ## What a route is for -/

def Route.docId? : Route → Option String
  | .parseDocument docId _ _ | .kbIngest docId _ _ _ => some docId
  | _ => none

def Route.isGlobal : Route → Bool
  | .kbIngest _ _ scope _ => scope = .global
  | .kbDeleteDocument _ scope => scope = "global"
  | _ => false

def Route.isUpload : Route → Bool
  | .uploadFile _ | .listUploads | .deleteUpload _ => true
  | _ => false

def Route.isJob : Route → Bool
  | .kbJob _ => true
  | _ => false

def Route.isWrite : Route → Bool
  | .kbIngest _ _ _ _ | .kbDeleteDocument _ _ => true
  | _ => false

def Route.owner (userId : String) (route : Route) : String := if route.isGlobal then globalOwner else userId

/-- Who may use the route: anyone the status of an ingest, a user the rest, an admin what
    is shared. -/
def Route.admits (route : Route) (userId : String) (admin : Bool) : Prop :=
  (route.isJob = true ∨ userId ≠ sandboxUserId) ∧ ((route.isGlobal || route.isUpload) = true → admin = true)

def Admitted (route : Route) (t : History Answer) : Prop :=
  route.admits (identity t) (adminSaid (identity t) t)

/-- What a route asks of the Knowledge base, with an original that it may send. -/
def Route.asksKb (maySend : Bytes → Prop) : Route → Method → String → KbBody → Prop
  | .kbIngest _ filename _ replaces, method, path, body =>
    method = .post ∧ path = "/api/ingest" ∧ ∃ data, maySend data ∧ body = .ingest data filename (given replaces)
  | .kbJob jobId, method, path, body => method = .get ∧ path = "/api/jobs/" ++ jobId ∧ body = .none
  | .kbDocuments, method, path, body => method = .get ∧ path = "/api/documents" ∧ body = .none
  | .kbDeleteDocument docId _, method, path, body =>
    method = .delete ∧ path = "/api/documents/" ++ docId ∧ body = .none
  | _, _, _, _ => False

def Route.folderOp? : Route → Option FolderOp
  | .uploadFile header =>
    if PyText.strip (unquoted header).toList = [] then none else some (.store (unquoted header))
  | .listUploads => some .list
  | .deleteUpload name => some (.delete (unquoted name))
  | _ => none

/-! ## The contract of a request -/

def settings : List String := ["SUPABASE_JWT_ISSUER", "SUPABASE_URL", "GRAPHRAG_SERVICE_URL", "GRAPHRAG_API_KEY"]

def secrets : List String := ["SUPABASE_JWT_SECRET", "SUPABASE_SERVICE_ROLE_KEY"]

/-- A token is only ever decoded with the key its algorithms belong to: a published one that
    it named for an asymmetric algorithm, or the shared secret for HS256. -/
def RightKey (t : History Answer) (token : String) (key : Key) (algorithms : List String) : Prop :=
  (∃ k alg, key = .jwks k ∧ algorithms = [alg] ∧ alg ∈ asymmetricAlgorithms ∧
      (⟨.signingKey token, .ok k⟩ : Exchange Answer) ∈ t) ∨
    ∃ s, key = .secret s ∧ PyText.strip s.toList ≠ [] ∧ algorithms = jwtAlgorithms ∧
      (⟨.secret "SUPABASE_JWT_SECRET", .ok (some s)⟩ : Exchange Answer) ∈ t

theorem RightKey.mono {t : History Answer} {token : String} {key : Key} {algorithms : List String}
    (h : RightKey t token key algorithms) (m : History Answer) : RightKey (t ++ m) token key algorithms := by
  rcases h with ⟨k, alg, hkey, halgs, halg, hmem⟩ | ⟨s, hkey, hblank, halgs, hmem⟩
  · exact Or.inl ⟨k, alg, hkey, halgs, halg, List.mem_append_left _ hmem⟩
  · exact Or.inr ⟨s, hkey, hblank, halgs, List.mem_append_left _ hmem⟩

/-- The text was extracted from the original that was uploaded. -/
def Extracted (t : History Answer) (userId docId text : String) : Prop :=
  ∃ data filename contentType,
    (⟨.getObject (documentKey userId docId "original"), .ok data⟩ : Exchange Answer) ∈ t ∧
      (⟨.extract data filename contentType, .ok text⟩ : Exchange Answer) ∈ t

/-- The original was read for the user, and is not too large. -/
def Fetched (t : History Answer) (userId docId : String) (data : Bytes) : Prop :=
  (⟨.getObject (documentKey userId docId "original"), .ok data⟩ : Exchange Answer) ∈ t ∧ data.length ≤ maxDocBytes

def Route.mayUse (route : Route) (t : History Answer) (userId : String) (data : Bytes) : Prop :=
  ∃ docId ∈ route.docId?, Fetched t userId docId data

theorem Route.mayUse_mono {route : Route} {t : History Answer} {userId : String} {data : Bytes}
    (h : route.mayUse t userId data) (m : History Answer) : route.mayUse (t ++ m) userId data := by
  obtain ⟨docId, hdoc, hmem, hsize⟩ := h
  exact ⟨docId, hdoc, List.mem_append_left _ hmem, hsize⟩

theorem Route.asksKb_mono {route : Route} {P Q : Bytes → Prop} (hPQ : ∀ data, P data → Q data) {method : Method}
    {path : String} {body : KbBody} (h : route.asksKb P method path body) : route.asksKb Q method path body := by
  cases route with
  | kbIngest =>
    obtain ⟨hmethod, hpath, data, hdata, hbody⟩ := h
    exact ⟨hmethod, hpath, data, hPQ data hdata, hbody⟩
  | _ => exact h

def Allowed (req : Request) (t : History Answer) : Ask → Prop
  | .env name => name ∈ settings
  | .secret name => name ∈ secrets
  | .header token | .signingKey token => extractBearerToken req.authorization = some token
  | .jwksClient => (extractBearerToken req.authorization).isSome = true
  | .decode token key algorithms _ =>
    extractBearerToken req.authorization = some token ∧ RightKey t token key algorithms ∧ t.all verifying = true
  | .profile userId =>
    userId = identity t ∧ identity t ≠ sandboxUserId ∧ (req.route.isGlobal || req.route.isUpload) = true
  | .getObject key =>
    Admitted req.route t ∧ ∃ docId ∈ req.route.docId?, key = documentKey (identity t) docId "original"
  | .extract data filename contentType =>
    Admitted req.route t ∧ req.route.mayUse t (identity t) data ∧ ∃ docId, req.route = .parseDocument docId filename contentType
  | .putObject key text =>
    Admitted req.route t ∧ t.any isWork = false ∧ ∃ docId filename contentType,
      req.route = .parseDocument docId filename contentType ∧ key = documentKey (identity t) docId "extracted.txt" ∧
        Extracted t (identity t) docId text
  | .kb method path owner body =>
    Admitted req.route t ∧ t.any isWork = false ∧ owner = req.route.owner (identity t) ∧
      req.route.asksKb (req.route.mayUse t (identity t)) method path body
  | .folder op => Admitted req.route t ∧ t.any isWork = false ∧ req.route.folderOp? = some op
  | .chat userId => Admitted req.route t ∧ t.any isWork = false ∧ userId = identity t ∧ req.route = .kbChatStream

def requestContract (req : Request) : Contract Answer where
  asks t q := Allowed req t q
  answers _ _ _ := True

/-! ## Telling who it is -/

variable {req : Request} {t : History Answer}

structure Plain (e : Exchange Answer) : Prop where
  subject : subjectIn e = none
  admin : ∀ userId, saysAdmin userId e = false
  work : isWork e = false

/-- What is known between the requests of a route. -/
structure Knows (userId : String) (admin : Bool) (t : History Answer) : Prop where
  identity : identity t = userId
  admin : adminSaid userId t = admin

/-- The same, before what the route is there for. -/
structure At (userId : String) (admin : Bool) (t : History Answer) : Prop extends Knows userId admin t where
  noWork : t.any isWork = false

theorem identity_snoc {e : Exchange Answer} (h : subjectIn e = none) : identity (t ++ [e]) = identity t := by
  unfold identity
  rw [List.findSome?_append, List.findSome?_singleton, h, Option.or_none]

theorem Knows.snoc {userId : String} {admin : Bool} (h : Knows userId admin t) {e : Exchange Answer}
    (hsubject : subjectIn e = none) (hadmin : saysAdmin userId e = false) : Knows userId admin (t ++ [e]) := by
  refine ⟨(identity_snoc hsubject).trans h.identity, ?_⟩
  unfold adminSaid
  simp only [List.any_append, List.any_cons, List.any_nil, hadmin, Bool.or_false]
  exact h.admin

theorem Knows.admitted {userId : String} {admin : Bool} (h : Knows userId admin t) (route : Route) :
    Admitted route t ↔ route.admits userId admin := by
  unfold Admitted
  rw [h.identity, h.admin]

theorem At.snoc {userId : String} {admin : Bool} (h : At userId admin t) {e : Exchange Answer} (he : Plain e) :
    At userId admin (t ++ [e]) := by
  refine ⟨h.toKnows.snoc he.subject (he.admin userId), ?_⟩
  simp only [List.any_append, List.any_cons, List.any_nil, he.work, Bool.or_false]
  exact h.noWork

theorem verifying_plain {e : Exchange Answer} (h : verifying e = true) : Plain e := by
  obtain ⟨q, r⟩ := e
  cases q with
  | env | secret | header | jwksClient | signingKey => exact ⟨rfl, fun _ => rfl, rfl⟩
  | _ => cases h

/-- Nothing but verifying was done. -/
def Unknown (t : History Answer) : Prop := t.all verifying = true

theorem Unknown.snoc (h : Unknown t) {e : Exchange Answer} (he : verifying e = true) : Unknown (t ++ [e]) := by
  unfold Unknown at *
  rw [List.all_append, h, List.all_cons, he]
  rfl

theorem Unknown.plain (h : Unknown t) {e : Exchange Answer} (he : e ∈ t) : Plain e :=
  verifying_plain (List.all_eq_true.mp h e he)

theorem Unknown.subject (h : Unknown t) : t.findSome? subjectIn = none :=
  List.findSome?_eq_none_iff.mpr fun _ he => (h.plain he).subject

theorem Unknown.admin (h : Unknown t) (userId : String) : adminSaid userId t = false :=
  List.any_eq_false.mpr fun _ he => by rw [(h.plain he).admin userId]; exact Bool.false_ne_true

theorem Unknown.work (h : Unknown t) : t.any isWork = false :=
  List.any_eq_false.mpr fun _ he => by rw [(h.plain he).work]; exact Bool.false_ne_true

/-- The caller was told from what `result` is, and nothing was asked for it yet. -/
structure Told (t : History Answer) (result : Except Fault (Option String)) : Prop where
  admin : ∀ userId, adminSaid userId t = false
  work : t.any isWork = false
  identity : ∀ sub, result = .ok sub → identity t = sub.getD sandboxUserId

theorem Unknown.told (h : Unknown t) {result : Except Fault (Option String)}
    (hresult : ∀ sub, result = .ok sub → sub = none) : Told t result where
  admin := h.admin
  work := h.work
  identity sub hsub := by
    rw [hresult sub hsub, identity, h.subject]

theorem Unknown.decoded (h : Unknown t) {token : String} {key : Key} {algorithms : List String}
    {issuer : Option String} {answer : Except JwtFault Json} {result : Except Fault (Option String)}
    (hresult : ∀ sub, result = .ok sub → subjectIn ⟨.decode token key algorithms issuer, answer⟩ = sub) :
    Told (t ++ [⟨.decode token key algorithms issuer, answer⟩]) result where
  admin userId := by
    unfold adminSaid
    rw [List.any_append]
    exact Bool.or_eq_false_iff.mpr ⟨h.admin userId, rfl⟩
  work := by
    rw [List.any_append]
    exact Bool.or_eq_false_iff.mpr ⟨h.work, rfl⟩
  identity sub hsub := by
    rw [identity, List.findSome?_append, h.subject, List.findSome?_singleton, hresult sub hsub, Option.none_or]

theorem decodeAndExtractSub_keeps (h : Unknown t) {token : String} {key : Key} {algorithms : List String}
    (htoken : extractBearerToken req.authorization = some token) (hkey : RightKey t token key algorithms) :
    Keeps (requestContract req) Told t (decodeAndExtractSub token key algorithms).run := by
  refine keeps_asked (by simp [requestContract, Allowed, settings]) fun issuer _ => ?_
  have h := h.snoc (e := ⟨.env "SUPABASE_JWT_ISSUER", issuer⟩) rfl
  refine keeps_asked ⟨htoken, hkey.mono _, h⟩ fun answer _ => ?_
  cases answer with
  | error fault =>
    cases fault with
    | jwt text =>
      refine h.decoded fun sub hsub => ?_
      cases hsub
      rfl
    | fault f => exact h.decoded nofun
  | ok payload =>
    refine keeps_given (fun e _ => h.decoded nofun) fun v hv => ?_
    cases v with
    | str sub =>
      refine h.decoded fun sub' hsub => ?_
      cases hsub
      simp only [subjectIn, subject, hv]
    | _ =>
      refine h.decoded fun sub' hsub => ?_
      cases hsub
      simp only [subjectIn, subject, hv]

theorem asymmetricSigningKey_keeps (h : Unknown t) {token : String}
    (htoken : extractBearerToken req.authorization = some token) :
    Keeps (requestContract req) (fun t' result => Unknown t' ∧
        ∀ key, result = .ok (some key) → ∃ k, key = .jwks k ∧ (⟨.signingKey token, .ok k⟩ : Exchange Answer) ∈ t')
      t (asymmetricSigningKey token).run := by
  refine keeps_asked (Option.isSome_of_eq_some htoken) fun (client : Bool) _ => ?_
  have h := h.snoc (e := ⟨.jwksClient, client⟩) rfl
  cases client with
  | false => exact ⟨h, nofun⟩
  | true =>
    refine keeps_asked htoken fun answer _ => ?_
    have h := h.snoc (e := ⟨.signingKey token, answer⟩) rfl
    cases answer with
    | error e => exact ⟨h, nofun⟩
    | ok k =>
      refine ⟨h, fun key hkey => ?_⟩
      cases hkey
      exact ⟨k, rfl, List.mem_append_right _ (List.mem_singleton.mpr rfl)⟩

theorem verifyHs256_keeps (h : Unknown t) {token : String} (htoken : extractBearerToken req.authorization = some token) :
    Keeps (requestContract req) Told t (verifyHs256 token).run := by
  refine keeps_asked (by simp [requestContract, Allowed, secrets]) fun answer _ => ?_
  have h := h.snoc (e := ⟨.secret "SUPABASE_JWT_SECRET", answer⟩) rfl
  refine keeps_given (fun e _ => h.told nofun) fun value hvalue => ?_
  cases hgiven : given value with
  | none =>
    refine h.told fun sub hsub => ?_
    cases hsub
    rfl
  | some secret =>
    dsimp only
    split
    · refine h.told fun sub hsub => ?_
      cases hsub
      rfl
    · rename_i hblank
      obtain ⟨rfl, -⟩ := Option.filter_eq_some_iff.mp hgiven
      cases hvalue
      refine decodeAndExtractSub_keeps h htoken (Or.inr ⟨secret, rfl, hblank, rfl, ?_⟩)
      exact List.mem_append_right _ (List.mem_singleton.mpr rfl)

theorem asymmetricAlg_some {alg : Json} {name : String} (h : asymmetricAlg alg = some name) :
    name ∈ asymmetricAlgorithms := by
  unfold asymmetricAlg at h
  split at h
  · split at h
    · cases h
      assumption
    · cases h
  · cases h

theorem verifySupabaseJwt_keeps (h : Unknown t) {token : String}
    (htoken : extractBearerToken req.authorization = some token) :
    Keeps (requestContract req) Told t (verifySupabaseJwt token).run := by
  refine keeps_asked htoken fun answer _ => ?_
  have h := h.snoc (e := ⟨.header token, answer⟩) rfl
  cases answer with
  | error fault =>
    cases fault with
    | jwt text =>
      refine h.told fun sub hsub => ?_
      cases hsub
      rfl
    | fault f => exact h.told nofun
  | ok header =>
    refine keeps_given (fun e _ => h.told nofun) fun alg _ => ?_
    cases hname : asymmetricAlg alg with
    | none => exact verifyHs256_keeps h htoken
    | some name =>
      refine keeps_then (keeps_mono (asymmetricSigningKey_keeps h htoken) fun t' result hresult => ?_)
      obtain ⟨h, hsigning⟩ := hresult
      cases result with
      | error e => exact h.told nofun
      | ok key =>
        cases key with
        | none => exact verifyHs256_keeps h htoken
        | some key =>
          obtain ⟨k, rfl, hmem⟩ := hsigning key rfl
          exact decodeAndExtractSub_keeps h htoken (Or.inl ⟨k, name, rfl, rfl, asymmetricAlg_some hname, hmem⟩)

def Resolved (t : History Answer) (result : Except Fault String) : Prop :=
  ∀ userId, result = .ok userId → At userId false t

theorem resolveUserId_keeps : Keeps (requestContract req) Resolved [] (resolveUserId req.authorization).run := by
  have hunknown : Unknown [] := rfl
  unfold resolveUserId
  cases htoken : extractBearerToken req.authorization with
  | none =>
    intro userId h
    cases h
    exact ⟨⟨rfl, rfl⟩, rfl⟩
  | some token =>
    refine keeps_then (keeps_mono (verifySupabaseJwt_keeps hunknown htoken) fun t result htold => ?_)
    cases result with
    | error e => exact nofun
    | ok sub =>
      intro userId h
      cases h
      exact ⟨⟨htold.identity sub rfl, htold.admin _⟩, htold.work⟩

end CoreHeartbeat.Gateway
