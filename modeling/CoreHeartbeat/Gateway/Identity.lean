/-
  CoreHeartbeat.Gateway.Identity — who a request is from (`resolve_user_id` of `auth.py`), and
  what the gateway asks of the world to tell and to serve it.

  A bearer token is verified locally: its own header names the algorithm, and with it the key, a
  published one for the asymmetric algorithms and the shared secret for HS256. A caller whose
  token does not verify, or who has none, is the sandbox user. The token library (`jwt`) is
  behind requests; the headers of the edge's service token are only logged and left out.

  `Ask` has everything that a request to the gateway leads to outside the process: settings and
  secrets, the token library, the table of profiles, the bucket, docling, the Knowledge base,
  the folder of uploads, and the turn of Knowledge chat. A request is a program of these
  (`Lib.Dialogue`), so that what it asks, and in which order, can be read off its history.

  `JwtFault` tells a `PyJWTError`, which is caught and makes the caller the sandbox user, from
  any other exception, which is not caught and leaves the dependency (a secret file that is no
  UTF-8 is such a one). The library checks the expiry, the audience and, where one is
  configured, the issuer; what it makes of them is its own.
-/

import CoreHeartbeat.Calendar.AllDay
import CoreHeartbeat.Lib.Dialogue
import CoreHeartbeat.Services.Http
import CoreHeartbeat.Uploads.Routes

namespace CoreHeartbeat.Gateway

open Dialogue (Py Prog request)
open CoreHeartbeat.Calendar (given)
open CoreHeartbeat.Graph (Json)
open CoreHeartbeat.Knowledge (truthy)
open CoreHeartbeat.Services (Fault Http firstItem field)
open CoreHeartbeat.Uploads (sandboxUserId unquoted)

/-! ## Requests -/

inductive Key where
  | jwks (key : String)
  | secret (value : String)
  deriving DecidableEq, Repr

inductive Method where
  | get | post | delete
  deriving DecidableEq, Repr

abbrev Bytes : Type := List UInt8

inductive KbBody where
  | none
  | ingest (file : Bytes) (filename : String) (replacesDocumentId : Option String)
  deriving DecidableEq, Repr

inductive FolderOp where
  | store (rawName : String)
  | list
  | delete (name : String)
  deriving DecidableEq, Repr

inductive Ask where
  | env (name : String)
  | secret (name : String)
  /-- `jwt.get_unverified_header`. -/
  | header (token : String)
  /-- The memoized `PyJWKClient`: whether there is one. -/
  | jwksClient
  /-- `client.get_signing_key_from_jwt(token).key`. -/
  | signingKey (token : String)
  /-- `jwt.decode`, with the audiences `authenticated` and `anon`. -/
  | decode (token : String) (key : Key) (algorithms : List String) (issuer : Option String)
  /-- GET `profiles?id=eq.<user>`. -/
  | profile (userId : String)
  /-- S3 reads and writes in the bucket of documents. -/
  | getObject (key : String)
  | putObject (key : String) (text : String)
  /-- `parse_document`. -/
  | extract (data : Bytes) (filename : String) (contentType : Option String)
  /-- A request to the Knowledge base with `X-User-Id: owner`. -/
  | kb (method : Method) (path owner : String) (body : KbBody)
  | folder (op : FolderOp)
  /-- `knowledge_chat.run` for a user. -/
  | chat (userId : String)

/-- What `jwt` raises: a `PyJWTError`, or anything else. -/
inductive JwtFault where
  | jwt (text : String)
  | fault (f : Fault)

inductive FolderFault where
  | upload (status : Nat) (detail : String)
  | fault (f : Fault)

def Answer : Ask → Type
  | .env _ => Option String
  | .secret _ => Except Fault (Option String)
  | .header _ => Except JwtFault Json
  | .jwksClient => Bool
  | .signingKey _ => Except Fault String
  | .decode _ _ _ _ => Except JwtFault Json
  | .profile _ => Except Fault Http
  | .getObject _ => Except Fault Bytes
  | .putObject _ _ => Except Fault Unit
  | .extract _ _ _ => Except Fault String
  | .kb _ _ _ _ => Except Fault Http
  | .folder _ => Except FolderFault Json
  | .chat _ => Unit

abbrev Call (α : Type) : Type := Py Answer Fault α

def ask (q : Ask) : Call (Answer q) := liftM (request (π := Answer) q)

def outcome {α : Type} (answer : Except Fault α) : Call α := liftM answer

/-! ## Tokens -/

def bearerPrefix : String := "bearer "

/-- `extract_bearer_token`, of the `Authorization` header. -/
def extractBearerToken (authorization : Option String) : Option String :=
  match given authorization with
  | none => none
  | some header =>
    if (header.toList.take bearerPrefix.toList.length).map Char.toLower = bearerPrefix.toList then
      given (some (String.ofList (PyText.strip (header.toList.drop bearerPrefix.toList.length))))
    else none

def jwtAlgorithms : List String := ["HS256"]

def asymmetricAlgorithms : List String := ["RS256", "ES256"]

def asymmetricSigningKey (token : String) : Call (Option Key) := do
  let client : Bool ← ask .jwksClient
  if client then
    match ← ask (.signingKey token) with
    | .ok key => return some (.jwks key)
    | .error _ => return none
  else return none

def decodeAndExtractSub (token : String) (key : Key) (algorithms : List String) : Call (Option String) := do
  let issuer ← ask (.env "SUPABASE_JWT_ISSUER")
  match ← ask (.decode token key algorithms (given issuer)) with
  | .error (.jwt _) => return none
  | .error (.fault f) => throw f
  | .ok payload =>
    match ← outcome (field payload "sub") with
    | .str sub => return given (some sub)
    | _ => return none

def verifyHs256 (token : String) : Call (Option String) := do
  let value ← outcome (← ask (.secret "SUPABASE_JWT_SECRET"))
  match given value with
  | none => return none
  | some value =>
    if PyText.strip value.toList = [] then return none
    else decodeAndExtractSub token (.secret value) jwtAlgorithms

/-- The algorithm an asymmetric token names. -/
def asymmetricAlg (alg : Json) : Option String :=
  match alg with
  | .str name => if name ∈ asymmetricAlgorithms then some name else none
  | _ => none

def verifySupabaseJwt (token : String) : Call (Option String) := do
  match ← ask (.header token) with
  | .error (.jwt _) => return none
  | .error (.fault f) => throw f
  | .ok header =>
    let alg ← outcome (field header "alg")
    match asymmetricAlg alg with
    | none => verifyHs256 token
    | some name =>
      match ← asymmetricSigningKey token with
      | some key => decodeAndExtractSub token key [name]
      | none => verifyHs256 token

def resolveUserId (authorization : Option String) : Call String := do
  match extractBearerToken authorization with
  | none => return sandboxUserId
  | some token => return (← verifySupabaseJwt token).getD sandboxUserId

end CoreHeartbeat.Gateway
