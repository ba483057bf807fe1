/-
  CoreHeartbeat.Calendar.Tokens — the calendar tools against the world (`run_calendar_tool` of
  `tools/google_calendar.py`): the user's credentials in Supabase, Google's token endpoint, the
  Calendar API and the clock.

  A call is a program of requests: it loads the caller's credentials, refreshes the access token
  when the stored one has a minute or less left, stores what it was given, and talks to the
  calendar with the token. Any request may raise, and any answer may have any status and any
  body. Arguments are texts and numbers or absent, as the schemas declare them.

  Instants are microseconds since the epoch. `datetime.fromisoformat`, the rendering of an
  instant, the attachment of a time zone and the conversions of numbers come from Python as
  parameters, with the exceptions that the source catches as `none`. What a listing shows of an
  event is `fmtEvent` where its fields are texts.

  Two kinds of exceptions leave the helpers: the module's own (`CalendarError`, and
  `NotConnected` for a user without credentials or with revoked ones), and the rest.
  `runCalendarTool` answers all of them with a text (`Exc.told`), so that a call never raises. A
  write of the refreshed token that fails is logged and changes nothing for the call.

  The order of requests is what `TokenSafety` is about.
-/

import CoreHeartbeat.Calendar.AllDay
import CoreHeartbeat.Lib.Dialogue
import CoreHeartbeat.Services.Http

namespace CoreHeartbeat.Calendar

open Dialogue (Py Prog request)
open CoreHeartbeat.Graph (Json)
open CoreHeartbeat.Knowledge (truthy orElse items)
open CoreHeartbeat.Services (Fault Http item firstItem field)

/-! ## Requests -/

inductive Method where
  | get | post | patch | delete
  deriving DecidableEq, Repr

/-- The query of a listing; every listing has `singleEvents` and `orderBy` too. -/
structure ListParams where
  timeMin : String
  timeMax : String
  maxResults : Int
  q : Option String
  deriving DecidableEq, Repr

/-- What the module asks of the world. An instant is in microseconds. -/
inductive Ask where
  | now
  /-- GET `google_credentials?user_id=eq.<user>`. -/
  | loadCredentials (userId : String)
  /-- PATCH of that row. -/
  | saveAccessToken (userId : String) (accessToken : Json) (expiry : Int)
  /-- POST to the token endpoint. -/
  | refresh (refreshToken : Json)
  | calendar (method : Method) (path : String) (token : Json) (params : Option ListParams) (body : Option EventBody)

/-- The clock answers an instant; a request is answered, or raises in the client. -/
def Answer : Ask → Type
  | .now => Int
  | _ => Except Fault Http

inductive Exc where
  | notConnected
  | calendarError (text : String)
  | fault (f : Fault)
  deriving DecidableEq, Repr

instance : MonadLift (Except Fault) (Except Exc) := ⟨Except.mapError .fault⟩

abbrev Call (α : Type) : Type := Py Answer Exc α

structure Config where
  supabaseUrl : Option String
  serviceRole : Option String
  clientId : Option String
  clientSecret : Option String

structure Python where
  unicode : PyText.Unicode
  /-- `datetime.fromisoformat`: the instant, and whether it has an offset. -/
  fromIsoFormat : String → Option (Int × Bool)
  /-- `datetime.fromisoformat(v).replace(tzinfo=ZoneInfo(tz)).isoformat()`, by its steps. -/
  localized : String → Option (String → Option String)
  rfc3339 : Int → String
  hasOffset : String → Bool
  /-- `int` of a float, by its `repr`, and of a text. -/
  intOfFloat : String → Option Int
  intOfText : String → Option Int
  repr : String → String
  /-- `_fmt_event` of what the calendar sends; where the fields are texts it is `fmtEvent`. -/
  fmt : Json → Except Raised String

def now : Call Int := liftM (request (π := Answer) .now)

def other (text : String) : Exc := .fault (.other text)

def sent (answer : Except Fault Http) : Except Fault Http := answer

variable (cfg : Config) (py : Python)

/-! ## Token storage -/

/-- A setting, or the `CalendarError` of one that is missing. -/
def setting (name : String) (value : Option String) : Except Exc String :=
  match given value with
  | some v => .ok v
  | none => .error (.calendarError (name ++ " is not set"))

/-- `_sb_url`, `_sb_headers`. -/
def supabase : Except Exc Unit := do
  let _ ← setting "SUPABASE_URL" cfg.supabaseUrl
  let _ ← setting "SUPABASE_SERVICE_ROLE_KEY" cfg.serviceRole

/-- `_load_credentials`: the first row, if there is one. -/
def loadCredentials (userId : String) : Call (Option Json) := do
  supabase cfg
  let r ← sent (← request (π := Answer) (.loadCredentials userId))
  r.raiseForStatus
  let rows ← r.json
  if truthy rows then return some (← firstItem rows) else return none

/-- `_save_access_token`. A refused write is logged. -/
def saveAccessToken (userId : String) (accessToken : Json) (expiry : Int) : Call Unit := do
  supabase cfg
  let _ ← now
  let _ ← sent (← request (π := Answer) (.saveAccessToken userId accessToken expiry))

def intOf (v : Json) : Except Exc Int :=
  match v with
  | .int n => .ok n
  | .bool b => .ok (if b then 1 else 0)
  | .float repr =>
    match py.intOfFloat repr with
    | some n => .ok n
    | none => .error (other "ValueError: cannot convert float to integer")
  | .str s =>
    match py.intOfText s with
    | some n => .ok n
    | none => .error (other "ValueError: invalid literal for int() with base 10")
  | _ => .error (other "TypeError: int() argument must be a string, a bytes-like object or a real number")

def maxInstant : Int := 253402300799999999

def minInstant : Int := -62135596800000000

def plusSeconds (at_ seconds : Int) : Except Exc Int :=
  let t := at_ + seconds * 1000000
  if minInstant ≤ t ∧ t ≤ maxInstant then .ok t else .error (other "OverflowError: date value out of range")

def refresh (userId : String) (creds : Json) : Call Json := do
  if (given cfg.clientId).isNone ∨ (given cfg.clientSecret).isNone then
    throw (.calendarError "Google OAuth is not configured (missing client id/secret)")
  let refreshToken ← item creds "refresh_token"
  let r ← sent (← request (π := Answer) (.refresh refreshToken))
  if r.status = 400 ∨ r.status = 401 then throw .notConnected
  r.raiseForStatus
  let body ← r.json
  let token ← item body "access_token"
  let t ← now
  let seconds ← intOf py (match body with
    | .obj fields => (fields.lookup "expires_in").getD (.int 3600)
    | _ => .null)
  let expiry ← plusSeconds t seconds
  saveAccessToken cfg userId token expiry
  return token

/-- The stored expiry and whether it has an offset; none where it is missing or no date. -/
def storedExpiry (creds : Json) : Except Exc (Option (Int × Bool)) :=
  match creds with
  | .obj fields =>
    match fields.lookup "expiry" with
    | none => .ok none
    | some (.str text) => .ok (py.fromIsoFormat text)
    | some _ => .error (other "TypeError: fromisoformat: argument must be str")
  | _ => .error (other "TypeError: string indices must be integers, not 'str'")

def expiryBuffer : Int := 60 * 1000000

/-- The end of `_access_token`: the stored token, or a refreshed one where it is due. -/
def unexpired (userId : String) (creds : Json) (expiry : Int) (aware : Bool) : Call Json := do
  let t ← now
  if !aware then throw (other "TypeError: can't compare offset-naive and offset-aware datetimes")
  else if expiry ≤ t + expiryBuffer then refresh cfg py userId creds
  else item creds "access_token"

def accessToken (userId : String) : Call Json := do
  match ← loadCredentials cfg userId with
  | none => throw .notConnected
  | some creds =>
    if !truthy creds then throw .notConnected
    else
      match ← storedExpiry py creds with
      | some stored => unexpired cfg py userId creds stored.1 stored.2
      | none => do unexpired cfg py userId creds (← now) true

/-! ## The Calendar API -/

def googleError (r : Http) : Except Exc (Json × String) :=
  let err : Option Json :=
    match r.json with
    | .error _ => none
    | .ok v =>
      match orElse v (.obj []) with
      | .obj fields => some (orElse ((fields.lookup "error").getD .null) (.obj []))
      | _ => none
  match err with
  | none => .ok (.str "", "")
  | some (.str text) => .ok (.str text, "")
  | some err => do
    let errors := orElse (← field err "errors") (.arr [])
    let reason ←
      if truthy errors then do
        match ← firstItem errors with
        | .obj fields => pure (orElse ((fields.lookup "reason").getD .null) (.str ""))
        | _ => pure (.str "")
      else pure (.str "")
    match orElse (← field err "message") (.str "") with
    | .str message => return (reason, String.ofList (PyText.strip message.toList))
    | _ => throw (other "AttributeError: object has no attribute 'strip'")

def forbiddenGuidance : List (String × String) :=
  [("insufficientPermissions",
      "Google Calendar refused the request because the connection doesn't grant calendar access. Open Settings → " ++
      "Integrations, disconnect Google Calendar, then connect it again and accept the calendar permission."),
    ("forbiddenForNonOrganizer",
      "Google Calendar won't allow that change because you aren't the event's organiser. Ask the organiser to " ++
      "change it, or add your own copy instead."),
    ("requiredAccessLevel", "That calendar is shared with you read-only, so it can't be changed here."),
    ("rateLimitExceeded", "Google Calendar is rate-limiting requests. Try again shortly."),
    ("userRateLimitExceeded", "Google Calendar is rate-limiting requests. Try again shortly."),
    ("dailyLimitExceeded",
      "The Google Calendar daily quota for this app is used up. It resets at midnight Pacific time."),
    ("quotaExceeded", "The Google Calendar quota for this app is used up. Try again later.")]

def explainStatus (r : Http) : Except Exc String := do
  let (reason, message) ← googleError r
  if r.status = 403 then
    match reason with
    | .arr _ => throw (other "TypeError: unhashable type: 'list'")
    | .obj _ => throw (other "TypeError: unhashable type: 'dict'")
    | .str s =>
      match forbiddenGuidance.lookup s with
      | some guidance => return guidance
      | none => return "Google Calendar denied the request" ++ (if message = "" then "" else " (" ++ message ++ ")") ++ "."
    | _ => return "Google Calendar denied the request" ++ (if message = "" then "" else " (" ++ message ++ ")") ++ "."
  else if r.status = 404 ∨ r.status = 410 then
    return "That calendar event no longer exists — it may already have been deleted or changed. Try listing your " ++
      "events again to get the current ones."
  else if r.status = 409 then return "That calendar event conflicts with an existing one."
  else if 500 ≤ r.status then return "Google Calendar is having trouble right now. Try again shortly."
  else return "Google Calendar returned " ++ toString r.status ++ (if message = "" then "" else ": " ++ message)

def cal (method : Method) (path : String) (token : Json) (params : Option ListParams) (body : Option EventBody) :
    Call Http := do
  let r ← sent (← request (π := Answer) (.calendar method path token params body))
  if r.status = 401 then throw .notConnected
  else if 400 ≤ r.status then do
    let _ ← googleError r
    let text ← explainStatus r
    throw (.calendarError text)
  else return r

def calendarTz (token : Json) : Call Json :=
  tryCatch (do
    let r ← cal .get "/calendars/primary" token none none
    let zone ← field (← r.json) "timeZone"
    return orElse zone (.str "UTC")) fun _ => return .str "UTC"

/-! ## The tools -/

structure ListArgs where
  query : Option String := none
  timeMin : Option String := none
  timeMax : Option String := none
  maxResults : Option Int := none

/-- The zone attached to a naive time; `ZoneInfo` takes no other value than a text. -/
def attached (attach : String → Option String) : Json → Option String
  | .str tz => attach tz
  | _ => none

/-- `_to_rfc3339` with its `tz_getter`, whose zone is looked up once. -/
def toRfc3339 (token : Json) (value : Option String) (default : String) (zone : Option Json) :
    Call (String × Option Json) :=
  match given value with
  | none => return (default, zone)
  | some value =>
    let v := String.ofList (PyText.strip value.toList)
    if py.hasOffset v then return (v, zone)
    else
      match py.localized v with
      | none => return (v, zone)
      | some attach =>
        match zone with
        | some tz => return ((attached attach tz).getD v, some tz)
        | none => do
          let tz ← calendarTz token
          return ((attached attach tz).getD v, some tz)

def searchWindow : Int := 180 * 86400 * 1000000

def defaultWindow : Int := 7 * 86400 * 1000000

def maxResultsCap : Int := 50

def shown {α : Type} (text : Except String α) : Except Exc α :=
  match text with
  | .ok a => .ok a
  | .error text => .error (other text)

def listEvents (userId : String) (args : ListArgs) : Call String := do
  let token ← accessToken cfg py userId
  let window := if (given args.query).isSome then searchWindow else defaultWindow
  let t ← now
  let lower ← toRfc3339 py token args.timeMin (py.rfc3339 t) none
  let t ← now
  let upper ← toRfc3339 py token args.timeMax (py.rfc3339 (t + window)) lower.2
  let asked := (args.maxResults.filter (· ≠ 0)).getD 25
  let params : ListParams := ⟨lower.1, upper.1, max 1 (min asked maxResultsCap), given args.query⟩
  let r ← cal .get "/calendars/primary/events" token (some params) none
  match ← r.json with
  | .obj fields =>
    let found := (fields.lookup "items").getD (.arr [])
    if !truthy found then return "No events found in that window."
    let lines ← shown ((← shown (items found)).mapM py.fmt)
    return "\n".intercalate lines
  | _ => throw (other "AttributeError: object has no attribute 'get'")

def send (token : Json) : Outgoing → Call String
  | .refused text => return text
  | .post body => do
    let r ← cal .post "/calendars/primary/events" token none (some body)
    return "Created event: " ++ (← shown (py.fmt (← r.json)))
  | .patch eventId body => do
    let r ← cal .patch ("/calendars/primary/events/" ++ eventId) token none (some body)
    return "Updated event: " ++ (← shown (py.fmt (← r.json)))

/-- `create_event`; the zone is looked up when nothing is missing. -/
def createEventAs (userId : String) (args : EventArgs) : Call String := do
  let token ← accessToken cfg py userId
  let complete := (given args.summary).isSome && (given args.start).isSome && (given args.end_).isSome
  let tz ← if complete then calendarTz token else pure (.str "UTC")
  send py token (← shown (createEvent py.unicode tz args))

/-- `update_event`; the zone is looked up when a time changes. -/
def updateEventAs (userId : String) (args : EventArgs) : Call String := do
  let token ← accessToken cfg py userId
  let moves := (given args.eventId).isSome && ((given args.start).isSome || (given args.end_).isSome)
  let tz ← if moves then calendarTz token else pure (.str "UTC")
  send py token (← shown (updateEvent py.unicode tz args))

def deleteEvent (userId : String) (args : EventArgs) : Call String := do
  let token ← accessToken cfg py userId
  match given args.eventId with
  | none => return "error: delete_calendar_event needs event_id (find it with list_calendar_events first)."
  | some eventId =>
    let _ ← cal .delete ("/calendars/primary/events/" ++ eventId) token none none
    return "Deleted event [id: " ++ eventId ++ "]."

inductive Tool where
  | list (args : ListArgs)
  | create (args : EventArgs)
  | update (args : EventArgs)
  | delete (args : EventArgs)
  | unknown (name : String)

/-- `_DISPATCH`. -/
def Tool.run (userId : String) : Tool → Call String
  | .list args => listEvents cfg py userId args
  | .create args => createEventAs cfg py userId args
  | .update args => updateEventAs cfg py userId args
  | .delete args => deleteEvent cfg py userId args
  | .unknown name => return "error: unknown tool " ++ py.repr name

def Exc.told : Exc → String
  | .notConnected =>
    "Google Calendar isn't connected (or access expired). Open " ++
      "Settings → Integrations and connect it, then try again."
  | .calendarError text => "error: " ++ text
  | .fault (.httpStatus code) => "error: Google Calendar returned " ++ toString code
  | .fault (.transport text) => "error: " ++ text
  | .fault (.other text) => "error: " ++ text

def runCalendarTool (userId : String) (tool : Tool) : Prog Answer String := do
  match ← (tool.run cfg py userId).run with
  | .ok text => return text
  | .error exc => return exc.told

end CoreHeartbeat.Calendar
