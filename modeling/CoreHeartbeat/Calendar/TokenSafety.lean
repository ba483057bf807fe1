/-
  CoreHeartbeat.Calendar.TokenSafety — whose tokens the calendar tools use, and when.

  The world is Supabase's table of credentials, Google and the clock, as far as tokens go: a row
  holds tokens of its user, Google answers a user's refresh token with an access token of that
  user, and everything else may be answered with anything. The connect flow of the chat writes
  and deletes rows at any moment. Any number of calls of any users are served one request at a
  time in any order, so a row can change between any two requests of a call.

  `Owns` and `Grants` say whose an access token and a refresh token are; they are arbitrary, and
  nothing is read off a token itself. The contract of a call (`tokenContract`) has two parts: a
  request is made for the call's user with that user's tokens (`Own`), and it is in its time
  (`InTime`): a refresh only of a token that is due and only once, a calendar request only with
  a fresh token, and nothing after a request that changes the calendar. What is due is told by
  the clock as the call read it, and by the stored expiry; one that is missing or is no date
  counts as due.

  Proved:
  - `tokenWorld_serves`: the world keeps the rows and answers what a call counts on, so that the
    calls can be taken one by one.
  - `calendar_tokens_owned`: in every state, every request that a call made for its user was
    made with tokens of that user, and touched that user's row alone
    (`calendar_tokens_owned_two`: two users, and a deletion with a refreshed token).
  - `calendar_call_discipline`: whatever a call is answered, each request is in its time, and a
    change is reported only when the calendar accepted it (`calendar_call_discipline_deletion`).
-/

import CoreHeartbeat.Calendar.Tokens
import CoreHeartbeat.Lib.Fallible

namespace CoreHeartbeat.Calendar

open Dialogue
open CoreHeartbeat.Graph (Json)
open CoreHeartbeat.Knowledge (truthy)
open CoreHeartbeat.Services (Fault Http item firstItem item_ok item_of_lookup raiseForStatus_ok)
open Fallible (mapError_ok)

/-! ## What a history shows -/

def Loaded (t : History Answer) (creds : Json) : Prop :=
  ∃ v r rows, (⟨.loadCredentials v, .ok r⟩ : Exchange Answer) ∈ t ∧ r.json = .ok rows ∧ truthy rows = true ∧
    firstItem rows = .ok creds

def Read (t : History Answer) (n : Int) : Prop := (⟨.now, n⟩ : Exchange Answer) ∈ t

/-- The expiry the loaded row stands with: the stored one, or the instant read where there is none. -/
def ExpiresAt (py : Python) (t : History Answer) (creds : Json) (expiry : Int) : Prop :=
  storedExpiry py creds = .ok (some (expiry, true)) ∨ storedExpiry py creds = .ok none ∧ Read t expiry

/-- The stored token has a minute or less left. -/
def Due (py : Python) (t : History Answer) : Prop :=
  ∃ creds expiry n, Loaded t creds ∧ ExpiresAt py t creds expiry ∧ Read t n ∧ expiry ≤ n + expiryBuffer

/-- The token is the stored one with more than a minute left, or what a refresh returned. -/
def Fresh (py : Python) (t : History Answer) (token : Json) : Prop :=
  (∃ creds expiry n, Loaded t creds ∧ ExpiresAt py t creds expiry ∧ Read t n ∧ n + expiryBuffer < expiry ∧
      item creds "access_token" = .ok token) ∨
    ∃ refreshToken r body, (⟨.refresh refreshToken, .ok r⟩ : Exchange Answer) ∈ t ∧ r.json = .ok body ∧
      item body "access_token" = .ok token

def isRefresh (e : Exchange Answer) : Bool :=
  match e.asked with
  | .refresh _ => true
  | _ => false

def isChange (e : Exchange Answer) : Bool :=
  match e.asked with
  | .calendar method _ _ _ _ => method ≠ .get
  | _ => false

theorem Loaded.mono {t : History Answer} {creds : Json} (h : Loaded t creds) (m : History Answer) :
    Loaded (t ++ m) creds := by
  obtain ⟨v, r, rows, hmem, hrest⟩ := h
  exact ⟨v, r, rows, List.mem_append_left _ hmem, hrest⟩

theorem Read.mono {t : History Answer} {n : Int} (h : Read t n) (m : History Answer) : Read (t ++ m) n :=
  List.mem_append_left _ h

theorem ExpiresAt.mono {py : Python} {t : History Answer} {creds : Json} {expiry : Int}
    (h : ExpiresAt py t creds expiry) (m : History Answer) : ExpiresAt py (t ++ m) creds expiry := by
  rcases h with h | ⟨h, hread⟩
  · exact Or.inl h
  · exact Or.inr ⟨h, hread.mono m⟩

theorem Fresh.mono {py : Python} {t : History Answer} {token : Json} (h : Fresh py t token) (m : History Answer) :
    Fresh py (t ++ m) token := by
  rcases h with ⟨creds, expiry, n, hloaded, hexpiry, hread, hrest⟩ | ⟨refreshToken, r, body, hmem, hrest⟩
  · exact Or.inl ⟨creds, expiry, n, hloaded.mono m, hexpiry.mono m, hread.mono m, hrest⟩
  · exact Or.inr ⟨refreshToken, r, body, List.mem_append_left _ hmem, hrest⟩

/-! ## The contract of a call -/

section
variable (Owns Grants : String → Json → Prop)

def RowOf (userId : String) (row : Json) : Prop :=
  (∀ token, item row "access_token" = .ok token → Owns userId token) ∧
    ∀ refreshToken, item row "refresh_token" = .ok refreshToken → Grants userId refreshToken

def Own (userId : String) : Ask → Prop
  | .now => True
  | .loadCredentials v => v = userId
  | .saveAccessToken v token _ => v = userId ∧ Owns userId token
  | .refresh refreshToken => Grants userId refreshToken
  | .calendar _ _ token _ _ => Owns userId token

def InTime (py : Python) (t : History Answer) (q : Ask) : Prop :=
  t.any isChange = false ∧
    match q with
    | .refresh _ => t.any isRefresh = false ∧ Due py t
    | .calendar _ _ token _ _ => Fresh py t token
    | _ => True

/-- What is counted on: a row loaded for a user is that user's, and a refreshed token belongs
    to whom the refresh token does. -/
def Counted (q : Ask) (r : Answer q) : Prop :=
  match q, r with
  | .loadCredentials v, .ok r =>
    200 ≤ r.status ∧ r.status < 300 →
      ∀ rows creds, r.json = .ok rows → truthy rows = true → firstItem rows = .ok creds → RowOf Owns Grants v creds
  | .refresh refreshToken, .ok r =>
    200 ≤ r.status ∧ r.status < 300 →
      ∀ body token v, r.json = .ok body → item body "access_token" = .ok token → Grants v refreshToken → Owns v token
  | _, _ => True

def tokenContract (py : Python) (userId : String) : Contract Answer where
  asks t q := Own Owns Grants userId q ∧ InTime py t q
  answers _ q r := Counted Owns Grants q r

/-! ## The contract is kept -/

variable (cfg : Config) (py : Python) {userId : String}

/-- Nothing was changed and nothing refreshed. -/
def Quiet (t : History Answer) : Prop := t.any isChange = false ∧ t.any isRefresh = false

theorem Quiet.snoc {t : History Answer} (h : Quiet t) {e : Exchange Answer} (hchange : isChange e = false)
    (hrefresh : isRefresh e = false) : Quiet (t ++ [e]) := by
  obtain ⟨hc, hr⟩ := h
  simp [Quiet, List.any_append, hc, hr, hchange, hrefresh]

theorem unchanged_snoc {t : History Answer} (h : t.any isChange = false) {e : Exchange Answer}
    (hchange : isChange e = false) : (t ++ [e]).any isChange = false := by
  simp [List.any_append, h, hchange]

variable {Owns Grants py}

theorem shown_ok {α : Type} {text : Except String α} {a : α} (h : shown text = .ok a) : text = .ok a := by
  cases text with
  | error e => cases h
  | ok b => cases h; rfl

theorem loadCredentials_keeps :
    Keeps (tokenContract Owns Grants py userId) (fun t result => Quiet t ∧
        ∀ creds, result = .ok (some creds) → Loaded t creds ∧ RowOf Owns Grants userId creds)
      [] (loadCredentials cfg userId).run := by
  refine keeps_given (fun e _ => ⟨⟨rfl, rfl⟩, nofun⟩) fun _ _ => ?_
  refine keeps_asked ⟨rfl, rfl, trivial⟩ fun answer hanswer => ?_
  have hquiet : Quiet ([] ++ [(⟨.loadCredentials userId, answer⟩ : Exchange Answer)]) := ⟨rfl, rfl⟩
  refine keeps_given (fun e _ => ⟨hquiet, nofun⟩) fun r hr => ?_
  refine keeps_given (fun e _ => ⟨hquiet, nofun⟩) fun _ hstatus => ?_
  refine keeps_given (fun e _ => ⟨hquiet, nofun⟩) fun rows hrows => ?_
  cases htruthy : truthy rows with
  | false => exact ⟨hquiet, nofun⟩
  | true =>
    refine keeps_given (fun e _ => ⟨hquiet, nofun⟩) fun row hrow => ⟨hquiet, fun creds h => ?_⟩
    cases h
    cases mapError_ok hr
    have hjson := mapError_ok hrows
    have hrow := mapError_ok hrow
    exact ⟨⟨userId, r, rows, List.mem_singleton.mpr rfl, hjson, htruthy, hrow⟩,
      hanswer (raiseForStatus_ok (mapError_ok hstatus)) rows row hjson htruthy hrow⟩

theorem saveAccessToken_keeps {t : History Answer} (hquiet : t.any isChange = false) {token : Json}
    (howns : Owns userId token) (expiry : Int) :
    Keeps (tokenContract Owns Grants py userId) (fun t' _ => t'.any isChange = false ∧ t <+: t') t
      (saveAccessToken cfg userId token expiry).run := by
  refine keeps_given (fun e _ => ⟨hquiet, List.prefix_rfl⟩) fun _ _ => ?_
  refine keeps_asked ⟨trivial, hquiet, trivial⟩ fun n _ => ?_
  have hread := unchanged_snoc (e := ⟨.now, n⟩) hquiet rfl
  refine keeps_asked ⟨⟨rfl, howns⟩, hread, trivial⟩ fun answer _ => ?_
  have hgrows := (List.prefix_append t [(⟨.now, n⟩ : Exchange Answer)]).trans
    (List.prefix_append _ [⟨.saveAccessToken userId token expiry, answer⟩])
  exact keeps_given (fun e _ => ⟨unchanged_snoc hread rfl, hgrows⟩) fun _ _ => ⟨unchanged_snoc hread rfl, hgrows⟩

def Got (Owns : String → Json → Prop) (py : Python) (userId : String) (t : History Answer) (result : Except Exc Json) :
    Prop :=
  t.any isChange = false ∧ ∀ token, result = .ok token → Owns userId token ∧ Fresh py t token

theorem refresh_keeps {t : History Answer} (hquiet : Quiet t) (hdue : Due py t) {creds : Json}
    (hrow : RowOf Owns Grants userId creds) :
    Keeps (tokenContract Owns Grants py userId) (Got Owns py userId) t (refresh cfg py userId creds).run := by
  have hsame : t.any isChange = false := hquiet.1
  unfold refresh
  split
  · exact ⟨hsame, nofun⟩
  · refine keeps_given (fun e _ => ⟨hsame, nofun⟩) fun refreshToken hgrant => ?_
    have hgrant := mapError_ok hgrant
    refine keeps_asked ⟨hrow.2 refreshToken hgrant, hsame, hquiet.2, hdue⟩ fun answer hanswer => ?_
    have hsame := unchanged_snoc (e := ⟨.refresh refreshToken, answer⟩) hsame rfl
    refine keeps_given (fun e _ => ⟨hsame, nofun⟩) fun r hr => ?_
    split
    · exact ⟨hsame, nofun⟩
    · refine keeps_given (fun e _ => ⟨hsame, nofun⟩) fun _ hstatus => ?_
      refine keeps_given (fun e _ => ⟨hsame, nofun⟩) fun body hbody => ?_
      refine keeps_given (fun e _ => ⟨hsame, nofun⟩) fun token htoken => ?_
      cases mapError_ok hr
      have hjson := mapError_ok hbody
      have htoken := mapError_ok htoken
      have howns : Owns userId token :=
        hanswer (raiseForStatus_ok (mapError_ok hstatus)) body token userId hjson htoken (hrow.2 refreshToken hgrant)
      have hfresh : Fresh py (t ++ [⟨.refresh refreshToken, .ok r⟩]) token :=
        Or.inr ⟨refreshToken, r, body, List.mem_append_right _ (List.mem_singleton.mpr rfl), hjson, htoken⟩
      refine keeps_asked ⟨trivial, hsame, trivial⟩ fun n _ => ?_
      have hsame := unchanged_snoc (e := ⟨.now, n⟩) hsame rfl
      refine keeps_given (fun e _ => ⟨hsame, nofun⟩) fun seconds _ => ?_
      refine keeps_given (fun e _ => ⟨hsame, nofun⟩) fun expiry _ => ?_
      refine keeps_then (keeps_mono (saveAccessToken_keeps cfg hsame howns expiry) fun t' result h => ?_)
      obtain ⟨hsame', m, rfl⟩ := h
      cases result with
      | error e => exact ⟨hsame', nofun⟩
      | ok u =>
        refine ⟨hsame', fun token' h => ?_⟩
        cases h
        exact ⟨howns, (hfresh.mono _).mono m⟩

theorem unexpired_keeps {t : History Answer} (hquiet : Quiet t) {creds : Json} (hloaded : Loaded t creds)
    (hrow : RowOf Owns Grants userId creds) {expiry : Int} {aware : Bool}
    (hexpiry : aware = true → ExpiresAt py t creds expiry) :
    Keeps (tokenContract Owns Grants py userId) (Got Owns py userId) t
      (unexpired cfg py userId creds expiry aware).run := by
  refine keeps_asked ⟨trivial, hquiet.1, trivial⟩ fun n _ => ?_
  have hquiet := hquiet.snoc (e := ⟨.now, n⟩) rfl rfl
  have hread : Read (t ++ [⟨.now, n⟩]) n := List.mem_append_right _ (List.mem_singleton.mpr rfl)
  have hloaded := hloaded.mono [⟨.now, n⟩]
  cases aware with
  | false => exact ⟨hquiet.1, nofun⟩
  | true =>
    have hexpiry := (hexpiry rfl).mono [⟨.now, n⟩]
    rw [if_neg (by decide)]
    split
    · rename_i hdue
      exact refresh_keeps cfg hquiet ⟨creds, expiry, n, hloaded, hexpiry, hread, hdue⟩ hrow
    · rename_i hleft
      refine ⟨hquiet.1, fun token h => ?_⟩
      have htoken := mapError_ok h
      refine ⟨hrow.1 token htoken, ?_⟩
      exact Or.inl ⟨creds, expiry, n, hloaded, hexpiry, hread, lt_of_not_ge hleft, htoken⟩

theorem accessToken_keeps :
    Keeps (tokenContract Owns Grants py userId) (Got Owns py userId) [] (accessToken cfg py userId).run := by
  refine keeps_then (keeps_mono (loadCredentials_keeps cfg) fun t result h => ?_)
  obtain ⟨hquiet, hload⟩ := h
  cases result with
  | error e => exact ⟨hquiet.1, nofun⟩
  | ok row =>
    cases row with
    | none => exact ⟨hquiet.1, nofun⟩
    | some creds =>
      obtain ⟨hloaded, hrow⟩ := hload creds rfl
      dsimp only
      split
      · exact ⟨hquiet.1, nofun⟩
      · refine keeps_given (fun e _ => ⟨hquiet.1, nofun⟩) fun stored hstored => ?_
        cases stored with
        | some stored =>
          refine unexpired_keeps cfg hquiet hloaded hrow fun haware => Or.inl ?_
          rw [hstored, ← haware]
        | none =>
          refine keeps_asked ⟨trivial, hquiet.1, trivial⟩ fun n _ => ?_
          refine unexpired_keeps cfg (hquiet.snoc rfl rfl) (hloaded.mono _) hrow fun _ => Or.inr ⟨hstored, ?_⟩
          exact List.mem_append_right _ (List.mem_singleton.mpr rfl)

/-! ## The calendar -/

def Ready (Owns : String → Json → Prop) (py : Python) (userId : String) (t : History Answer) (token : Json) : Prop :=
  t.any isChange = false ∧ Owns userId token ∧ Fresh py t token

theorem Ready.snoc {t : History Answer} {token : Json} (h : Ready Owns py userId t token) {e : Exchange Answer}
    (hchange : isChange e = false) : Ready Owns py userId (t ++ [e]) token := by
  obtain ⟨hsame, howns, hfresh⟩ := h
  exact ⟨unchanged_snoc hsame hchange, howns, hfresh.mono [e]⟩

/-- The last exchange is a calendar request that was not refused. -/
def Accepted (method : Method) (path : String) (t : History Answer) : Prop :=
  ∃ l token params body r, t = l ++ [⟨.calendar method path token params body, .ok r⟩] ∧ r.status < 400

theorem cal_keeps {method : Method} {path : String} {token : Json} {params : Option ListParams}
    {body : Option EventBody} {t : History Answer} (hready : Ready Owns py userId t token) :
    Keeps (tokenContract Owns Grants py userId)
      (fun t' result => (method = .get → Ready Owns py userId t' token) ∧ ∀ r, result = .ok r → Accepted method path t')
      t (cal method path token params body).run := by
  refine keeps_asked ⟨hready.2.1, hready.1, hready.2.2⟩ fun answer _ => ?_
  have hget : method = .get →
      Ready Owns py userId (t ++ [⟨.calendar method path token params body, answer⟩]) token := by
    rintro rfl
    exact hready.snoc rfl
  refine keeps_given (fun e _ => ⟨hget, nofun⟩) fun r hr => ?_
  split
  · exact ⟨hget, nofun⟩
  · split
    · refine keeps_given (fun e _ => ⟨hget, nofun⟩) fun _ _ => ?_
      exact keeps_given (fun e _ => ⟨hget, nofun⟩) fun text _ => ⟨hget, nofun⟩
    · rename_i hstatus
      refine ⟨hget, fun r' h => ?_⟩
      cases h
      cases mapError_ok hr
      exact ⟨t, token, params, body, r, rfl, lt_of_not_ge hstatus⟩

theorem calendarTz_keeps {token : Json} {t : History Answer} (hready : Ready Owns py userId t token) :
    Keeps (tokenContract Owns Grants py userId)
      (fun t' result => Ready Owns py userId t' token ∧ ∃ tz, result = .ok tz) t (calendarTz token).run := by
  refine keeps_catch (keeps_then (keeps_mono (cal_keeps hready) fun t' result h => ?_))
  have hready := h.1 rfl
  cases result with
  | error e => exact ⟨hready, .str "UTC", rfl⟩
  | ok r =>
    refine keeps_given (fun e _ => ⟨hready, .str "UTC", rfl⟩) fun v _ => ?_
    exact keeps_given (fun e _ => ⟨hready, .str "UTC", rfl⟩) fun zone _ => ⟨hready, _, rfl⟩

theorem toRfc3339_keeps {token : Json} {value : Option String} {default : String} {zone : Option Json}
    {t : History Answer} (hready : Ready Owns py userId t token) :
    Keeps (tokenContract Owns Grants py userId) (fun t' _ => Ready Owns py userId t' token) t
      (toRfc3339 py token value default zone).run := by
  unfold toRfc3339
  cases given value with
  | none => exact hready
  | some value =>
    dsimp only
    cases py.hasOffset (String.ofList (PyText.strip value.toList)) with
    | true => exact hready
    | false =>
      cases py.localized (String.ofList (PyText.strip value.toList)) with
      | none => exact hready
      | some attach =>
        cases zone with
        | some tz => exact hready
        | none =>
          refine keeps_then (keeps_mono (calendarTz_keeps hready) fun t' result h => ?_)
          obtain ⟨hready, tz, rfl⟩ := h
          exact hready

/-! ## The tools keep it -/

structure Change where
  method : Method
  path : String
  start : String

def Tool.change : Tool → Option Change
  | .create _ => some ⟨.post, "/calendars/primary/events", "Created event: "⟩
  | .update args => (given args.eventId).map fun id => ⟨.patch, "/calendars/primary/events/" ++ id, "Updated event: "⟩
  | .delete args =>
    (given args.eventId).map fun id => ⟨.delete, "/calendars/primary/events/" ++ id, "Deleted event [id: "⟩
  | .list _ | .unknown _ => none

theorem Tool.update_change (args : EventArgs) : (Tool.update args).change =
    (given args.eventId).map fun id => ⟨.patch, "/calendars/primary/events/" ++ id, "Updated event: "⟩ := rfl

theorem Tool.delete_change (args : EventArgs) : (Tool.delete args).change =
    (given args.eventId).map fun id => ⟨.delete, "/calendars/primary/events/" ++ id, "Deleted event [id: "⟩ := rfl

/-- A tool changes nothing, or reports its change only when the calendar accepted it. -/
def Reports (change : Option Change) (t : History Answer) (text : String) : Prop :=
  match change with
  | none => t.any isChange = false
  | some c => c.start.toList <+: text.toList → Accepted c.method c.path t

/-- The same of a call that may raise. -/
def Ends (change : Option Change) (t : History Answer) (result : Except Exc String) : Prop :=
  match change, result with
  | none, _ => t.any isChange = false
  | some _, .ok text => Reports change t text
  | some _, .error _ => True

theorem listEvents_keeps (args : ListArgs) :
    Keeps (tokenContract Owns Grants py userId) (Ends none) [] (listEvents cfg py userId args).run := by
  refine keeps_then (keeps_mono (accessToken_keeps cfg) fun t result h => ?_)
  obtain ⟨hsame, hgot⟩ := h
  cases result with
  | error e => exact hsame
  | ok token =>
    have hready : Ready Owns py userId t token := ⟨hsame, hgot token rfl⟩
    refine keeps_asked ⟨trivial, hready.1, trivial⟩ fun n _ => ?_
    have hready := hready.snoc (e := ⟨.now, n⟩) rfl
    refine keeps_then (keeps_mono (toRfc3339_keeps hready) fun t result hready => ?_)
    cases result with
    | error e => exact hready.1
    | ok lower =>
      refine keeps_asked ⟨trivial, hready.1, trivial⟩ fun n _ => ?_
      have hready := hready.snoc (e := ⟨.now, n⟩) rfl
      refine keeps_then (keeps_mono (toRfc3339_keeps hready) fun t result hready => ?_)
      cases result with
      | error e => exact hready.1
      | ok upper =>
        refine keeps_then (keeps_mono (cal_keeps hready) fun t result h => ?_)
        have hready := h.1 rfl
        cases result with
        | error e => exact hready.1
        | ok r =>
          refine keeps_given (fun e _ => hready.1) fun v _ => ?_
          split
          · dsimp only
            split
            · exact hready.1
            · refine keeps_given (fun e _ => hready.1) fun found _ => ?_
              exact keeps_given (fun e _ => hready.1) fun lines _ => hready.1
          · exact hready.1

def SentAs (o : Outgoing) (t : History Answer) (text : String) : Prop :=
  match o with
  | .refused text' => text = text' ∧ t.any isChange = false
  | .post _ => Accepted .post "/calendars/primary/events" t
  | .patch eventId _ => Accepted .patch ("/calendars/primary/events/" ++ eventId) t

theorem send_keeps {token : Json} {t : History Answer} (hready : Ready Owns py userId t token) (o : Outgoing) :
    Keeps (tokenContract Owns Grants py userId) (fun t' result => ∀ text, result = .ok text → SentAs o t' text) t
      (send py token o).run := by
  cases o with
  | refused text =>
    intro text' h
    cases h
    exact ⟨rfl, hready.1⟩
  | post body =>
    refine keeps_then (keeps_mono (cal_keeps hready) fun t result h => ?_)
    cases result with
    | error e => exact nofun
    | ok r =>
      have haccepted := h.2 r rfl
      refine keeps_given (fun e _ => nofun) fun v _ => ?_
      exact keeps_given (fun e _ => nofun) fun line _ text _ => haccepted
  | patch eventId body =>
    refine keeps_then (keeps_mono (cal_keeps hready) fun t result h => ?_)
    cases result with
    | error e => exact nofun
    | ok r =>
      have haccepted := h.2 r rfl
      refine keeps_given (fun e _ => nofun) fun v _ => ?_
      exact keeps_given (fun e _ => nofun) fun line _ text _ => haccepted

/-- The first character of what is not a success. -/
theorem not_reported {start text : String} {c : Char} (htext : text.toList.head? = some c)
    (hstart : start.toList.head? ≠ some c) (hne : start ≠ "") : ¬start.toList <+: text.toList := by
  rintro ⟨rest, h⟩
  rw [← h] at htext
  cases hlist : start.toList with
  | nil => exact hne (String.toList_eq_nil_iff.mp hlist)
  | cons d l =>
    rw [hlist] at htext hstart
    exact hstart htext

theorem createEvent_reports {u : PyText.Unicode} {tz : Json} {args : EventArgs} {o : Outgoing}
    (h : createEvent u tz args = .ok o) {t : History Answer} {text : String} (hsent : SentAs o t text) :
    Reports (Tool.create args).change t text := by
  unfold createEvent at h
  split at h
  · obtain ⟨start, -, h⟩ := Fallible.bind_ok.mp h
    obtain ⟨end_, -, h⟩ := Fallible.bind_ok.mp h
    cases h
    exact fun _ => hsent
  · cases h
    obtain ⟨rfl, -⟩ := hsent
    exact fun hstart => absurd hstart (not_reported (c := 'e') rfl (by decide) (by decide))

theorem updateEvent_reports {u : PyText.Unicode} {tz : Json} {eventId : String} {args : EventArgs}
    (hid : given args.eventId = some eventId) {o : Outgoing} (h : updateEvent u tz args = .ok o) {t : History Answer}
    {text : String} (hsent : SentAs o t text) :
    Reports (some ⟨.patch, "/calendars/primary/events/" ++ eventId, "Updated event: "⟩) t text := by
  unfold updateEvent at h
  rw [hid] at h
  obtain ⟨start, -, h⟩ := Fallible.bind_ok.mp h
  obtain ⟨end_, -, h⟩ := Fallible.bind_ok.mp h
  dsimp only at h
  split at h
  · cases h
    obtain ⟨rfl, -⟩ := hsent
    have hdiffers : "Updated event: ".toList.head? ≠ some 'e' ∧ "Updated event: " ≠ "" := by decide
    exact fun hstart => absurd hstart (not_reported rfl hdiffers.1 hdiffers.2)
  · cases h
    exact fun _ => hsent

/-- The end of both tools that send an event. -/
theorem made_keeps {token : Json} {t : History Answer} (hready : Ready Owns py userId t token) {c : Change}
    {made : Except Raised Outgoing}
    (hmade : ∀ o, made = .ok o → ∀ t text, SentAs o t text → Reports (some c) t text) :
    Keeps (tokenContract Owns Grants py userId) (Ends (some c)) t
      (do send py token (← shown made) : Call String).run := by
  refine keeps_given (fun e _ => trivial) fun o ho => ?_
  refine keeps_mono (send_keeps hready o) fun t result h => ?_
  cases result with
  | error e => trivial
  | ok text => exact hmade o (shown_ok ho) t text (h text rfl)

theorem createEventAs_keeps (args : EventArgs) :
    Keeps (tokenContract Owns Grants py userId) (Ends (Tool.create args).change) []
      (createEventAs cfg py userId args).run := by
  refine keeps_then (keeps_mono (accessToken_keeps cfg) fun t result h => ?_)
  obtain ⟨hsame, hgot⟩ := h
  cases result with
  | error e => trivial
  | ok token =>
    have hready : Ready Owns py userId t token := ⟨hsame, hgot token rfl⟩
    dsimp only
    split
    · refine keeps_then (keeps_mono (calendarTz_keeps hready) fun t result h => ?_)
      obtain ⟨hready, tz, rfl⟩ := h
      exact made_keeps hready fun o ho t text => createEvent_reports ho
    · exact made_keeps hready fun o ho t text => createEvent_reports ho

theorem updateEventAs_keeps (args : EventArgs) :
    Keeps (tokenContract Owns Grants py userId) (Ends (Tool.update args).change) []
      (updateEventAs cfg py userId args).run := by
  refine keeps_then (keeps_mono (accessToken_keeps cfg) fun t result h => ?_)
  obtain ⟨hsame, hgot⟩ := h
  rw [Tool.update_change]
  cases hid : given args.eventId with
  | none =>
    cases result with
    | error e => exact hsame
    | ok token =>
      have hrefused : ∀ tz, updateEvent py.unicode tz args = .ok (.refused
          "error: update_calendar_event needs event_id (find it with list_calendar_events first).") := by
        intro tz
        unfold updateEvent
        rw [hid]
        rfl
      have hnone : Keeps (tokenContract Owns Grants py userId) (Ends none) t
          (do send py token (← shown (updateEvent py.unicode (.str "UTC") args)) : Call String).run := by
        refine keeps_given (fun e _ => hsame) fun o ho => ?_
        have := shown_ok ho
        rw [hrefused] at this
        cases this
        exact hsame
      exact hnone
  | some eventId =>
    cases result with
    | error e => trivial
    | ok token =>
      have hready : Ready Owns py userId t token := ⟨hsame, hgot token rfl⟩
      dsimp only
      split
      · refine keeps_then (keeps_mono (calendarTz_keeps hready) fun t' result h => ?_)
        obtain ⟨hready, tz, rfl⟩ := h
        exact made_keeps hready fun o ho t text => updateEvent_reports hid ho
      · exact made_keeps hready fun o ho t text => updateEvent_reports hid ho

theorem deleteEvent_keeps (args : EventArgs) :
    Keeps (tokenContract Owns Grants py userId) (Ends (Tool.delete args).change) []
      (deleteEvent cfg py userId args).run := by
  refine keeps_then (keeps_mono (accessToken_keeps cfg) fun t result h => ?_)
  obtain ⟨hsame, hgot⟩ := h
  rw [Tool.delete_change]
  cases hid : given args.eventId with
  | none =>
    cases result with
    | error e => exact hsame
    | ok token => exact hsame
  | some eventId =>
    cases result with
    | error e => trivial
    | ok token =>
      refine keeps_then (keeps_mono (cal_keeps ⟨hsame, hgot token rfl⟩) fun t result h => ?_)
      cases result with
      | error e => trivial
      | ok r => exact fun _ => h.2 r rfl

theorem Tool.run_keeps (tool : Tool) :
    Keeps (tokenContract Owns Grants py userId) (Ends tool.change) [] (tool.run cfg py userId).run := by
  cases tool with
  | list args => exact listEvents_keeps cfg args
  | create args => exact createEventAs_keeps cfg args
  | update args => exact updateEventAs_keeps cfg args
  | delete args => exact deleteEvent_keeps cfg args
  | unknown name => exact (rfl : ([] : History Answer).any isChange = false)

theorem head_append {start rest : String} {c : Char} (h : start.toList.head? = some c) :
    (start ++ rest).toList.head? = some c := by
  rw [String.toList_append, List.head?_append, h]
  rfl

theorem Exc.told_head (e : Exc) : e.told.toList.head? = some 'e' ∨ e.told.toList.head? = some 'G' := by
  cases e with
  | notConnected =>
    have : "Google Calendar isn't connected (or access expired). Open ".toList.head? = some 'G' := rfl
    exact Or.inr (head_append this)
  | calendarError text => exact Or.inl (head_append rfl)
  | fault f => cases f <;> exact Or.inl (head_append rfl)

theorem Tool.change_start {tool : Tool} {c : Change} (hc : tool.change = some c) :
    c.start ∈ ["Created event: ", "Updated event: ", "Deleted event [id: "] := by
  cases tool with
  | list args => cases hc
  | create args => cases hc; simp
  | update args =>
    obtain ⟨id, -, rfl⟩ := Option.map_eq_some_iff.mp hc
    simp
  | delete args =>
    obtain ⟨id, -, rfl⟩ := Option.map_eq_some_iff.mp hc
    simp
  | unknown name => cases hc

/-- A failure is told from every success by its first character. -/
theorem Exc.told_not_reported {tool : Tool} {c : Change} (hc : tool.change = some c) (e : Exc) :
    ¬c.start.toList <+: e.told.toList := by
  have hdiffers : ∀ start ∈ ["Created event: ", "Updated event: ", "Deleted event [id: "],
      start.toList.head? ≠ some 'e' ∧ start.toList.head? ≠ some 'G' ∧ start ≠ "" := by decide
  obtain ⟨he, hG, hne⟩ := hdiffers _ (Tool.change_start hc)
  rcases e.told_head with h | h
  · exact not_reported h he hne
  · exact not_reported h hG hne

theorem runCalendarTool_keeps (tool : Tool) :
    Keeps (tokenContract Owns Grants py userId) (Reports tool.change) [] (runCalendarTool cfg py userId tool) := by
  refine keeps_bind (keeps_mono (Tool.run_keeps cfg tool) fun t result h => ?_)
  cases hc : tool.change with
  | none =>
    rw [hc] at h
    cases result <;> exact h
  | some c =>
    rw [hc] at h
    cases result with
    | ok text => exact h
    | error e => exact fun hstart => absurd hstart (e.told_not_reported hc)

end

/-! ## Calls before one world -/

section
variable (Owns Grants : String → Json → Prop)

def withToken (token : Json) (expiry : String) : Json → Json
  | .obj fields =>
    .obj (fields.map fun f => (f.1, if f.1 = "access_token" then token else if f.1 = "expiry" then .str expiry else f.2))
  | row => row

abbrev Rows : Type := String → Option Json

/-- The table of credentials, Google's token endpoint, the calendar and the clock. -/
def tokenWorld (py : Python) : World Answer Rows where
  serves rows q r rows' :=
    match q, r with
    | .loadCredentials v, .ok r =>
      rows' = rows ∧ (200 ≤ r.status ∧ r.status < 300 → ∀ v', r.json = .ok v' → v' = .arr (rows v).toList)
    | .saveAccessToken v token expiry, _ =>
      rows' = rows ∨ rows' = Function.update rows v ((rows v).map (withToken token (py.rfc3339 expiry)))
    | .refresh refreshToken, .ok r =>
      rows' = rows ∧ (200 ≤ r.status ∧ r.status < 300 → ∀ body token v, r.json = .ok body →
        item body "access_token" = .ok token → Grants v refreshToken → Owns v token)
    | _, _ => rows' = rows
  moves rows rows' := ∃ v row, rows' = Function.update rows v row ∧ ∀ creds, row = some creds → RowOf Owns Grants v creds

def RowsOf (rows : Rows) : Prop := ∀ v creds, rows v = some creds → RowOf Owns Grants v creds

end

variable {Owns Grants : String → Json → Prop}

theorem RowsOf.update {rows : Rows} (h : RowsOf Owns Grants rows) {v : String} {row : Option Json}
    (hrow : ∀ creds, row = some creds → RowOf Owns Grants v creds) :
    RowsOf Owns Grants (Function.update rows v row) := by
  intro v' creds hcreds
  by_cases hv : v' = v
  · subst hv
    rw [Function.update_self] at hcreds
    exact hrow creds hcreds
  · rw [Function.update_of_ne hv] at hcreds
    exact h v' creds hcreds

theorem lookup_withToken (key : String) (token : Json) (expiry : String) (fields : List (String × Json)) :
    (fields.map fun f => (f.1, if f.1 = "access_token" then token else if f.1 = "expiry" then .str expiry else f.2)).lookup
        key =
      (fields.lookup key).map fun w =>
        if key = "access_token" then token else if key = "expiry" then .str expiry else w := by
  induction fields with
  | nil => rfl
  | cons f fields ih =>
    rw [List.map_cons, List.lookup_cons, List.lookup_cons, ih]
    by_cases hkey : key = f.1
    · rw [beq_iff_eq.mpr hkey, hkey]
      rfl
    · rw [beq_eq_false_iff_ne.mpr hkey]

theorem RowOf.withToken {userId : String} {row : Json} (h : RowOf Owns Grants userId row) {token : Json}
    (howns : Owns userId token) (expiry : String) : RowOf Owns Grants userId (withToken token expiry row) := by
  cases row with
  | obj fields =>
    refine ⟨fun token' htoken => ?_, fun refreshToken hgrant => ?_⟩
    · obtain ⟨_, hfields, hlookup⟩ := item_ok htoken
      cases hfields
      rw [lookup_withToken] at hlookup
      obtain ⟨w, -, hw⟩ := Option.map_eq_some_iff.mp hlookup
      rw [if_pos rfl] at hw
      exact hw ▸ howns
    · obtain ⟨_, hfields, hlookup⟩ := item_ok hgrant
      cases hfields
      rw [lookup_withToken] at hlookup
      obtain ⟨w, hw, hsame⟩ := Option.map_eq_some_iff.mp hlookup
      rw [if_neg (by decide), if_neg (by decide)] at hsame
      exact h.2 refreshToken (item_of_lookup (hsame ▸ hw))
  | _ => exact h

/-- The world keeps the rows, and answers as a call counts on. -/
theorem tokenWorld_serves {rows rows' : Rows} (h : RowsOf Owns Grants rows) {py : Python} {userId : String} {t : History Answer}
    {q : Ask} {r : Answer q} (hasks : (tokenContract Owns Grants py userId).asks t q)
    (hserves : (tokenWorld Owns Grants py).serves rows q r rows') :
    RowsOf Owns Grants rows' ∧ Counted Owns Grants q r := by
  cases q with
  | now => exact ⟨hserves ▸ h, trivial⟩
  | loadCredentials v =>
    cases r with
    | error e => exact ⟨hserves ▸ h, trivial⟩
    | ok r =>
      obtain ⟨rfl, hanswer⟩ := hserves
      refine ⟨h, fun hstatus v' creds hjson _ hfirst => ?_⟩
      rw [hanswer hstatus v' hjson] at hfirst
      cases hrow : rows' v with
      | none => rw [hrow] at hfirst; cases hfirst
      | some row =>
        rw [hrow] at hfirst
        cases hfirst
        exact h v creds hrow
  | saveAccessToken v token expiry =>
    obtain ⟨⟨rfl, howns⟩, -⟩ := hasks
    refine ⟨?_, trivial⟩
    rcases hserves with rfl | rfl
    · exact h
    · refine h.update fun creds hcreds => ?_
      obtain ⟨row, hrow, rfl⟩ := Option.map_eq_some_iff.mp hcreds
      exact (h v row hrow).withToken howns _
  | refresh refreshToken =>
    cases r with
    | error e => exact ⟨hserves ▸ h, trivial⟩
    | ok r => exact ⟨hserves.1 ▸ h, hserves.2⟩
  | calendar method path token params body => exact ⟨hserves ▸ h, trivial⟩

/-! A row whose token runs out with the year 2025, a second before that. -/

def settings : Config := ⟨some "https://db", some "key", some "id", some "secret"⟩

def isoPython : Python where
  unicode := .ascii
  fromIsoFormat text := if text = "2026-01-01T00:00:00+00:00" then some (1767225600000000, true) else none
  localized _ := none
  rfc3339 n := if n = 1767229199000000 then "2026-01-01T00:59:59+00:00" else ""
  hasOffset _ := false
  intOfFloat _ := none
  intOfText _ := none
  repr s := "'" ++ s ++ "'"
  fmt _ := .ok ""

def rowFor (userId : String) : Json :=
  .obj [("access_token", .str ("at-" ++ userId)), ("refresh_token", .str ("rt-" ++ userId)),
    ("expiry", .str "2026-01-01T00:00:00+00:00")]

def deletion : Tool := .delete { eventId := some "7" }

/-- However any calls of any users interleave, each asks for its user and with tokens of that
    user alone. -/
theorem calendar_tokens_owned {Owns Grants : String → Json → Prop} {rows : Rows} (hrows : RowsOf Owns Grants rows)
    {cfg : Config} {py : Python} {ι : Type} [DecidableEq ι] {userId : ι → String} {tool : ι → Tool}
    {s : Pool Answer String Rows ι}
    (h : Reachable (tokenWorld Owns Grants py) rows (fun i => runCalendarTool cfg py (userId i) (tool i)) s) (i : ι)
    (e : Exchange Answer) (he : e ∈ s.history i) : Own Owns Grants (userId i) e.asked := by
  have hmoves : ∀ rows rows', RowsOf Owns Grants rows → (tokenWorld Owns Grants py).moves rows rows' →
      RowsOf Owns Grants rows' := by
    rintro rows _ hrows ⟨v, row, rfl, hrow⟩
    exact hrows.update hrow
  obtain ⟨-, hcalls⟩ := pool_keeps (c := fun i => tokenContract Owns Grants py (userId i)) hmoves
    (fun i rows t q r rows' hrows => tokenWorld_serves hrows) hrows (fun i => runCalendarTool_keeps cfg (tool i)) h
  obtain ⟨l, m, hsplit⟩ := List.append_of_mem he
  exact ((hcalls i).2 l e.asked e.answer m hsplit).1.1

theorem calendar_tokens_owned_two :
    let Owns := fun u token => token = Json.str ("at-" ++ u)
    let Grants := fun u refreshToken => refreshToken = Json.str ("rt-" ++ u)
    ∃ s : Pool Answer String Rows Bool,
      Reachable (tokenWorld Owns Grants isoPython) (fun v => some (rowFor v))
        (fun i => runCalendarTool settings isoPython (if i then "ann" else "bob") deletion) s ∧
      (s.history true).getLast?.map (·.asked) =
        some (.calendar .delete "/calendars/primary/events/7" (.str "at-ann") none none) ∧
      (s.history false).length = 1 ∧ ∀ e ∈ s.history true, Own Owns Grants "ann" e.asked := by
  intro Owns Grants
  have hrow : ∀ v, RowOf Owns Grants v (rowFor v) := by
    intro v
    constructor
    · intro token h
      cases h
      rfl
    · intro token h
      cases h
      rfl
  let rows : Rows := fun v => some (rowFor v)
  let answer : (v : String) → Answer (.loadCredentials v) := fun v => .ok ⟨200, .ok (.arr [rowFor v])⟩
  have hserves : ∀ v, (tokenWorld Owns Grants isoPython).serves rows (.loadCredentials v) (answer v) rows :=
    fun v => ⟨rfl, fun _ v' h => (Except.ok.inj h).symm⟩
  have hstart : Reachable (tokenWorld Owns Grants isoPython) rows
      (fun i : Bool => runCalendarTool settings isoPython (if i then "ann" else "bob") deletion) _ := .start
  have hann := hstart.serve true (.loadCredentials "ann") (answer "ann") rows rfl (hserves "ann")
  have hbob := hann.serve false (.loadCredentials "bob") (answer "bob") rows rfl (hserves "bob")
  have hread := hbob.serve true .now (1767225599000000 : Int) rows rfl rfl
  -- the token runs out in a second, and a new one is granted
  have hgrants : ∀ v, Grants v (.str "rt-ann") → v = "ann" := by
    intro v h
    have hlist : "rt-".toList ++ "ann".toList = "rt-".toList ++ v.toList := by
      rw [← String.toList_append, ← String.toList_append]
      exact congrArg String.toList (Json.str.inj h)
    exact String.toList_inj.mp (List.append_cancel_left hlist).symm
  have hrefreshed := hread.serve true (.refresh (.str "rt-ann"))
    (.ok ⟨200, .ok (.obj [("access_token", .str "at-ann"), ("expires_in", .int 3600)])⟩ : Except Fault Http) rows rfl
    ⟨rfl, fun _ body token v hbody htoken hgrant => by cases hbody; cases htoken; rw [hgrants v hgrant]; rfl⟩
  have hagain := hrefreshed.serve true .now (1767225599000000 : Int) rows rfl rfl
  have hsaving := hagain.serve true .now (1767225599000000 : Int) rows rfl rfl
  have hsaved := hsaving.serve true (.saveAccessToken "ann" (.str "at-ann") 1767229199000000)
    (.ok ⟨204, .error (.other "ValueError")⟩ : Except Fault Http) _ rfl (Or.inr rfl)
  have hdeleted := hsaved.serve true (.calendar .delete "/calendars/primary/events/7" (.str "at-ann") none none)
    (.ok ⟨204, .error (.other "ValueError")⟩ : Except Fault Http) _ rfl rfl
  have howned := calendar_tokens_owned (fun v creds h => Option.some.inj h ▸ hrow v) hdeleted true
  exact ⟨_, hdeleted, rfl, rfl, howned⟩

/-- Whatever one call is answered: each request is in its time, and a change is reported only
    when the calendar accepted it. -/
theorem calendar_call_discipline {cfg : Config} {py : Python} {userId : String} {tool : Tool} {t : History Answer}
    {rest : Prog Answer String} (h : Reaches (runCalendarTool cfg py userId tool) t rest) :
    (∀ l q r m, t = l ++ ⟨q, r⟩ :: m → InTime py l q) ∧ ∀ text, rest = .done text → Reports tool.change t text := by
  have hany : ∀ t q r, (tokenContract (fun _ _ => True) (fun _ _ => True) py userId).answers t q r := by
    intro t q r
    cases q <;> cases r <;> simp [tokenContract, Counted, RowOf]
  obtain ⟨hkeeps, hhonoured⟩ := keeps_reaches hany (runCalendarTool_keeps cfg tool) h
  refine ⟨fun l q r m hsplit => (hhonoured l q r m hsplit).1.2, ?_⟩
  rintro text rfl
  exact hkeeps

theorem calendar_call_discipline_deletion :
    ∃ t : History Answer, t.length = 7 ∧ (∀ l q r m, t = l ++ ⟨q, r⟩ :: m → InTime isoPython l q) ∧
      Accepted .delete "/calendars/primary/events/7" t := by
  have hstart : Reaches (runCalendarTool settings isoPython "ann" deletion) [] _ := .start
  have hloaded := hstart.answered (q := Ask.loadCredentials "ann")
    (.ok ⟨200, .ok (.arr [rowFor "ann"])⟩ : Except Fault Http)
  have hread := hloaded.answered (q := Ask.now) (1767225599000000 : Int)
  have hrefreshed := hread.answered (q := Ask.refresh (.str "rt-ann"))
    (.ok ⟨200, .ok (.obj [("access_token", .str "at-new"), ("expires_in", .int 3600)])⟩ : Except Fault Http)
  have hagain := hrefreshed.answered (q := Ask.now) (1767225599000000 : Int)
  have hsaving := hagain.answered (q := Ask.now) (1767225599000000 : Int)
  have hsaved := hsaving.answered (q := Ask.saveAccessToken "ann" (.str "at-new") 1767229199000000)
    (.ok ⟨500, .error (.other "ValueError")⟩ : Except Fault Http)
  have hdeleted := hsaved.answered (q := Ask.calendar .delete "/calendars/primary/events/7" (.str "at-new") none none)
    (.ok ⟨204, .error (.other "ValueError")⟩ : Except Fault Http)
  obtain ⟨hintime, hreports⟩ := calendar_call_discipline hdeleted
  exact ⟨_, rfl, hintime, hreports "Deleted event [id: 7]." rfl (by decide)⟩

end CoreHeartbeat.Calendar
