/-
  CoreHeartbeat.Web.FetchPage — `services/web.py`: `_is_public`, `_validate`, and `fetch_page`,
  which follows redirects by hand and validates each hop.

  The resolver and the servers answer as they like, each time anew (`World`): a name may resolve
  to public addresses at one validation and to private ones at the next, and a redirect may lead
  anywhere. A run leaves a trace of the hops it accepted and of the requests it made; the client
  is taken to contact the host that `urlparse` reports of a request's URL, and not to follow
  redirects.

  What is proved of a request is about the moment of its validation: right before it, its own
  URL was accepted, that is, all the addresses that its host resolved to then were public. That
  the client resolves the host once more is outside the trace. A URL is validated as it was
  parsed and requested as it was put together again, so the two have to name one host
  (`PyUrl.urlparse_urlunparse`).

  Proved:
  - `validate_checked`: an accepted URL, as it is put together again, names the host that was
    resolved, and all of its addresses are public.
  - `fetchFrom_cases`: all that a turn of the loop can do.
  - `fetch_safe`: in every run each request goes to a URL that was accepted right before it,
    there are at most `MAX_REDIRECTS` + 1 of them, and a page comes from the last.
-/

import CoreHeartbeat.Lib.Fallible
import CoreHeartbeat.Lib.PyUrl
import Mathlib.Data.List.Infix

namespace CoreHeartbeat.Web

open PyUrl

def allowedSchemes : List (List Char) := ["http", "https"].map String.toList
def maxRedirects : Nat := 3
def maxBytes : Nat := 2000000
def maxChars : Nat := 12000

/-- The name of an exception's type. -/
abbrev Fault := String

structure Ip where
  isPrivate : Bool
  isLoopback : Bool
  isLinkLocal : Bool
  isReserved : Bool
  isMulticast : Bool
  isUnspecified : Bool

structure Libraries where
  url : Tables
  /-- `ipaddress.ip_address`; `none` is a `ValueError`. -/
  ipAddress : String → Option Ip
  /-- `str(response.url.join(location))`. -/
  join : (url location : String) → Except Fault String
  /-- `body.decode(encoding, errors="replace")`. -/
  decode : ByteArray → (encoding : String) → Except Fault String
  /-- `_extract`: the title and the text of an HTML document. -/
  extract : String → Except Fault (String × String)

/-- The errors of a fetch, with what their texts name; `raised` is any other exception. -/
inductive WebFetchError where
  | scheme (got : String)
  | noHostname
  | unresolved (host : String)
  | privateAddress (host : String)
  | noDestination
  | status (code : Int)
  | notText (contentType : String)
  | noText
  | tooManyRedirects
  | raised (fault : Fault)

def WebFetchError.text : WebFetchError → String
  | .scheme got =>
    "only http and https URLs can be fetched (got '" ++ (if got = "" then "no scheme" else got) ++ "')"
  | .noHostname => "that URL has no hostname"
  | .unresolved host => "could not resolve " ++ host
  | .privateAddress host => host ++ " resolves to a private or local address, so it can't be fetched"
  | .noDestination => "redirect without a destination"
  | .status code => "the page returned HTTP " ++ toString code
  | .notText contentType => "that URL is " ++ contentType ++ ", not a readable page"
  | .noText => "that page has no readable text"
  | .tooManyRedirects => "too many redirects"
  | .raised fault => fault

/-! ## Validation -/

variable (lib : Libraries)

def isPublic (ipText : String) : Bool :=
  match lib.ipAddress ipText with
  | none => false
  | some ip =>
    !(ip.isPrivate || ip.isLoopback || ip.isLinkLocal || ip.isReserved || ip.isMulticast || ip.isUnspecified)

inductive ResolveFault where
  | gaierror
  | other (fault : Fault)

/-- `socket.getaddrinfo`: the addresses of a host. -/
abbrev Resolver := (host : String) → (port : Nat) → Except ResolveFault (List String)

/-- What `_validate` found out of a URL that it accepts, and the URL it returns. -/
structure Accepted where
  parsed : ParseResult
  host : String
  port : Nat
  addresses : List String

def Accepted.url (a : Accepted) : String := String.ofList a.parsed.urlunparse

def portOr (parsed : ParseResult) (port : Option Nat) : Nat :=
  if port.getD 0 ≠ 0 then port.getD 0 else if parsed.scheme = "https".toList then 443 else 80

def publicAddresses (resolve : Resolver) (host : String) (port : Nat) : Except WebFetchError (List String) :=
  match resolve host port with
  | .error .gaierror => .error (.unresolved host)
  | .error (.other fault) => .error (.raised fault)
  | .ok addresses =>
    if addresses = [] then .error (.unresolved host)
    -- one private address among public ones is enough
    else if !addresses.all (isPublic lib) then .error (.privateAddress host)
    else .ok addresses

def validate (resolve : Resolver) (url : String) : Except WebFetchError Accepted :=
  match urlparse lib.url (PyText.strip url.toList) with
  | none => .error (.raised "ValueError")
  | some parsed =>
    if !allowedSchemes.contains (parsed.scheme.map Char.toLower) then .error (.scheme (String.ofList parsed.scheme))
    else
      match parsed.hostname lib.url with
      | none => .error .noHostname
      | some [] => .error .noHostname
      | some host =>
        match parsed.port with
        | none => .error (.raised "ValueError")
        | some port =>
          (publicAddresses lib resolve (String.ofList host) (portOr parsed port)).map fun addresses =>
            ⟨parsed, String.ofList host, portOr parsed port, addresses⟩

/-- What an accepted URL is known for: a request to it goes to a host of a public web
    address, by `http` or `https`. -/
structure Checked (resolve : Resolver) (a : Accepted) : Prop where
  parses : urlparse lib.url a.url.toList = some a.parsed
  scheme : a.parsed.scheme ∈ allowedSchemes
  host : a.parsed.hostname lib.url = some a.host.toList
  named : a.host ≠ ""
  resolved : resolve a.host a.port = .ok a.addresses
  found : a.addresses ≠ []
  allPublic : ∀ address ∈ a.addresses, isPublic lib address = true

theorem netloc_of_hostname {t : Tables} {p : ParseResult} {host : List Char} (h : p.hostname t = some host) :
    p.netloc ≠ [] := by
  intro hnil
  simp [ParseResult.hostname, ParseResult.hostinfo, hnil, afterLast, before] at h

theorem isScheme_of_allowed : ∀ scheme ∈ allowedSchemes, isScheme scheme = true := by decide

variable {lib}

theorem publicAddresses_ok {resolve : Resolver} {host : String} {port : Nat} {addresses : List String}
    (h : publicAddresses lib resolve host port = .ok addresses) :
    resolve host port = .ok addresses ∧ addresses ≠ [] ∧ ∀ address ∈ addresses, isPublic lib address = true := by
  unfold publicAddresses at h
  split at h
  · cases h
  · cases h
  · rename_i found hresolve
    split at h
    · cases h
    · rename_i hfound
      split at h
      · cases h
      · rename_i hpublic
        obtain rfl := Except.ok.inj h
        exact ⟨hresolve, hfound, by simpa using hpublic⟩

theorem validate_checked {resolve : Resolver} {url : String} {a : Accepted} (h : validate lib resolve url = .ok a) :
    Checked lib resolve a := by
  unfold validate at h
  split at h
  · cases h
  · rename_i parsed hparse
    have hformed := urlparse_wellFormed hparse
    split at h
    · cases h
    · rename_i hallowed
      rw [hformed.lowered, Bool.not_eq_true, Bool.not_eq_false', List.contains_iff_mem] at hallowed
      split at h
      · cases h
      · cases h
      · rename_i host hne hhost
        split at h
        · cases h
        · rename_i port _
          cases haddresses : publicAddresses lib resolve (String.ofList host) (portOr parsed port) with
          | error e => rw [haddresses] at h; cases h
          | ok addresses =>
            rw [haddresses] at h
            obtain rfl := Except.ok.inj h
            obtain ⟨hresolve, hfound, hpublic⟩ := publicAddresses_ok haddresses
            exact {
              parses := by
                rw [Accepted.url, String.toList_ofList]
                exact urlparse_urlunparse hformed (isScheme_of_allowed _ hallowed) (netloc_of_hostname hhost)
              scheme := hallowed
              host := by rw [String.toList_ofList]; exact hhost
              named := fun hempty => hne (String.ofList_eq_empty_iff.mp hempty)
              resolved := hresolve
              found := hfound
              allPublic := hpublic }

variable (lib)

/-! ## Fetching -/

structure Response where
  isRedirect : Bool
  location : Option String
  url : String
  statusCode : Int
  contentType : Option String
  content : ByteArray
  encoding : Option String

/-- What a run meets: the resolver at each validation, and the answer to each request. -/
structure World where
  resolve : Nat → Resolver
  answer : Nat → (url : String) → Except Fault Response

structure Page where
  finalUrl : String
  title : String
  text : String
  deriving DecidableEq, Repr

def destination (response : Response) : Except WebFetchError String :=
  match response.location with
  | none => .error .noDestination
  | some location =>
    if location = "" then .error .noDestination else (lib.join response.url location).mapError .raised

def isText (contentType : String) : Bool :=
  ["text/html", "text/plain", "application/xhtml"].any fun t => t.toList <:+: contentType.toList

/-- The title and the text of a document, before the text is cut. -/
def readText (contentType html : String) : Except Fault (String × String) :=
  if "text/plain".toList <:+: contentType.toList then .ok ("", String.ofList (PyText.strip html.toList))
  else lib.extract html

def truncated (text : String) : String :=
  if text.length > maxChars then String.ofList (text.toList.take maxChars) ++ "\n\n[truncated]" else text

def readPage (response : Response) : Except WebFetchError Page := do
  let contentType := response.contentType.getD ""
  if response.statusCode ≥ 400 then .error (.status response.statusCode)
  else if !isText contentType then
    let got := before ';' contentType.toList
    .error (.notText (if got = [] then "not text" else String.ofList got))
  else
    let encoding := response.encoding.getD ""
    let body := response.content.extract 0 maxBytes
    let html ← (lib.decode body (if encoding = "" then "utf-8" else encoding)).mapError .raised
    let (title, text) ← (readText lib contentType html).mapError .raised
    if text = "" then .error .noText else .ok ⟨response.url, title, truncated text⟩

inductive Event where
  /-- `_validate` accepted what it was given, by the resolver of that moment. -/
  | accepted (hop : Nat) (given : String) (a : Accepted)
  /-- A GET request, and what came of it. -/
  | get (url : String) (answer : Except Fault Response)

def Event.isGet : Event → Bool
  | .accepted .. => false
  | .get .. => true

inductive Outcome where
  | page (page : Page)
  | redirected (given : String) (a : Accepted)

variable (world : World)

/-- What comes of the answer to request `hop`: a page, or the next URL. -/
def outcome (hop : Nat) (answer : Except Fault Response) : Except WebFetchError Outcome := do
  let response ← answer.mapError .raised
  if response.isRedirect then
    let given ← destination lib response
    let a ← validate lib (world.resolve (hop + 1)) given
    .ok (.redirected given a)
  else
    let page ← readPage lib response
    .ok (.page page)

/-- The loop of `fetch_page`, with what is left of its range. -/
def fetchFrom : (remaining hop : Nat) → (current : String) → List Event × Except WebFetchError Page
  | 0, _, _ => ([], .error .tooManyRedirects)
  | remaining + 1, hop, current =>
    let answer := world.answer hop current
    match outcome lib world hop answer with
    | .error e => ([.get current answer], .error e)
    | .ok (.page page) => ([.get current answer], .ok page)
    | .ok (.redirected given a) =>
      let (events, result) := fetchFrom remaining (hop + 1) a.url
      (.get current answer :: .accepted (hop + 1) given a :: events, result)

def fetchPage (url : String) : List Event × Except WebFetchError Page :=
  match validate lib (world.resolve 0) url with
  | .error e => ([], .error e)
  | .ok a =>
    let (events, result) := fetchFrom lib world (maxRedirects + 1) 0 a.url
    (.accepted 0 url a :: events, result)

/-! ## One hop -/

variable {lib world}

theorem ok_of_mapError {α : Type} {x : Except Fault α} {a : α} (h : x.mapError WebFetchError.raised = .ok a) :
    x = .ok a := by
  cases x with
  | error fault => cases h
  | ok b => exact congrArg _ (Except.ok.inj h)

theorem outcome_page {hop : Nat} {answer : Except Fault Response} {page : Page}
    (h : outcome lib world hop answer = .ok (.page page)) :
    ∃ response, answer = .ok response ∧ readPage lib response = .ok page := by
  obtain ⟨response, hanswer, h⟩ := Fallible.bind_ok.mp h
  refine ⟨response, ok_of_mapError hanswer, ?_⟩
  split at h
  · obtain ⟨given, -, h⟩ := Fallible.bind_ok.mp h
    obtain ⟨a, -, h⟩ := Fallible.bind_ok.mp h
    cases h
  · obtain ⟨page', hread, h⟩ := Fallible.bind_ok.mp h
    cases h
    exact hread

theorem outcome_redirected {hop : Nat} {answer : Except Fault Response} {given : String} {a : Accepted}
    (h : outcome lib world hop answer = .ok (.redirected given a)) :
    validate lib (world.resolve (hop + 1)) given = .ok a := by
  obtain ⟨response, -, h⟩ := Fallible.bind_ok.mp h
  split at h
  · obtain ⟨given', -, h⟩ := Fallible.bind_ok.mp h
    obtain ⟨a', hvalid, h⟩ := Fallible.bind_ok.mp h
    cases h
    exact hvalid
  · obtain ⟨page, -, h⟩ := Fallible.bind_ok.mp h
    cases h

/-- All that a turn of the loop can do: end with its request, which brought the page if there
    is one, or request and go on to an accepted URL. -/
theorem fetchFrom_cases (remaining hop : Nat) (current : String) :
    (∃ answer result, fetchFrom lib world (remaining + 1) hop current = ([.get current answer], result) ∧
      ∀ page, result = .ok page → ∃ response, answer = .ok response ∧ readPage lib response = .ok page) ∨
    ∃ answer given a, validate lib (world.resolve (hop + 1)) given = .ok a ∧
      fetchFrom lib world (remaining + 1) hop current =
        (.get current answer :: .accepted (hop + 1) given a :: (fetchFrom lib world remaining (hop + 1) a.url).1,
          (fetchFrom lib world remaining (hop + 1) a.url).2) := by
  match h : outcome lib world hop (world.answer hop current) with
  | .error e =>
    exact Or.inl ⟨world.answer hop current, .error e, by simp only [fetchFrom, h], nofun⟩
  | .ok (.page page) =>
    refine Or.inl ⟨world.answer hop current, .ok page, by simp only [fetchFrom, h], ?_⟩
    intro page' hpage
    cases hpage
    exact outcome_page h
  | .ok (.redirected given a) =>
    exact Or.inr ⟨world.answer hop current, given, a, outcome_redirected h, by simp only [fetchFrom, h]⟩

/-! ## Whole runs -/

variable (lib world)

/-- Each request of the trace goes to the URL that was accepted right before it. -/
def Guarded (trace : List Event) : Prop :=
  ∀ earlier url answer later, trace = earlier ++ .get url answer :: later →
    ∃ earlier' hop given a, earlier = earlier' ++ [.accepted hop given a] ∧ a.url = url ∧
      validate lib (world.resolve hop) given = .ok a

variable {lib world}

theorem guarded_nil : Guarded lib world [] := by
  intro earlier url answer later h
  cases earlier with
  | nil => cases h
  | cons e earlier => cases h

theorem guarded_accepted (hop : Nat) (given : String) (a : Accepted) :
    Guarded lib world [.accepted hop given a] := by
  intro earlier url answer later h
  obtain ⟨e, h⟩ | ⟨_, h⟩ := List.cons_eq_append_iff.mp h
  · cases h
  · simp at h

/-- The step: a URL is accepted, and requested. -/
theorem guarded_get {hop : Nat} {given : String} {a : Accepted} {events : List Event}
    (ha : validate lib (world.resolve hop) given = .ok a) (answer : Except Fault Response)
    (hrest : Guarded lib world events) :
    Guarded lib world (.accepted hop given a :: .get a.url answer :: events) := by
  intro earlier url answer' later h
  match earlier with
  | [] => cases h
  | [e] =>
    cases h
    exact ⟨[], hop, given, a, rfl, rfl, ha⟩
  | e :: e' :: earlier =>
    obtain ⟨-, h⟩ := List.cons.inj h
    obtain ⟨-, h⟩ := List.cons.inj h
    obtain ⟨earlier', hop', given', a', hlast, haccepted⟩ := hrest earlier url answer' later h
    exact ⟨e :: e' :: earlier', hop', given', a', by rw [hlast]; rfl, haccepted⟩

theorem fetchFrom_guarded {remaining hop : Nat} {given : String} {a : Accepted}
    (ha : validate lib (world.resolve hop) given = .ok a) :
    Guarded lib world (.accepted hop given a :: (fetchFrom lib world remaining hop a.url).1) := by
  induction remaining generalizing hop given a with
  | zero => exact guarded_accepted hop given a
  | succ remaining ih =>
    obtain ⟨answer, result, hends, -⟩ | ⟨answer, given', a', ha', hgoes⟩ := fetchFrom_cases remaining hop a.url
    · rw [hends]
      exact guarded_get ha answer guarded_nil
    · rw [hgoes]
      exact guarded_get ha answer (ih ha')

theorem fetchFrom_requests (remaining hop : Nat) (current : String) :
    (fetchFrom lib world remaining hop current).1.countP Event.isGet ≤ remaining := by
  induction remaining generalizing hop current with
  | zero => exact Nat.le_refl 0
  | succ remaining ih =>
    obtain ⟨answer, result, hends, -⟩ | ⟨answer, given, a, -, hgoes⟩ := fetchFrom_cases remaining hop current
    · rw [hends]
      exact Nat.le_add_left 1 remaining
    · rw [hgoes, List.countP_cons_of_pos rfl, List.countP_cons_of_neg Bool.false_ne_true]
      exact Nat.add_le_add_right (ih (hop + 1) a.url) 1

/-- A page is what the last request brought. -/
theorem fetchFrom_page {remaining hop : Nat} {current : String} {page : Page}
    (h : (fetchFrom lib world remaining hop current).2 = .ok page) :
    ∃ url response, (fetchFrom lib world remaining hop current).1.getLast? = some (.get url (.ok response)) ∧
      readPage lib response = .ok page := by
  induction remaining generalizing hop current with
  | zero => cases h
  | succ remaining ih =>
    obtain ⟨answer, result, hends, hpage⟩ | ⟨answer, given, a, -, hgoes⟩ := fetchFrom_cases remaining hop current
    · rw [hends] at h ⊢
      obtain ⟨response, hanswer, hread⟩ := hpage page h
      exact ⟨current, response, by rw [hanswer]; rfl, hread⟩
    · rw [hgoes] at h ⊢
      obtain ⟨url, response, hlast, hread⟩ := ih h
      exact ⟨url, response, List.mem_getLast?_cons (List.mem_getLast?_cons hlast), hread⟩

/-- Whatever a URL, the resolver and the servers do: a request goes to what was accepted
    right before it, which is on public addresses only; there are at most `MAX_REDIRECTS` + 1,
    and a page is what the last one brought. -/
theorem fetch_safe (lib : Libraries) (world : World) (url : String) :
    (fetchPage lib world url).1.countP Event.isGet ≤ maxRedirects + 1 ∧
    (∀ earlier current answer later, (fetchPage lib world url).1 = earlier ++ .get current answer :: later →
      ∃ earlier' hop given a, earlier = earlier' ++ [.accepted hop given a] ∧ a.url = current ∧
        validate lib (world.resolve hop) given = .ok a ∧ Checked lib (world.resolve hop) a) ∧
    ∀ page, (fetchPage lib world url).2 = .ok page →
      ∃ current response, (fetchPage lib world url).1.getLast? = some (.get current (.ok response)) ∧
        readPage lib response = .ok page := by
  have hguarded : Guarded lib world (fetchPage lib world url).1 := by
    unfold fetchPage
    split
    · exact guarded_nil
    · rename_i a ha
      exact fetchFrom_guarded ha
  refine ⟨?_, ?_, ?_⟩
  · unfold fetchPage
    split
    · exact Nat.zero_le _
    · rename_i a _
      simpa [Event.isGet] using fetchFrom_requests (maxRedirects + 1) 0 a.url
  · intro earlier current answer later h
    obtain ⟨earlier', hop, given, a, hlast, hurl, ha⟩ := hguarded earlier current answer later h
    exact ⟨earlier', hop, given, a, hlast, hurl, ha, validate_checked ha⟩
  · intro page h
    unfold fetchPage at h ⊢
    split at h
    · cases h
    · rename_i a _
      obtain ⟨current, response, hlast, hread⟩ := fetchFrom_page h
      exact ⟨current, response, List.mem_getLast?_cons hlast, hread⟩

end CoreHeartbeat.Web
