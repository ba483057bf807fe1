/-
  CoreHeartbeat.Flights.Search — the flight search (`search_flights` of `tools/flights.py`): the
  offers of up to four origins, those kept by the time asked for, a line of text for each, and
  the lines sorted as text.

  An offer has the fields that are read, absent or of the type the service documents: segments
  with their airports, times and flight numbers, the carrier, the price. The service may answer
  for each origin with offers, with an error of any status, or with nothing that can be read;
  its client may fail to be made. How texts are lowered and times are read comes from Python as
  parameters (`Casing`, `Reading`).

  A line carries the departure that its offer has, which the program does not keep. So an order
  of departures can be spoken of beside the order of texts that the program uses, and what the
  filter kept can be compared with what the heading says.

  Proved:
  - `gather_lines`: what is rendered is the lines of the offers received that are not before the
    time asked for, in the order received.
  - `searchFlights_lines`: what is shown is the first of them in text order, and what is left
    out the others.
  - `searchFlights_refused`: a search that is refused answers with the refusal alone.

  `Cutoff` and `Order` are about the filter and about the sort.
-/

import CoreHeartbeat.Lib.PyText
import CoreHeartbeat.Lib.PyTime
import CoreHeartbeat.Lib.StableSort

namespace CoreHeartbeat.Flights

open PyText (isSpace strip)
open PyTime (Time strptime clockHM clockIMp clockIp clockCompact)

/-! ## Offers -/

structure Stop where
  iataCode : Option String := none
  time : Option String := none

structure Segment where
  departure : Stop := {}
  arrival : Stop := {}
  carrierCode : String := ""

structure Itinerary where
  segments : List Segment := []
  duration : String := ""

structure Price where
  grandTotal : Option String := none
  total : Option String := none
  currency : String := "USD"

structure Offer where
  itineraries : List Itinerary := []
  price : Price := {}

structure Casing extends PyText.Unicode where
  /-- `str.upper` of one character. -/
  upper : Char → List Char
  /-- `str.lower`. -/
  lower : List Char → List Char
  upper_ascii : ∀ c : Char, c.toNat < 128 → upper c = [c.toUpper]
  upper_space : ∀ c : Char, isSpace c = true → upper c = [c]

structure Reading where
  casing : Casing
  /-- `datetime.fromisoformat(t).time()` of a text in any other form than a date and a time
      to the second, unless it raises. -/
  otherIso : List Char → Option Time

variable (r : Reading)

/-- `datetime.fromisoformat(value).time()`. -/
def Reading.time (value : String) : Option Time :=
  (PyTime.ofIsoSeconds value.toList).or (r.otherIso value.toList)

def Reading.upper (t : List Char) : List Char := t.flatMap r.casing.upper

def isoMinutes (value : String) : String :=
  match r.time value with
  | some t => String.ofList t.clock12
  | none => value

def duration (iso : String) : String :=
  let t := iso.toList
  let t := if "PT".toList.isPrefixOf t then t.drop 2 else t
  String.ofList (strip ((r.casing.lower t).flatMap fun c => if c = 'h' then ['h', ' '] else [c]))

def formats : List (PyTime.Reader (Nat × Nat)) :=
  [clockHM r.casing.decimal, clockIMp r.casing.decimal, clockIp, clockCompact r.casing.decimal]

/-- The time that `_after` compares with, if one of the formats reads it. -/
def cutoff (earliest : String) : Option Time :=
  (formats r).findSome? fun format => strptime format (r.upper (strip earliest.toList))

def after (departIso : String) (earliest : Option String) : Bool :=
  match earliest.filter (· ≠ "") with
  | none => true
  | some earliest =>
    match r.time departIso with
    | none => true
    | some dep =>
      match cutoff r earliest with
      | some cutoff => cutoff ≤ dep
      | none => true

/-! ## Lines -/

structure Line where
  text : String
  departure : String

def stopsText (segments : List Segment) : String :=
  match segments with
  | [_] => " nonstop"
  | [first, _] => " 1 stop in " ++ (first.arrival.iataCode.filter (· ≠ "")).getD "?"
  | _ => " " ++ toString (segments.length - 1) ++ " stops"

def costText (price : Price) : String :=
  match (price.grandTotal.filter (· ≠ "")).or (price.total.filter (· ≠ "")) with
  | some amount => ", from " ++ amount ++ " " ++ price.currency
  | none => ""

/-- The line of one offer, which an offer without segments has not. -/
def renderOffer (carriers : List (String × String)) (offer : Offer) : Option Line :=
  let itin := offer.itineraries.headD {}
  match itin.segments with
  | [] => none
  | first :: rest =>
    let last := (first :: rest).getLastD first
    let airline := (carriers.lookup first.carrierCode).getD first.carrierCode
    let dep := first.departure
    let arr := last.arrival
    some
      { text := "- " ++ airline ++ " " ++ dep.iataCode.getD "?" ++ " " ++ isoMinutes r (dep.time.getD "") ++ " " ++
          "-> " ++ arr.iataCode.getD "?" ++ " " ++ isoMinutes r (arr.time.getD "") ++ ", " ++
          duration r itin.duration ++ "," ++ stopsText (first :: rest) ++ costText offer.price
        departure := dep.time.getD "" }

def render (offers : List Offer) (carriers : List (String × String)) : List Line :=
  offers.filterMap (renderOffer r carriers)

/-! ## The search -/

inductive Origins where
  | text (s : String)
  | list (l : List String)

def Origins.truthy : Origins → Bool
  | .text s => s ≠ ""
  | .list l => l ≠ []

structure Args where
  origins : Option Origins := none
  origin : Option Origins := none
  destination : Option String := none
  departureDate : Option String := none
  earliestDepartureTime : Option String := none

inductive Reply where
  /-- The request, `int(adults)` or the body's JSON raises. -/
  | raised (type : String)
  | refused (status : Nat)
  | body (data : List Offer) (carriers : List (String × String))

inductive ClientFault where
  | runtimeError (detail : String)
  | other (type : String)

structure Service where
  configured : Bool := true
  fault : Option ClientFault := none
  /-- For the n-th of the origins asked. -/
  reply : Nat → String → Reply

def maxRendered : Nat := 8

def originList (args : Args) : List String :=
  match (args.origins.filter Origins.truthy).or (args.origin.filter Origins.truthy) with
  | none => []
  | some (.list l) => l
  | some (.text s) =>
    (PyText.splitWords [] (s.toList.map fun c => if c = ',' then ' ' else c)).map fun word =>
      String.ofList (r.upper (strip word))

def firstDeparture (offer : Offer) : String :=
  ((offer.itineraries.headD {}).segments.headD {}).departure.time.getD ""

def kept (earliest : Option String) (data : List Offer) : List Offer :=
  data.filter fun o => after r (firstDeparture o) earliest

def searchOrigin (earliest : Option String) (service : Service) (gathered : List Line × List String)
    (origin : String × Nat) : List Line × List String :=
  match service.reply origin.2 origin.1 with
  | .raised type => (gathered.1, gathered.2 ++ [origin.1 ++ ": " ++ type])
  | .refused status => (gathered.1, gathered.2 ++ [origin.1 ++ ": HTTP " ++ toString status])
  | .body data carriers =>
    if (kept r earliest data).isEmpty then
      (gathered.1, gathered.2 ++ [origin.1 ++ ": no itineraries matching that time"])
    else (gathered.1 ++ render r (kept r earliest data) carriers, gathered.2)

def gather (args : Args) (service : Service) : List Line × List String :=
  ((originList r args).take 4).zipIdx.foldl (searchOrigin r args.earliestDepartureTime service) ([], [])

inductive Answer where
  | error (text : String)
  | noFlights (route : String) (earliest : Option String) (detail : String)
  /-- The lines in the order they are sorted in. -/
  | flights (route : String) (earliest : Option String) (origins : String) (lines : List Line)

def TextOrder (a b : Line) : Prop := a.text ≤ b.text

instance : DecidableRel TextOrder := fun a b => inferInstanceAs (Decidable (a.text ≤ b.text))

/-- `sort(key=lambda line: line)`. -/
def sortLines (lines : List Line) : List Line := lines.insertionSort TextOrder

def destinationOf (args : Args) : String := String.ofList (r.upper (strip (args.destination.getD "").toList))

def dateOf (args : Args) : String := String.ofList (strip (args.departureDate.getD "").toList)

/-- The text of a search that ends before its first request, or with the client. -/
def refusal (args : Args) (service : Service) : Option String :=
  if originList r args = [] ∨ destinationOf r args = "" ∨ dateOf args = "" then
    some "error: origins, destination and departure_date are all required"
  else if !service.configured then
    some ("error: live flight search is not configured on this server " ++
      "(no Amadeus API credentials). Real schedules and fares cannot be " ++
      "retrieved — say so plainly rather than estimating.")
  else
    service.fault.map fun
      | .runtimeError detail => "error: " ++ detail
      | .other type => "error: flight search failed (" ++ type ++ ")"

def searchFlights (args : Args) (service : Service) : Answer :=
  match refusal r args service with
  | some text => .error text
  | none =>
    let (rendered, errors) := gather r args service
    let names := ", ".intercalate (originList r args)
    if rendered.isEmpty then
      .noFlights ("from " ++ names ++ " to " ++ destinationOf r args ++ " on " ++ dateOf args) args.earliestDepartureTime
        (if errors.isEmpty then "no itineraries returned" else "; ".intercalate errors)
    else
      .flights ("to " ++ destinationOf r args ++ " on " ++ dateOf args) args.earliestDepartureTime names
        (sortLines rendered)

/-- ` departing after …`, unless no time was asked for. -/
def departingAfter (comma : String) (earliest : Option String) : String :=
  match earliest.filter (· ≠ "") with
  | some earliest => comma ++ " departing after " ++ earliest
  | none => ""

def Answer.shown : Answer → List Line
  | .flights _ _ _ lines => lines.take maxRendered
  | _ => []

def Answer.leftOut : Answer → List Line
  | .flights _ _ _ lines => lines.drop maxRendered
  | _ => []

def heading (route : String) (earliest : Option String) (origins : String) : String :=
  "Flights " ++ route ++ departingAfter "," earliest ++ " (from " ++ origins ++ "):"

def Answer.text : Answer → String
  | .error text => text
  | .noFlights route earliest detail =>
    "No flights found " ++ route ++ departingAfter "" earliest ++ ". (" ++ detail ++ ")"
  | .flights route earliest origins lines =>
    heading route earliest origins ++ "\n" ++ "\n".intercalate ((lines.take maxRendered).map (·.text)) ++
      (if lines.length ≤ maxRendered then ""
        else "\n(" ++ toString (lines.length - maxRendered) ++ " more not shown.)") ++
      "\nTimes are LOCAL to each airport. Prices are the lowest available fare at " ++
        "search time and change constantly."

/-! ## The itineraries of a search -/

def Reply.offers : Reply → List (Offer × List (String × String))
  | .body data carriers => data.map fun offer => (offer, carriers)
  | _ => []

/-- The offers of all origins, in the order received, with the names of their carriers. -/
def offered (args : Args) (service : Service) : List (Offer × List (String × String)) :=
  ((originList r args).take 4).zipIdx.flatMap fun origin => (service.reply origin.2 origin.1).offers

def lineOf (earliest : Option String) (o : Offer × List (String × String)) : Option Line :=
  if after r (firstDeparture o.1) earliest then renderOffer r o.2 o.1 else none

def itineraries (args : Args) (service : Service) : List Line :=
  (offered r args service).filterMap (lineOf r args.earliestDepartureTime)

theorem render_kept (earliest : Option String) (data : List Offer) (carriers : List (String × String)) :
    render r (kept r earliest data) carriers =
      (data.map fun offer => (offer, carriers)).filterMap (lineOf r earliest) := by
  unfold render kept
  induction data with
  | nil => rfl
  | cons offer data ih =>
    rw [List.filter_cons, List.map_cons, List.filterMap_cons]
    cases hafter : after r (firstDeparture offer) earliest with
    | false => simp [lineOf, hafter, ih]
    | true =>
      simp only [if_true, List.filterMap_cons, ih, lineOf, hafter]

/-- One origin adds the lines of its offers. -/
theorem searchOrigin_lines (earliest : Option String) (service : Service) (gathered : List Line × List String)
    (origin : String × Nat) :
    (searchOrigin r earliest service gathered origin).1 =
      gathered.1 ++ (service.reply origin.2 origin.1).offers.filterMap (lineOf r earliest) := by
  unfold searchOrigin
  cases service.reply origin.2 origin.1 with
  | raised type => exact (List.append_nil _).symm
  | refused status => exact (List.append_nil _).symm
  | body data carriers =>
    dsimp only [Reply.offers]
    rw [← render_kept]
    split
    · rename_i hnone
      rw [List.isEmpty_iff.mp hnone]
      exact (List.append_nil _).symm
    · rfl

theorem gather_lines (args : Args) (service : Service) : (gather r args service).1 = itineraries r args service := by
  have hfold : ∀ (origins : List (String × Nat)) (gathered : List Line × List String),
      (origins.foldl (searchOrigin r args.earliestDepartureTime service) gathered).1 = gathered.1 ++
        (origins.flatMap fun origin => (service.reply origin.2 origin.1).offers).filterMap
          (lineOf r args.earliestDepartureTime) := by
    intro origins
    induction origins with
    | nil => intro gathered; simp
    | cons origin origins ih =>
      intro gathered
      rw [List.foldl_cons, ih, searchOrigin_lines, List.flatMap_cons, List.filterMap_append, List.append_assoc]
  unfold gather itineraries offered
  rw [hfold, List.nil_append]

/-- What is shown is the first lines in text order, and what is left out the others. -/
theorem searchFlights_lines {args : Args} {service : Service} (h : refusal r args service = none) :
    (searchFlights r args service).shown = (sortLines (itineraries r args service)).take maxRendered ∧
      (searchFlights r args service).leftOut = (sortLines (itineraries r args service)).drop maxRendered := by
  unfold searchFlights
  rw [h, ← gather_lines]
  dsimp only
  split
  · rename_i hnone
    rw [List.isEmpty_iff.mp hnone]
    exact ⟨rfl, rfl⟩
  · exact ⟨rfl, rfl⟩

theorem searchFlights_refused {args : Args} {service : Service} {text : String} (h : refusal r args service = some text) :
    searchFlights r args service = .error text := by
  unfold searchFlights
  rw [h]

end CoreHeartbeat.Flights
