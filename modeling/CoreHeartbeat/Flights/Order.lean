/-
  CoreHeartbeat.Flights.Order — the order of the itineraries that a search shows
  (`search_flights` of `tools/flights.py`).

  The lines are sorted as text: by airline, by airport, and then by a time on the twelve-hour
  clock without a leading zero, so that ten o'clock comes before nine. The comment over the sort
  says that the earliest option is first.

  The offers are those of all origins in the order received. The order that is promised is that
  of departures, and it is compared with the order of texts on the lines themselves: a line
  carries the departure of its offer, which the program drops. A sort that is stable leaves
  equal lines as they came, and equal lines may depart at different times; so the comparison is
  of lines with their positions (`StableSort.Before`).

  Proved:
  - `departures_ordered_iff`: what is shown is in the order of departure, and before what is
    left out, exactly when no itinerary whose line comes after another's departs before it,
    unless eight lines come before both.
  - `ten_comes_before_nine`: two flights of one airline, and the later one is listed first.
-/

import CoreHeartbeat.Flights.Search

namespace CoreHeartbeat.Flights

open StableSort (Before rank)

variable (r : Reading)

def DepartsLater (a b : Line) : Prop :=
  ∃ t u, r.time a.departure = some t ∧ r.time b.departure = some u ∧ ¬ t ≤ u

/-- The itineraries shown are in the order of departure, and those left out depart no
    earlier. -/
def DepartureOrdered (answer : Answer) : Prop :=
  answer.shown.Pairwise (fun a b => ¬ DepartsLater r a b) ∧
    ∀ a ∈ answer.shown, ∀ b ∈ answer.leftOut, ¬ DepartsLater r a b

/-- Of two lines, each with its position, the first in text order departs no later, unless as
    many lines as are shown come before it. -/
def OrdersAgree (lines : List Line) : Prop :=
  ∀ a ∈ lines.zipIdx, ∀ b ∈ lines.zipIdx, Before TextOrder a b → rank TextOrder lines a < maxRendered →
    ¬ DepartsLater r a.1 b.1

/-- For every list of origins and all offers returned for them: the itineraries shown are in
    the order of departure, and those left out depart no earlier, if and only if the order of
    the lines as text agrees with that of the departures as far as the lines are shown. -/
theorem departures_ordered_iff (args : Args) (service : Service) :
    DepartureOrdered r (searchFlights r args service) ↔
      (refusal r args service = none → OrdersAgree r (itineraries r args service)) := by
  unfold DepartureOrdered
  cases hrefusal : refusal r args service with
  | some text =>
    rw [searchFlights_refused r hrefusal]
    exact iff_of_true ⟨List.Pairwise.nil, fun a ha => by cases ha⟩ fun h => by cases h
  | none =>
    obtain ⟨hshown, hleft⟩ := searchFlights_lines r hrefusal
    have htotal : ∀ a b : Line, TextOrder a b ∨ TextOrder b a := fun a b => String.le_total a.text b.text
    have htrans : ∀ a b c : Line, TextOrder a b → TextOrder b c → TextOrder a c := fun _ _ _ => String.le_trans
    rw [hshown, hleft, forall_prop_of_true rfl]
    exact StableSort.ordered_take_iff htotal htrans _ maxRendered fun a b => ¬ DepartsLater r a b

/-! ## A morning -/

/-- The tables of ASCII texts, and times to the second alone. -/
def asciiReading : Reading where
  casing :=
    { PyText.Unicode.ascii with
      upper := fun c => [c.toUpper]
      lower := fun t => t.map Char.toLower
      upper_ascii := fun _ _ => rfl
      upper_space := fun c h => by
        have hlower : (decide ('a'.val ≤ c.val) && decide (c.val ≤ 'z'.val)) = false :=
          (Bool.or_eq_false_iff.mp (PyTime.isAlpha_of_isSpace h)).2
        have hsame : c.toUpper = c := dif_neg fun hrange => by
          rw [decide_eq_true hrange.1, decide_eq_true hrange.2] at hlower
          cases hlower
        rw [hsame] }
  otherIso := fun _ => none

def flightAt (time : String) : Offer :=
  { itineraries := [{ segments := [{ departure := ⟨some "SAV", some ("2026-09-18T" ++ time)⟩,
                                     arrival := ⟨some "MEM", some "2026-09-18T15:50:00"⟩, carrierCode := "DL" }],
                      duration := "PT4H17M" }],
    price := { grandTotal := some "249.40" } }

def savannahToMemphis : Args :=
  { origins := some (.text "sav"), destination := some "MEM", departureDate := some "2026-09-18" }

def morning : Service :=
  { reply := fun _ _ => .body [flightAt "09:00:00", flightAt "10:00:00"] [("DL", "DELTA AIR LINES")] }

/-- The later flight is listed first. -/
theorem ten_comes_before_nine :
    (searchFlights asciiReading savannahToMemphis morning).shown.map (·.text) =
        ["- DELTA AIR LINES SAV 10:00 AM -> MEM 3:50 PM, 4h 17m, nonstop, from 249.40 USD",
          "- DELTA AIR LINES SAV 9:00 AM -> MEM 3:50 PM, 4h 17m, nonstop, from 249.40 USD"] ∧
      ¬ DepartureOrdered asciiReading (searchFlights asciiReading savannahToMemphis morning) := by
  have hdepartures : (searchFlights asciiReading savannahToMemphis morning).shown.map (·.departure) =
      ["2026-09-18T10:00:00", "2026-09-18T09:00:00"] := by decide +kernel
  refine ⟨by decide +kernel, fun h => ?_⟩
  have hpairs : ["2026-09-18T10:00:00", "2026-09-18T09:00:00"].Pairwise fun a b =>
      ¬ DepartsLater asciiReading ⟨"", a⟩ ⟨"", b⟩ := by
    rw [← hdepartures]
    exact List.pairwise_map.mpr h.1
  have hlater : DepartsLater asciiReading ⟨"", "2026-09-18T10:00:00"⟩ ⟨"", "2026-09-18T09:00:00"⟩ :=
    ⟨⟨10, 0, 0, 0, by decide, by decide, by decide, by decide⟩, ⟨9, 0, 0, 0, by decide, by decide, by decide, by decide⟩,
      by decide +kernel, by decide +kernel, by decide⟩
  exact (List.pairwise_cons.mp hpairs).1 _ List.mem_cons_self hlater

end CoreHeartbeat.Flights
