/-
  CoreHeartbeat.Flights.Cutoff — the time asked for (`_after` and the heading of
  `search_flights`, `tools/flights.py`).

  Four formats of `strptime` are tried. Of the spellings of a clock time they read every one in
  24-hour form, minutes with a gap before AM or PM, and an hour alone without one. A time that
  none reads is no filter, and the heading repeats it all the same.

  A `Spelling` is a clock time and a way to write it: `H:MM` or `HH:MM` in 24-hour form, `H:MM`
  or `H` with AM or PM, in upper or lower case, with whitespace of any kind before the mark or
  without. Python's tables of letters and digits are a parameter, and the formats are the
  readers of `PyTime`, with the order in which the regular expressions of `_strptime` try them.
  `Readable` is a condition on the spelling alone.

  Proved:
  - `cutoff_spelling`: a spelling is read as its time, or not at all.
  - `itineraries_read`, `itineraries_unread`: one that is read keeps the offers that depart at
    its time or later, and one that is not keeps all.
  - `listing_claims`: an answer that lists itineraries says after which time they depart.
  - `cutoff_honoured_iff`: no itinerary is listed that departs before the time in the heading
    exactly when the spelling is read, or when none of the lines shown does anyway
    (`a_missing_space_drops_the_filter`: a flight at nine under "departing after 1:30PM").
-/

import CoreHeartbeat.Flights.Order

namespace CoreHeartbeat.Flights

open PyText (isSpace strip)
open PyTime (Time hourText markText from12 strptime ofHms)
open PyDate (pad2)
open StableSort (rank)

/-! ## Spellings of a clock time -/

/-- A clock time as `H:MM` or `HH:MM` in 24-hour form, or as `H:MM` or `H` and AM or PM, in any
    case, with a gap of whitespace or without. -/
inductive Spelling where
  | clock24 (hour : Fin 24) (padded : Bool) (minute : Fin 60)
  /-- `hour` is one less than what is written. -/
  | clock12 (hour : Fin 12) (padded : Bool) (minute : Option (Fin 60)) (gap : { g : List Char // ∀ c ∈ g, isSpace c = true })
      (pm : Bool) (small : Bool × Bool)

def minuteText (minute : Option (Fin 60)) : List Char :=
  match minute with
  | some m => ':' :: pad2 m
  | none => []

def markAs (pm : Bool) (small : Bool × Bool) : List Char :=
  [if pm then (if small.1 then 'p' else 'P') else (if small.1 then 'a' else 'A'), if small.2 then 'm' else 'M']

def Spelling.text : Spelling → List Char
  | .clock24 hour padded minute => hourText hour padded ++ ':' :: pad2 minute
  | .clock12 hour padded minute gap pm small =>
    hourText (hour + 1) padded ++ (minuteText minute ++ (gap.1 ++ markAs pm small))

def timeAt (hour : Nat) (minute : Fin 60) (h : hour < 24) : Time :=
  ⟨hour, minute, 0, 0, h, minute.isLt, Nat.succ_pos _, Nat.succ_pos _⟩

theorem from12_lt (hour : Nat) (pm : Bool) : from12 hour pm < 24 := by
  have := Nat.mod_lt hour (show 0 < 12 by decide)
  unfold from12
  split <;> omega

def Spelling.time : Spelling → Time
  | .clock24 hour _ minute => timeAt hour minute hour.isLt
  | .clock12 hour _ minute _ pm _ => timeAt (from12 (hour + 1) pm) (minute.getD 0) (from12_lt _ _)

/-- In 24-hour form; or with minutes and a gap, or with neither. -/
def Spelling.Readable : Spelling → Prop
  | .clock24 .. => True
  | .clock12 _ _ minute gap _ _ => minute.isSome = true ↔ gap.1 ≠ []

instance (s : Spelling) : Decidable s.Readable := by
  cases s with
  | clock24 => exact instDecidableTrue
  | clock12 => exact inferInstanceAs (Decidable (_ ↔ _))

/-- The heading of an answer claims the time, and no itinerary listed departs before it. -/
def Honoured (r : Reading) (s : Spelling) (answer : Answer) : Prop :=
  (" departing after " ++ String.ofList s.text).toList <:+: answer.text.toList →
    ∀ line ∈ answer.shown, ∀ t, r.time line.departure = some t → s.time ≤ t

variable (r : Reading)

/-! ## What the formats read -/

/-- Digits, a colon and whitespace are in upper case as they are. -/
theorem upper_plain {t : List Char} (h : ∀ c ∈ t, c.isDigit = true ∨ c = ':' ∨ isSpace c = true) : r.upper t = t := by
  have hone : ∀ c ∈ t, r.casing.upper c = [c] := by
    intro c hc
    rcases h c hc with hdigit | rfl | hspace
    · have hn := PyText.toNat_of_isDigit hdigit
      have hsame : c.toUpper = c := dif_neg fun hrange => by
        have hlo : 97 ≤ c.toNat := UInt32.le_iff_toNat_le.mp hrange.1
        omega
      rw [r.casing.upper_ascii c (by omega), hsame]
    · exact r.casing.upper_ascii ':' (by decide)
    · exact r.casing.upper_space c hspace
  unfold Reading.upper
  rw [List.flatMap_congr hone, List.flatMap_singleton']

theorem upper_mark (pm : Bool) (small : Bool × Bool) : r.upper (markAs pm small) = markText pm := by
  obtain ⟨first, second⟩ := small
  cases pm <;> cases first <;> cases second <;> simp [Reading.upper, markAs, markText, r.casing.upper_ascii]

theorem pad2_digits (n : Nat) : ∀ c ∈ pad2 n, c.isDigit = true := by
  simp [pad2, (PyDate.digitChar_spec (show n / 10 % 10 < 10 by omega)).1,
    (PyDate.digitChar_spec (show n % 10 < 10 by omega)).1]

theorem hourText_digits (hour : Nat) (padded : Bool) : ∀ c ∈ hourText hour padded, c.isDigit = true := by
  unfold hourText
  split
  · rename_i hone
    rw [Bool.and_eq_true, decide_eq_true_eq] at hone
    simpa using (PyDate.digitChar_spec hone.1).1
  · exact pad2_digits hour

theorem hourText_head (hour : Nat) (padded : Bool) (t : List Char) :
    ∃ c ∈ (hourText hour padded ++ t).head?, c.isDigit = true := by
  have hdigits := hourText_digits hour padded
  have hne : hourText hour padded ≠ [] := by
    unfold hourText
    split <;> simp [pad2]
  obtain ⟨c, rest, hcons⟩ := List.exists_cons_of_ne_nil hne
  rw [hcons] at hdigits ⊢
  exact ⟨c, rfl, hdigits c List.mem_cons_self⟩

/-- A text between characters that are no whitespace. -/
theorem strip_spelling {t : List Char} {y : Char} (hour : Nat) (padded : Bool) (hy : isSpace y = false) :
    strip (hourText hour padded ++ (t ++ [y])) = hourText hour padded ++ (t ++ [y]) := by
  rw [PyText.strip_eq_self_iff]
  constructor
  · obtain ⟨c, hc, hdigit⟩ := hourText_head hour padded (t ++ [y])
    intro d hd
    obtain rfl := Option.some.inj (hc.symm.trans hd)
    exact PyText.isSpace_of_isDigit hdigit
  · intro d hd
    rw [← List.append_assoc, List.getLast?_concat, Option.mem_some_iff] at hd
    rwa [← hd]

def Spelling.upperText : Spelling → List Char
  | .clock24 hour padded minute => hourText hour padded ++ ':' :: pad2 minute
  | .clock12 hour padded minute gap pm _ => hourText (hour + 1) padded ++ (minuteText minute ++ (gap.1 ++ markText pm))

theorem upper_append (t u : List Char) : r.upper (t ++ u) = r.upper t ++ r.upper u := List.flatMap_append

theorem upper_strip_text (s : Spelling) : r.upper (strip s.text) = s.upperText := by
  have hhour : ∀ hour padded, r.upper (hourText hour padded) = hourText hour padded := fun hour padded =>
    upper_plain r fun c hc => Or.inl (hourText_digits hour padded c hc)
  have hminute : ∀ n, r.upper (':' :: pad2 n) = ':' :: pad2 n := fun n =>
    upper_plain r fun c hc => by
      rcases List.mem_cons.mp hc with rfl | hc
      · exact Or.inr (Or.inl rfl)
      · exact Or.inl (pad2_digits n c hc)
  cases s with
  | clock24 hour padded minute =>
    have hdigit : isSpace (Nat.digitChar (minute % 10)) = false :=
      PyText.isSpace_of_isDigit (PyDate.digitChar_spec (by omega)).1
    have hstrip := strip_spelling (t := [':', Nat.digitChar (minute / 10 % 10)]) hour padded hdigit
    show r.upper (strip (hourText hour padded ++ ([':', Nat.digitChar (minute / 10 % 10)] ++
      [Nat.digitChar (minute % 10)]))) = _
    rw [hstrip, upper_append, hhour]
    exact congrArg (hourText hour padded ++ ·) (hminute minute)
  | clock12 hour padded minute gap pm small =>
    obtain ⟨gap, hgap⟩ := gap
    have hlast : isSpace (if small.2 then 'm' else 'M') = false := by split <;> rfl
    have hsplit : minuteText minute ++ (gap ++ markAs pm small) =
        (minuteText minute ++ (gap ++ [if pm then (if small.1 then 'p' else 'P') else (if small.1 then 'a' else 'A')])) ++
          [if small.2 then 'm' else 'M'] := by
      simp [markAs]
    have hminute' : r.upper (minuteText minute) = minuteText minute := by
      cases minute with
      | none => rfl
      | some m => exact hminute m
    show r.upper (strip (hourText (hour + 1) padded ++ (minuteText minute ++ (gap ++ markAs pm small)))) = _
    rw [hsplit, strip_spelling _ padded hlast, ← hsplit, upper_append, upper_append, upper_append, hhour, hminute',
      upper_plain r fun c hc => Or.inr (Or.inr (hgap c hc)), upper_mark]
    rfl

theorem cutoff_eq (s : Spelling) :
    cutoff r (String.ofList s.text) = (formats r).findSome? fun format => strptime format s.upperText := by
  unfold cutoff
  rw [String.toList_ofList, upper_strip_text]

theorem cutoff_clock24 (hour : Fin 24) (padded : Bool) (minute : Fin 60) :
    cutoff r (String.ofList (Spelling.clock24 hour padded minute).text) =
      some (Spelling.clock24 hour padded minute).time := by
  have hdecimal : PyTime.ReadsDigits r.casing.decimal := fun _ h => r.casing.decimal_of_isDigit h
  have hcolon : r.casing.decimal ':' = none := r.casing.decimal_ascii ':' (by decide)
  have htime : ofHms hour minute 0 = some (timeAt hour minute hour.isLt) := dif_pos ⟨hour.isLt, minute.isLt, by decide⟩
  rw [cutoff_eq, formats, List.findSome?_cons, Spelling.upperText,
    PyTime.strptime_clockHM hdecimal hour.isLt minute.isLt padded hcolon, htime]
  rfl

/-- Of a spelling on the twelve-hour clock only the two formats with `%p` can read the end. -/
theorem cutoff_clock12 (hour : Fin 12) (padded : Bool) (minute : Option (Fin 60))
    (gap : { g : List Char // ∀ c ∈ g, isSpace c = true }) (pm : Bool) (small : Bool × Bool) :
    cutoff r (String.ofList (Spelling.clock12 hour padded minute gap pm small).text) =
      (strptime (PyTime.clockIMp r.casing.decimal) (Spelling.clock12 hour padded minute gap pm small).upperText).or
        (strptime PyTime.clockIp (Spelling.clock12 hour padded minute gap pm small).upperText) := by
  have hdecimal : PyTime.ReadsDigits r.casing.decimal := fun _ h => r.casing.decimal_of_isDigit h
  have hM : r.casing.decimal 'M' = none := r.casing.decimal_ascii 'M' (by decide)
  have hsplit : (Spelling.clock12 hour padded minute gap pm small).upperText =
      (hourText (hour + 1) padded ++ (minuteText minute ++ (gap.1 ++ [if pm then 'P' else 'A']))) ++ ['M'] := by
    simp [Spelling.upperText, markText]
  have hHM : strptime (PyTime.clockHM r.casing.decimal) (Spelling.clock12 hour padded minute gap pm small).upperText = none := by
    rw [hsplit]
    exact PyTime.strptime_of_last (PyTime.leavesDigits_clockHM hdecimal) _ (by decide) hM
  have hcompact : strptime (PyTime.clockCompact r.casing.decimal) (Spelling.clock12 hour padded minute gap pm small).upperText =
      none := by
    rw [hsplit]
    exact PyTime.strptime_of_last (PyTime.leavesDigits_clockCompact hdecimal) _ (by decide) hM
  rw [cutoff_eq, formats]
  simp only [List.findSome?_cons, List.findSome?_nil, hHM, hcompact]
  cases strptime (PyTime.clockIMp r.casing.decimal) (Spelling.clock12 hour padded minute gap pm small).upperText with
  | some t => rfl
  | none =>
    cases strptime PyTime.clockIp (Spelling.clock12 hour padded minute gap pm small).upperText <;> rfl

/-- A spelling that the formats read is read as its time, and any other is not read. -/
theorem cutoff_spelling (s : Spelling) :
    cutoff r (String.ofList s.text) = if s.Readable then some s.time else none := by
  have hdecimal : PyTime.ReadsDigits r.casing.decimal := fun _ h => r.casing.decimal_of_isDigit h
  cases s with
  | clock24 hour padded minute =>
    have hreadable : (Spelling.clock24 hour padded minute).Readable := trivial
    rw [if_pos hreadable, cutoff_clock24]
  | clock12 hour padded minute gap pm small =>
    rw [cutoff_clock12]
    obtain ⟨gap, hgap⟩ := gap
    have h1 : 1 ≤ (hour : Nat) + 1 := Nat.succ_pos _
    have h12 : (hour : Nat) + 1 ≤ 12 := hour.isLt
    have htime : ∀ m : Fin 60, ofHms (from12 (hour + 1) pm) m 0 = some (timeAt (from12 (hour + 1) pm) m (from12_lt _ _)) :=
      fun m => dif_pos ⟨from12_lt _ _, m.isLt, by decide⟩
    cases minute with
    | some m =>
      simp only [Spelling.upperText, minuteText, List.cons_append]
      rw [PyTime.strptime_clockIMp hdecimal h1 h12 m.isLt padded pm hgap, PyTime.strptime_clockIp_colon h1 h12, Option.or_none,
        htime m]
      by_cases hnil : gap = [] <;> simp [Spelling.Readable, Spelling.time, hnil]
    | none =>
      simp only [Spelling.upperText, minuteText, List.nil_append]
      rw [PyTime.strptime_clockIMp_noColon h1 h12 padded pm hgap, PyTime.strptime_clockIp h1 h12 padded pm hgap,
        Option.none_or]
      have hzero := htime 0
      rw [Fin.val_zero] at hzero
      rw [hzero]
      by_cases hnil : gap = [] <;> simp [Spelling.Readable, Spelling.time, hnil]

/-! ## What is listed -/

/-- The lines of all offers received, whenever they depart. -/
def everyLine (args : Args) (service : Service) : List Line :=
  (offered r args service).filterMap fun o => renderOffer r o.2 o.1

theorem renderOffer_departure {offer : Offer} {carriers : List (String × String)} {line : Line}
    (h : renderOffer r carriers offer = some line) : line.departure = firstDeparture offer := by
  unfold renderOffer at h
  dsimp only at h
  unfold firstDeparture
  split at h
  · cases h
  · rename_i first rest hsegments
    obtain rfl := Option.some.inj h
    rw [hsegments]
    rfl

theorem text_ne_empty (s : Spelling) : String.ofList s.text ≠ "" := by
  intro h
  have hnil : s.text = [] := by simpa using congrArg String.toList h
  have hhead : ∃ c ∈ s.text.head?, c.isDigit = true := by
    cases s with
    | clock24 hour padded minute => exact hourText_head _ _ _
    | clock12 hour padded minute gap pm small => exact hourText_head _ _ _
  obtain ⟨c, hc, -⟩ := hhead
  rw [hnil] at hc
  cases hc

/-- A spelling that is read keeps the offers that depart at its time or later, and one that
    is not read keeps all. -/
theorem after_spelling (s : Spelling) (departure : String) :
    after r departure (some (String.ofList s.text)) = true ↔
      (s.Readable → ∀ t, r.time departure = some t → s.time ≤ t) := by
  have hsome : (some (String.ofList s.text)).filter (· ≠ "") = some (String.ofList s.text) := by
    simp [text_ne_empty s]
  unfold after
  rw [hsome]
  simp only [cutoff_spelling]
  cases htime : r.time departure with
  | none => simp
  | some t =>
    by_cases hreadable : s.Readable
    · simp [hreadable]
    · simp [hreadable]

def Args.departingAfter (args : Args) (s : Spelling) : Args :=
  { args with earliestDepartureTime := some (String.ofList s.text) }

/-- With a spelling that is not read, every line is kept. -/
theorem itineraries_unread (args : Args) (service : Service) {s : Spelling} (h : ¬ s.Readable) :
    itineraries r (args.departingAfter s) service = everyLine r args service := by
  have hall : ∀ o : Offer × List (String × String),
      lineOf r (some (String.ofList s.text)) o = renderOffer r o.2 o.1 := fun o =>
    if_pos ((after_spelling r s _).mpr fun hreadable => absurd hreadable h)
  show (offered r args service).filterMap (lineOf r (some (String.ofList s.text))) = _
  unfold everyLine
  congr 1
  exact funext hall

/-- With one that is read, every line kept departs no earlier. -/
theorem itineraries_read (args : Args) (service : Service) {s : Spelling} (h : s.Readable) :
    ∀ line ∈ itineraries r (args.departingAfter s) service, ∀ t, r.time line.departure = some t → s.time ≤ t := by
  intro line hline t ht
  obtain ⟨o, -, ho⟩ := List.mem_filterMap.mp hline
  unfold lineOf at ho
  split at ho
  · rename_i hafter
    rw [renderOffer_departure r ho] at ht
    exact (after_spelling r s _).mp hafter h t ht
  · cases ho

theorem departingAfter_spelling (comma : String) (s : Spelling) :
    departingAfter comma (some (String.ofList s.text)) = comma ++ " departing after " ++ String.ofList s.text := by
  have hsome : (some (String.ofList s.text)).filter (· ≠ "") = some (String.ofList s.text) := by
    simp [text_ne_empty s]
  unfold departingAfter
  rw [hsome]

theorem infix_left {l : List Char} {a : String} (h : l <:+: a.toList) (b : String) : l <:+: (a ++ b).toList := by
  rw [String.toList_append]
  exact List.infix_append_of_infix_left h

theorem infix_right {l : List Char} {b : String} (a : String) (h : l <:+: b.toList) : l <:+: (a ++ b).toList := by
  rw [String.toList_append]
  exact List.infix_append_of_infix_right h

/-- The heading of the itineraries repeats the time asked for. -/
theorem heading_claims (route origins : String) (lines : List Line) (s : Spelling) :
    (" departing after " ++ String.ofList s.text).toList <:+:
      (Answer.flights route (some (String.ofList s.text)) origins lines).text.toList := by
  have hclause : (" departing after " ++ String.ofList s.text).toList <:+: (departingAfter "," (some (String.ofList s.text))).toList := by
    rw [departingAfter_spelling, String.append_assoc]
    exact infix_right "," List.infix_rfl
  have hheading : (" departing after " ++ String.ofList s.text).toList <:+:
      (heading route (some (String.ofList s.text)) origins).toList :=
    infix_left (infix_left (infix_left (infix_right _ hclause) _) _) _
  exact infix_left (infix_left (infix_left (infix_left (infix_left hheading _) _) _) _) _

/-- An answer that lists itineraries says after which time they depart. -/
theorem listing_claims {args : Args} {service : Service} {s : Spelling}
    (h : (searchFlights r (args.departingAfter s) service).shown ≠ []) :
    (" departing after " ++ String.ofList s.text).toList <:+:
      (searchFlights r (args.departingAfter s) service).text.toList := by
  unfold searchFlights at h ⊢
  cases hrefusal : refusal r (args.departingAfter s) service with
  | some text =>
    rw [hrefusal] at h
    exact absurd rfl h
  | none =>
    rw [hrefusal] at h
    dsimp only at h ⊢
    split at h
    · exact absurd rfl h
    · rename_i hsome
      rw [if_neg hsome]
      exact heading_claims _ _ _ s

/-- For every spelling of a clock time and all offers: where the answer says that the flights
    depart after it, every itinerary listed does, if and only if the spelling is in 24-hour
    form, has minutes and a gap before its mark, or has neither; or if no offer whose line is
    among the first in text order departs before it anyway. -/
theorem cutoff_honoured_iff (args : Args) (service : Service) (s : Spelling) :
    Honoured r s (searchFlights r (args.departingAfter s) service) ↔
      s.Readable ∨ (refusal r (args.departingAfter s) service = none →
        ∀ x ∈ (everyLine r args service).zipIdx, rank TextOrder (everyLine r args service) x < maxRendered →
          ∀ t, r.time x.1.departure = some t → s.time ≤ t) := by
  have htotal : ∀ a b : Line, TextOrder a b ∨ TextOrder b a := fun a b => String.le_total a.text b.text
  have htrans : ∀ a b c : Line, TextOrder a b → TextOrder b c → TextOrder a c := fun _ _ _ => String.le_trans
  unfold Honoured
  cases hrefusal : refusal r (args.departingAfter s) service with
  | some text =>
    rw [searchFlights_refused r hrefusal]
    exact iff_of_true (fun _ line hline => by cases hline) (Or.inr fun h => by cases h)
  | none =>
    have hlines := (searchFlights_lines r hrefusal).1
    rw [hlines]
    by_cases hreadable : s.Readable
    · refine iff_of_true (fun _ line hline => ?_) (Or.inl hreadable)
      have hmem : line ∈ sortLines (itineraries r (args.departingAfter s) service) := List.mem_of_mem_take hline
      exact itineraries_read r args service hreadable line ((List.mem_insertionSort _).mp hmem)
    · rw [itineraries_unread r args service hreadable]
      have hshown := StableSort.forall_take_iff htotal htrans (everyLine r args service) maxRendered fun line =>
        ∀ t, r.time line.departure = some t → s.time ≤ t
      simp only [hreadable, false_or, forall_const]
      rw [← hshown]
      constructor
      · intro h line hline
        refine h (listing_claims r ?_) line hline
        rw [hlines, itineraries_unread r args service hreadable]
        exact List.ne_nil_of_mem hline
      · exact fun h _ => h

def nineAndFive : Service :=
  { reply := fun _ _ => .body [flightAt "09:00:00", flightAt "17:00:00"] [("DL", "DELTA AIR LINES")] }

/-- `1:30PM`, without a gap. -/
def halfPastOne : Spelling := .clock12 0 false (some 30) ⟨[], fun _ h => by cases h⟩ true (false, false)

/-- The flight at nine is listed under the heading "departing after 1:30PM". -/
theorem a_missing_space_drops_the_filter :
    String.ofList halfPastOne.text = "1:30PM" ∧ halfPastOne.time.hour = 13 ∧ halfPastOne.time.minute = 30 ∧
      (searchFlights asciiReading (savannahToMemphis.departingAfter halfPastOne) nineAndFive).shown.map (·.departure) =
        ["2026-09-18T17:00:00", "2026-09-18T09:00:00"] ∧
      ¬ Honoured asciiReading halfPastOne
        (searchFlights asciiReading (savannahToMemphis.departingAfter halfPastOne) nineAndFive) := by
  have hdepartures : (searchFlights asciiReading (savannahToMemphis.departingAfter halfPastOne) nineAndFive).shown.map
      (·.departure) = ["2026-09-18T17:00:00", "2026-09-18T09:00:00"] := by decide +kernel
  have hlisted : (searchFlights asciiReading (savannahToMemphis.departingAfter halfPastOne) nineAndFive).shown ≠ [] := by
    intro hnil
    rw [hnil] at hdepartures
    cases hdepartures
  refine ⟨by decide +kernel, by decide, by decide, hdepartures, fun h => ?_⟩
  have hnine : "2026-09-18T09:00:00" ∈
      (searchFlights asciiReading (savannahToMemphis.departingAfter halfPastOne) nineAndFive).shown.map (·.departure) := by
    rw [hdepartures]
    decide
  obtain ⟨line, hline, hdeparture⟩ := List.mem_map.mp hnine
  have hread : asciiReading.time "2026-09-18T09:00:00" =
      some ⟨9, 0, 0, 0, by decide, by decide, by decide, by decide⟩ := by decide +kernel
  have hlate := h (listing_claims asciiReading hlisted) line hline _ (hdeparture ▸ hread)
  revert hlate
  decide

end CoreHeartbeat.Flights
