/-
  CoreHeartbeat.Calendar.AllDay — the days of an all-day event: the request that
  `tools/google_calendar.py` sends, the line it shows for an event, and the line that proposes
  one (`_describe_when` in `orchestrator.py`).

  A range is inclusive for the user and the model; the calendar's `end.date` is exclusive. A day
  is added on the way out and taken off on the way in, both through `datetime.date`, which has
  no day after 9999-12-31 and none before 0001-01-01 (`OverflowError`, which neither place
  catches). The access token and the calendar's time zone come from outside; arguments and
  fields are texts or absent, as the schemas declare them, and the time zone is any value that
  the calendar sends.

  Three places have to name the same days, and share no code: `timeField` for the request,
  `fmtEvent` for the listing, `describeWhen` for the proposal that the user says yes to. A line
  of the listing is read back rather than compared: `ListsDays` says that it tells of a range,
  and a line tells of no two (`listsDays_unique`).

  Proved:
  - `exists_dayText_iff`: the texts of days are the valid dates written `YYYY-MM-DD`.
  - `shifted_dayText`: a written date is moved by whole days, as long as there is such a day.
  - `fmtEvent_lists`: the line of a stored event tells of its range and of no other.
  - `all_day_same_days`: the request, the proposal and the listing name the same days, and a
    range that is listed and written back is stored as it was, by a creation and by a change
    (`all_day_same_days_week_off`).
-/

import CoreHeartbeat.Graph.Models
import CoreHeartbeat.Lib.PyDate
import CoreHeartbeat.Lib.PyText

namespace CoreHeartbeat.Calendar

open PyDate (Date)
open CoreHeartbeat.Graph (Json)

/-- What an exception that the tool does not catch itself says. -/
abbrev Raised := String

variable (u : PyText.Unicode)

structure EventArgs where
  eventId : Option String := none
  summary : Option String := none
  start : Option String := none
  end_ : Option String := none
  description : Option String := none
  location : Option String := none

/-- A text that counts as true: present and not empty. -/
def given (v : Option String) : Option String := v.filter (· ≠ "")

def isAllDay (value : String) : Bool :=
  value.toList.length = 10 && value.toList[4]? = some '-' && value.toList[7]? = some '-'

inductive TimeField where
  | date (day : String)
  | dateTime (value : String) (timeZone : Json)
  deriving Repr

def overflow : Raised := "OverflowError: date value out of range"

/-- The date `n` days from `v`; `v` itself when it is malformed. -/
def shifted (v : String) (n : Int) : Except Raised String :=
  match PyDate.strptimeYmd u.decimal v.toList with
  | none => .ok v
  | some day =>
    match day.addDays n with
    | some other => .ok (String.ofList (PyDate.isoformat other))
    | none => .error overflow

def timeField (value : String) (tz : Json) (isEnd : Bool) : Except Raised TimeField :=
  let v := String.ofList (PyText.strip value.toList)
  if isAllDay v then
    if isEnd then (shifted u v 1).map .date else .ok (.date v)
  else .ok (.dateTime v tz)

/-! ## Requests -/

structure EventBody where
  summary : Option String := none
  start : Option TimeField := none
  end_ : Option TimeField := none
  description : Option String := none
  location : Option String := none
  deriving Repr

def EventBody.isEmpty (b : EventBody) : Bool :=
  b.summary.isNone && b.start.isNone && b.end_.isNone && b.description.isNone && b.location.isNone

inductive Outgoing where
  | refused (text : String)
  | post (body : EventBody)
  | patch (eventId : String) (body : EventBody)
  deriving Repr

def createEvent (tz : Json) (args : EventArgs) : Except Raised Outgoing :=
  match given args.summary, given args.start, given args.end_ with
  | some summary, some start, some end_ => do
    let start ← timeField u start tz false
    let end_ ← timeField u end_ tz true
    return .post { summary := some summary, start := some start, end_ := some end_,
                   description := given args.description, location := given args.location }
  | _, _, _ => return .refused "error: create_calendar_event needs summary, start, and end (ISO 8601)."

def updateEvent (tz : Json) (args : EventArgs) : Except Raised Outgoing :=
  match given args.eventId with
  | none =>
    return .refused "error: update_calendar_event needs event_id (find it with list_calendar_events first)."
  | some eventId => do
    let start ← (given args.start).mapM fun v => timeField u v tz false
    let end_ ← (given args.end_).mapM fun v => timeField u v tz true
    let body : EventBody := { summary := given args.summary, start, end_, description := given args.description,
                              location := given args.location }
    if body.isEmpty then
      return .refused
        "error: nothing to update — provide a field to change (summary/start/end/location/description)."
    return .patch eventId body

/-! ## Listings -/

structure EventTime where
  date : Option String := none
  dateTime : Option String := none

structure Event where
  id : Option String
  summary : Option String
  location : Option String
  start : EventTime
  end_ : EventTime

def eventLine (e : Event) (start end_ : String) : String :=
  let tail := match given e.location with
    | some loc => " @ " ++ loc
    | none => ""
  "• " ++ (given e.summary).getD "(no title)" ++ " — " ++ start ++ " to " ++ end_ ++ tail ++ "  [id: " ++
    e.id.getD "None" ++ "]"

def EventTime.shown (t : EventTime) : String := ((given t.dateTime).or (given t.date)).getD "?"

def fmtEvent (e : Event) : Except Raised String := do
  let end_ := e.end_.shown
  let end_ ←
    if (given e.end_.dateTime).isNone && (given e.end_.date).isSome && isAllDay end_ then shifted u end_ (-1)
    else pure end_
  return eventLine e e.start.shown end_

/-! ## Proposals -/

def describeWhen (args : EventArgs) : String :=
  match given args.start with
  | none => "?"
  | some start =>
    let end_ := args.end_.getD ""
    if start = "?" then "?"
    else if end_ = "" ∨ end_ = start then start
    else if start.toList.length = 10 ∧ end_.toList.length = 10 ∧ start.toList[4]? = some '-' ∧
        end_.toList[4]? = some '-' then
      match PyDate.fromIsoFormat end_.toList, PyDate.fromIsoFormat start.toList with
      | some last, some first =>
        let days := PyDate.daysSince last first + 1
        if days < 1 then start ++ " to " ++ end_ ++ " (⚠ end is before start)"
        else start ++ " to " ++ end_ ++ " (" ++ toString days ++ " days)"
      | _, _ => start ++ " to " ++ end_
    else start ++ " to " ++ end_

/-! ## A date as text -/

def dayText (d : Date) : String := String.ofList (PyDate.isoformat d)

theorem dayText_toList (d : Date) : (dayText d).toList = PyDate.isoformat d := String.toList_ofList

/-- The texts of days are the valid calendar dates written `YYYY-MM-DD`. -/
theorem exists_dayText_iff {v : String} :
    (∃ d, v = dayText d) ↔
      ∃ year month day date, PyDate.ofYmd year month day = some date ∧
        v = String.ofList (PyDate.written year month day) := by
  constructor
  · intro h
    obtain ⟨d, rfl⟩ := h
    exact ⟨_, _, _, d, PyDate.ofYmd_ymd d, rfl⟩
  · intro h
    obtain ⟨year, month, day, date, hdate, rfl⟩ := h
    exact ⟨date, by rw [dayText, PyDate.isoformat_ofYmd hdate]⟩

theorem dayText_ne (d : Date) {v : String} (h : v.toList.length ≠ 10) : dayText d ≠ v := by
  intro heq
  rw [← heq, dayText_toList, PyDate.isoformat_length] at h
  exact h rfl

theorem given_dayText (d : Date) : given (some (dayText d)) = some (dayText d) := by
  simp [given, dayText_ne d (v := "") (by decide)]

theorem dayText_isAllDay (d : Date) : isAllDay (dayText d) = true := by
  rw [isAllDay, dayText_toList]
  rfl

theorem strip_dayText (d : Date) : String.ofList (PyText.strip (dayText d).toList) = dayText d := by
  have hchars : ∀ c ∈ PyDate.isoformat d, PyText.isSpace c = false := by
    intro c hc
    rcases PyDate.isoformat_chars d c hc with hdigit | rfl
    · exact PyText.isSpace_of_isDigit hdigit
    · rfl
  have hstrip : PyText.strip (PyDate.isoformat d) = PyDate.isoformat d := by
    have hdrop : (PyDate.isoformat d).dropWhile PyText.isSpace = PyDate.isoformat d := by
      rw [List.dropWhile_eq_self_iff]
      intro hl
      simp [hchars _ (List.getElem_mem hl)]
    rw [PyText.strip, hdrop, List.rdropWhile_eq_self_iff]
    intro hl
    simp [hchars _ (List.getLast_mem hl)]
  rw [dayText_toList, hstrip]
  rfl

/-- A written date is moved by whole days. -/
theorem shifted_dayText {d other : Date} (n : Int) (h : (other.ordinal : Int) = d.ordinal + n) :
    shifted u (dayText d) n = .ok (dayText other) := by
  simp only [shifted, dayText_toList, PyDate.strptimeYmd_isoformat (fun _ => u.decimal_of_isDigit) d,
    PyDate.addDays_ordinal h]
  rfl

theorem timeField_start (d : Date) (tz : Json) : timeField u (dayText d) tz false = .ok (.date (dayText d)) := by
  simp only [timeField, strip_dayText, dayText_isAllDay]
  rfl

/-- The end that is sent is the day after the last. -/
theorem timeField_end {last exclusive : Date} (h : exclusive.ordinal = last.ordinal + 1) (tz : Json) :
    timeField u (dayText last) tz true = .ok (.date (dayText exclusive)) := by
  simp only [timeField, strip_dayText, dayText_isAllDay, if_true,
    shifted_dayText u 1 (show (exclusive.ordinal : Int) = last.ordinal + 1 by omega)]
  rfl

/-! ## The three places agree -/

/-- The event stands in the calendar from `first` up to `exclusive`. -/
def Event.onDays (e : Event) (first exclusive : Date) : Event :=
  { e with start := ⟨some (dayText first), none⟩, end_ := ⟨some (dayText exclusive), none⟩ }

def EventArgs.onDays (args : EventArgs) (first last : Date) : EventArgs :=
  { args with start := some (dayText first), end_ := some (dayText last) }

/-- The line shows the range with its number of days; a single date shows one. -/
def TellsDays (line : String) (first last : Date) (days : Int) : Prop :=
  if first = last then line = dayText first ∧ days = 1
  else line = dayText first ++ " to " ++ dayText last ++ " (" ++ toString days ++ " days)"

theorem createEvent_onDays {first last exclusive : Date} (h : exclusive.ordinal = last.ordinal + 1) (tz : Json)
    {args : EventArgs} {summary : String} (hsummary : given args.summary = some summary) :
    createEvent u tz (args.onDays first last) =
      .ok (.post { summary := some summary, start := some (.date (dayText first)),
                   end_ := some (.date (dayText exclusive)), description := given args.description,
                   location := given args.location }) := by
  simp only [createEvent, EventArgs.onDays, hsummary, given_dayText, timeField_start, timeField_end u h, bind,
    Except.bind, pure, Except.pure]

theorem updateEvent_onDays {first last exclusive : Date} (h : exclusive.ordinal = last.ordinal + 1) (tz : Json)
    {args : EventArgs} {eventId : String} (hid : given args.eventId = some eventId) :
    updateEvent u tz (args.onDays first last) =
      .ok (.patch eventId { summary := given args.summary, start := some (.date (dayText first)),
                            end_ := some (.date (dayText exclusive)), description := given args.description,
                            location := given args.location }) := by
  simp only [updateEvent, EventArgs.onDays, hid, given_dayText, Option.mapM_some, timeField_start, timeField_end u h,
    bind, Except.bind, pure, Except.pure, Functor.map, Except.map, EventBody.isEmpty, Option.isNone_some, Bool.and_false,
    Bool.false_and, Bool.false_eq_true, if_false]

/-- The listing shows the last day, not the day after. -/
theorem fmtEvent_onDays {first last exclusive : Date} (h : exclusive.ordinal = last.ordinal + 1) (e : Event) :
    fmtEvent u (e.onDays first exclusive) = .ok (eventLine (e.onDays first exclusive) (dayText first) (dayText last)) := by
  have hnone : given none = none := rfl
  have hstart : (e.onDays first exclusive).start.shown = dayText first := by
    simp [Event.onDays, EventTime.shown, given_dayText, hnone]
  have hend : (e.onDays first exclusive).end_.shown = dayText exclusive := by
    simp [Event.onDays, EventTime.shown, given_dayText, hnone]
  have hallDay : ((given (e.onDays first exclusive).end_.dateTime).isNone &&
      (given (e.onDays first exclusive).end_.date).isSome && isAllDay (dayText exclusive)) = true := by
    simp [Event.onDays, given_dayText, hnone, dayText_isAllDay]
  have hback := shifted_dayText u (-1) (show (last.ordinal : Int) = exclusive.ordinal + -1 by omega)
  simp only [fmtEvent, hstart, hend, hallDay, if_true, hback, bind, Except.bind, pure, Except.pure]

theorem describeWhen_onDays {first last exclusive : Date} (hle : first.ordinal ≤ last.ordinal)
    (h : exclusive.ordinal = last.ordinal + 1) (args : EventArgs) :
    TellsDays (describeWhen (args.onDays first last)) first last (PyDate.daysSince exclusive first) := by
  have hq : dayText first ≠ "?" := dayText_ne first (by decide)
  have hempty : dayText last ≠ "" := dayText_ne last (by decide)
  have hshape (d : Date) : (PyDate.isoformat d).length = 10 ∧ (PyDate.isoformat d)[4]? = some '-' := ⟨rfl, rfl⟩
  unfold TellsDays
  simp only [describeWhen, EventArgs.onDays, given_dayText, hq, hempty, if_false, false_or, Option.getD_some]
  by_cases hsame : first = last
  · subst hsame
    simp only [if_true, PyDate.daysSince, true_and]
    omega
  · have htext : dayText last ≠ dayText first := by
      intro heq
      have hparse := PyDate.fromIsoFormat_isoformat last
      rw [← dayText_toList, heq, dayText_toList, PyDate.fromIsoFormat_isoformat first] at hparse
      exact hsame (Option.some.inj hparse)
    have hdays : PyDate.daysSince last first + 1 = PyDate.daysSince exclusive first := by
      simp only [PyDate.daysSince]
      omega
    have hpos : ¬ PyDate.daysSince exclusive first < 1 := by
      simp only [PyDate.daysSince]
      omega
    simp only [hsame, htext, if_false, dayText_toList, hshape, and_self, if_true, PyDate.fromIsoFormat_isoformat, hdays,
      hpos]

/-- The line of an event says after its title that it runs from `first` to `last`. -/
def ListsDays (e : Event) (line : String) (first last : Date) : Prop :=
  ∃ rest, line = "• " ++ (given e.summary).getD "(no title)" ++ " — " ++ dayText first ++ " to " ++ dayText last ++ rest

theorem dayText_inj {d other : Date} (h : dayText d = dayText other) : d = other := by
  have hparse := PyDate.fromIsoFormat_isoformat d
  rw [← dayText_toList, h, dayText_toList, PyDate.fromIsoFormat_isoformat other] at hparse
  exact (Option.some.inj hparse).symm

theorem dayText_length (d : Date) : (dayText d).toList.length = 10 := by
  rw [dayText_toList, PyDate.isoformat_length]

/-- The days can be read back from the line. -/
theorem listsDays_unique {e : Event} {line : String} {first last first' last' : Date} (h : ListsDays e line first last)
    (h' : ListsDays e line first' last') : first = first' ∧ last = last' := by
  obtain ⟨rest, rfl⟩ := h
  obtain ⟨rest', heq⟩ := h'
  have hchars := congrArg String.toList heq
  simp only [String.toList_append, List.append_assoc, List.append_cancel_left_eq] at hchars
  obtain ⟨hfirst, hchars⟩ := List.append_inj hchars (by rw [dayText_length, dayText_length])
  obtain ⟨hlast, -⟩ := List.append_inj (List.append_cancel_left hchars) (by rw [dayText_length, dayText_length])
  exact ⟨dayText_inj (String.toList_inj.mp hfirst), dayText_inj (String.toList_inj.mp hlast)⟩

theorem eventLine_lists (e : Event) (first last : Date) : ListsDays e (eventLine e (dayText first) (dayText last)) first last := by
  refine ⟨(match given e.location with
    | some loc => " @ " ++ loc
    | none => "") ++ "  [id: " ++ e.id.getD "None" ++ "]", ?_⟩
  simp only [eventLine, String.append_assoc]

/-- The listing shows the range, and no other. -/
theorem fmtEvent_lists (first : Date) {last exclusive : Date} (h : exclusive.ordinal = last.ordinal + 1) (e : Event) :
    ∃ line, fmtEvent u (e.onDays first exclusive) = .ok line ∧
      ∀ start end_, ListsDays e line start end_ ↔ start = first ∧ end_ = last := by
  have hlists : ListsDays e (eventLine (e.onDays first exclusive) (dayText first) (dayText last)) first last :=
    eventLine_lists (e.onDays first exclusive) first last
  refine ⟨_, fmtEvent_onDays u h e, fun start end_ => ⟨fun hshown => listsDays_unique hshown hlists, ?_⟩⟩
  rintro ⟨rfl, rfl⟩
  exact hlists

/-- For every range of days before the last one of all, and every stored all-day event: the
    request has the first day and an exclusive end, as many days after it as the proposal
    tells, and the line of the stored event shows that range and no other; a range that such
    a line shows, written back, has the stored start and the stored end. -/
theorem all_day_same_days (tz : Json) (args : EventArgs) (e : Event) {summary eventId : String}
    (hsummary : given args.summary = some summary) (hid : given args.eventId = some eventId) :
    (∀ first last : Date, first.ordinal ≤ last.ordinal → last.ordinal < PyDate.maxOrdinal →
      ∃ body exclusive line, createEvent u tz (args.onDays first last) = .ok (.post body) ∧
        body.start = some (.date (dayText first)) ∧ body.end_ = some (.date (dayText exclusive)) ∧
        TellsDays (describeWhen (args.onDays first last)) first last (PyDate.daysSince exclusive first) ∧
        fmtEvent u (e.onDays first exclusive) = .ok line ∧
        ∀ start end_, ListsDays e line start end_ ↔ start = first ∧ end_ = last) ∧
    ∀ first exclusive : Date, first.ordinal < exclusive.ordinal →
      ∃ line, fmtEvent u (e.onDays first exclusive) = .ok line ∧ (∃ start end_, ListsDays e line start end_) ∧
        ∀ start end_, ListsDays e line start end_ →
          ∃ created changed, createEvent u tz (args.onDays start end_) = .ok (.post created) ∧
            created.start = some (.date (dayText first)) ∧ created.end_ = some (.date (dayText exclusive)) ∧
            updateEvent u tz (args.onDays start end_) = .ok (.patch eventId changed) ∧
            changed.start = some (.date (dayText first)) ∧ changed.end_ = some (.date (dayText exclusive)) := by
  constructor
  · intro first last hle hlt
    let exclusive : Date := ⟨last.ordinal + 1, by omega, hlt⟩
    have hnext : exclusive.ordinal = last.ordinal + 1 := rfl
    obtain ⟨line, hline, hshown⟩ := fmtEvent_lists u first hnext e
    exact ⟨_, exclusive, line, createEvent_onDays u hnext tz hsummary, rfl, rfl, describeWhen_onDays hle hnext args,
      hline, hshown⟩
  · intro first exclusive hlt
    have hpos := first.pos
    have hmax := exclusive.le
    let last : Date := ⟨exclusive.ordinal - 1, by omega, by omega⟩
    have hnext : exclusive.ordinal = last.ordinal + 1 := by
      show exclusive.ordinal = exclusive.ordinal - 1 + 1
      omega
    obtain ⟨line, hline, hshown⟩ := fmtEvent_lists u first hnext e
    refine ⟨line, hline, ⟨first, last, (hshown first last).mpr ⟨rfl, rfl⟩⟩, fun start end_ hlists => ?_⟩
    obtain ⟨rfl, rfl⟩ := (hshown start end_).mp hlists
    exact ⟨_, _, createEvent_onDays u hnext tz hsummary, rfl, rfl, updateEvent_onDays u hnext tz hid, rfl, rfl⟩

/-- A week of holidays, 3 to 7 August 2026. -/
def monday : Date := ⟨739831, by decide, by decide⟩

def friday : Date := ⟨739835, by decide, by decide⟩

def weekOff : EventArgs := { eventId := some "ev1", summary := some "Fall Break" }

def listed : Event := ⟨some "ev1", some "Fall Break", none, {}, {}⟩

example : dayText monday = "2026-08-03" ∧ describeWhen (weekOff.onDays monday friday) = "2026-08-03 to 2026-08-07 (5 days)" := by
  decide +kernel

theorem all_day_same_days_week_off :
    ∃ body exclusive line, createEvent .ascii (.str "America/Chicago") (weekOff.onDays monday friday) = .ok (.post body) ∧
      body.start = some (.date (dayText monday)) ∧ body.end_ = some (.date (dayText exclusive)) ∧
      TellsDays (describeWhen (weekOff.onDays monday friday)) monday friday (PyDate.daysSince exclusive monday) ∧
      fmtEvent .ascii (listed.onDays monday exclusive) = .ok line ∧
      ∀ start end_, ListsDays listed line start end_ ↔ start = monday ∧ end_ = friday := by
  have hsummary : given weekOff.summary = some "Fall Break" := by decide
  have hid : given weekOff.eventId = some "ev1" := by decide
  exact (all_day_same_days .ascii (.str "America/Chicago") weekOff listed hsummary hid).1 monday friday (by decide) (by decide)

end CoreHeartbeat.Calendar
