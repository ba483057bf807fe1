/-
  CoreHeartbeat.Lib.EventStream — server-sent events: the reader of a `text/event-stream`, one
  character at a time, and the frames a server writes.

  The reader ends a line at LF, CR or CRLF, collects `data:` lines, and dispatches what it
  collected at a blank line. It keeps all it knows between characters, so how the stream is cut
  into chunks makes no difference (`feeds_append`). Comments, unknown fields and the one space
  after a colon are read as the standard says; `id` and `retry` are of no use here and are
  skipped like unknown fields.

  A server writes one frame for a value: a `data:` line with the value as JSON, and a blank
  line. A payload has to be one line, or the frame falls apart; JSON in ASCII is
  (`oneLine_dumps`).

  Proved:
  - `feeds_frame`, `feeds_part`: a frame is one event, and a frame that is not complete is none.
  - `read_prefix`: of a stream of one-line frames, however far it got, the reader has dispatched
    exactly the payloads whose frames are complete.
  - `received_prefix`, `received_whole_iff`: the same of frames whose data is JSON, read back as
    the values they were written from.
  - `received_last_iff`: where only the last value is of some kind, having received one of that
    kind tells a whole stream from one that was cut.
-/

import CoreHeartbeat.Lib.PyJson

namespace EventStream

/-- What a reader dispatches: the type, empty unless named, and the data. -/
structure Event where
  type : List Char
  data : List Char
  deriving DecidableEq, Repr

structure Reader where
  line : List Char := []
  /-- The character before was a CR, and ended a line. -/
  afterCr : Bool := false
  data : List Char := []
  type : List Char := []
  events : List Event := []
  deriving DecidableEq, Repr

/-- A line's field name and value; one space after the colon is dropped. -/
def field (line : List Char) : List Char × List Char :=
  match line.dropWhile (· ≠ ':') with
  | [] => (line, [])
  | _ :: ' ' :: value => (line.takeWhile (· ≠ ':'), value)
  | _ :: value => (line.takeWhile (· ≠ ':'), value)

namespace Reader

def dispatch (r : Reader) : Reader :=
  if r.data = [] then { r with type := [] }
  else { r with events := r.events ++ [⟨r.type, r.data.dropLast⟩], data := [], type := [] }

/-- The line is complete. A comment has an empty field name. -/
def endLine (r : Reader) : Reader :=
  if r.line = [] then r.dispatch
  else
    let (name, value) := field r.line
    if name = "data".toList then { r with line := [], data := r.data ++ value ++ ['\n'] }
    else if name = "event".toList then { r with line := [], type := value }
    else { r with line := [] }

def feed (r : Reader) (c : Char) : Reader :=
  if c = '\n' ∧ r.afterCr then { r with afterCr := false }
  else if c = '\n' ∨ c = '\r' then { r.endLine with afterCr := c = '\r' }
  else { r with line := r.line ++ [c], afterCr := false }

def feeds (r : Reader) (s : List Char) : Reader := s.foldl feed r

@[simp] theorem feeds_nil (r : Reader) : r.feeds [] = r := rfl

@[simp] theorem feeds_cons (r : Reader) (c : Char) (s : List Char) : r.feeds (c :: s) = (r.feed c).feeds s := rfl

theorem feeds_append (r : Reader) (s t : List Char) : r.feeds (s ++ t) = (r.feeds s).feeds t := List.foldl_append

end Reader

def read (s : List Char) : List Event := (Reader.feeds {} s).events

/-- `data: <payload>` and a blank line. -/
def frame (payload : List Char) : List Char := "data: ".toList ++ payload ++ ['\n', '\n']

def OneLine (payload : List Char) : Prop := '\n' ∉ payload ∧ '\r' ∉ payload

/-! ## One frame -/

/-- Nothing is half-read. -/
def Reader.Between (r : Reader) : Prop := r = { events := r.events }

theorem feeds_plain {s : List Char} (h : OneLine s) (r : Reader) (hs : s ≠ []) :
    r.feeds s = { r with line := r.line ++ s, afterCr := false } := by
  induction s generalizing r with
  | nil => exact absurd rfl hs
  | cons c s ih =>
    have hc : c ≠ '\n' ∧ c ≠ '\r' := ⟨fun e => h.1 (e ▸ List.mem_cons_self), fun e => h.2 (e ▸ List.mem_cons_self)⟩
    have hfeed : r.feed c = { r with line := r.line ++ [c], afterCr := false } := by
      simp [Reader.feed, hc.1, hc.2]
    rw [Reader.feeds_cons, hfeed]
    rcases eq_or_ne s [] with rfl | hne
    · rfl
    · rw [ih ⟨fun hm => h.1 (List.mem_cons_of_mem _ hm), fun hm => h.2 (List.mem_cons_of_mem _ hm)⟩ _ hne]
      simp

/-- A frame up to its blank line. -/
def lead (payload : List Char) : List Char := "data: ".toList ++ payload

theorem frame_eq (payload : List Char) : frame payload = lead payload ++ ['\n'] ++ ['\n'] :=
  (List.append_assoc (lead payload) ['\n'] ['\n']).symm

theorem oneLine_lead {payload : List Char} (h : OneLine payload) : OneLine (lead payload) := by
  refine ⟨fun hm => ?_, fun hm => ?_⟩
  · rcases List.mem_append.mp hm with hm | hm
    · exact absurd hm (by decide)
    · exact h.1 hm
  · rcases List.mem_append.mp hm with hm | hm
    · exact absurd hm (by decide)
    · exact h.2 hm

section
variable {payload : List Char} (h : OneLine payload) {r : Reader} (hr : r.Between)
include h hr

theorem feeds_lead : r.feeds (lead payload) = { line := lead payload, events := r.events } := by
  rw [feeds_plain (oneLine_lead h) r (List.cons_ne_nil _ _), hr]
  rfl

theorem feeds_line : r.feeds (lead payload ++ ['\n']) = { data := payload ++ ['\n'], events := r.events } := by
  rw [Reader.feeds_append, feeds_lead h hr]
  rfl

/-- A frame is one event. -/
theorem feeds_frame : r.feeds (frame payload) = { events := r.events ++ [⟨[], payload⟩] } := by
  have hdata : payload ++ ['\n'] ≠ [] := by simp
  rw [frame_eq, Reader.feeds_append, feeds_line h hr]
  show Reader.feed { data := payload ++ ['\n'], events := r.events } '\n' = _
  rw [Reader.feed, if_neg (by simp), if_pos (Or.inl rfl), Reader.endLine, if_pos rfl, Reader.dispatch, if_neg hdata,
    List.dropLast_concat]
  rfl

/-- A frame that is not complete is none. -/
theorem feeds_part {q : List Char} (hq : q <+: lead payload ++ ['\n']) : (r.feeds q).events = r.events := by
  rcases List.prefix_concat_iff.mp hq with rfl | hq
  · rw [feeds_line h hr]
  · rcases eq_or_ne q [] with rfl | hne
    · rfl
    · obtain ⟨t, ht⟩ := hq
      have hlead := oneLine_lead h
      rw [← ht] at hlead
      have hplain : OneLine q := ⟨fun hm => hlead.1 (List.mem_append_left _ hm), fun hm => hlead.2 (List.mem_append_left _ hm)⟩
      rw [feeds_plain hplain r hne]

end

/-! ## A stream of frames -/

def messages (payloads : List (List Char)) : List Event := payloads.map fun p => ⟨[], p⟩

theorem feeds_prefix {payloads : List (List Char)} (h : ∀ p ∈ payloads, OneLine p) {r : Reader} (hr : r.Between)
    {q : List Char} (hq : q <+: payloads.flatMap frame) :
    ∃ n, (r.feeds q).events = r.events ++ messages (payloads.take n) ∧ (payloads.take n).flatMap frame <+: q ∧
      (n < payloads.length → ¬ (payloads.take (n + 1)).flatMap frame <+: q) := by
  induction payloads generalizing r q with
  | nil =>
    obtain rfl : q = [] := List.prefix_nil.mp hq
    exact ⟨0, by simp [messages], List.nil_prefix, fun h => absurd h (Nat.lt_irrefl _)⟩
  | cons p payloads ih =>
    rw [List.flatMap_cons] at hq
    have hp := h p List.mem_cons_self
    by_cases hwhole : frame p <+: q
    · obtain ⟨q, rfl⟩ := hwhole
      have hnext : Reader.Between { events := r.events ++ [⟨[], p⟩] } := rfl
      obtain ⟨n, hevents, hdone, hmore⟩ := ih (fun p hm => h p (List.mem_cons_of_mem _ hm)) hnext
        ((List.prefix_append_right_inj _).mp hq)
      refine ⟨n + 1, ?_, ?_, ?_⟩
      · rw [Reader.feeds_append, feeds_frame hp hr, hevents]
        simp [messages]
      · rw [List.take_succ_cons, List.flatMap_cons]
        exact (List.prefix_append_right_inj _).mpr hdone
      · intro hn
        rw [List.take_succ_cons, List.flatMap_cons, List.prefix_append_right_inj]
        exact hmore (Nat.lt_of_succ_lt_succ hn)
    · have hpart : q <+: lead p ++ ['\n'] := by
        have hle := Nat.le_total q.length (frame p).length
        rcases hle with hle | hle
        · have hq' := List.prefix_of_prefix_length_le hq (List.prefix_append _ _) hle
          rw [frame_eq] at hq' hwhole
          rcases List.prefix_concat_iff.mp hq' with rfl | hq'
          · exact absurd (List.prefix_refl _) hwhole
          · exact hq'
        · exact absurd (List.prefix_of_prefix_length_le (List.prefix_append _ _) hq hle) hwhole
      refine ⟨0, ?_, List.nil_prefix, fun _ hin => ?_⟩
      · rw [feeds_part hp hr hpart]
        simp [messages]
      · rw [List.take_succ_cons, List.take_zero, List.flatMap_cons, List.flatMap_nil, List.append_nil] at hin
        exact hwhole hin

/-- However far a stream of frames got, the reader has dispatched exactly the payloads whose
    frames are complete. -/
theorem read_prefix {payloads : List (List Char)} (h : ∀ p ∈ payloads, OneLine p) {q : List Char}
    (hq : q <+: payloads.flatMap frame) :
    ∃ n, read q = messages (payloads.take n) ∧ (payloads.take n).flatMap frame <+: q ∧
      (n < payloads.length → ¬ (payloads.take (n + 1)).flatMap frame <+: q) := by
  obtain ⟨n, hevents, hrest⟩ := feeds_prefix h (r := {}) rfl hq
  exact ⟨n, hevents, hrest⟩

/-! ## Frames of JSON -/

open PyJson (Value dumps loads floatsOk isPrintable)

/-- `f"data: {json.dumps(event)}\n\n"`. -/
def jsonFrame (v : Value) : List Char := frame (dumps .spaced v)

/-- The data of each event, as `json.loads` takes it. -/
def received (q : List Char) : List (Option Value) := (read q).map fun e => loads e.data

/-- What was received of a stream of `vs` so far: the values whose frames are complete. -/
def Delivered (vs : List Value) (q : List Char) : Prop :=
  ∃ n, received q = (vs.take n).map some ∧ (vs.take n).flatMap jsonFrame <+: q ∧
    (n < vs.length → ¬ (vs.take (n + 1)).flatMap jsonFrame <+: q)

theorem oneLine_dumps {v : Value} (h : floatsOk v = true) : OneLine (dumps .spaced v) := by
  have hprint := List.all_eq_true.mp (PyJson.dumps_printable .spaced v h)
  exact ⟨fun hm => absurd (hprint _ hm) (by decide), fun hm => absurd (hprint _ hm) (by decide)⟩

theorem flatMap_jsonFrame (vs : List Value) : vs.flatMap jsonFrame = (vs.map (dumps .spaced)).flatMap frame := by
  rw [List.flatMap_map]
  rfl

theorem received_messages {vs : List Value} (h : ∀ v ∈ vs, floatsOk v = true) :
    (messages (vs.map (dumps .spaced))).map (fun e => loads e.data) = vs.map some := by
  rw [messages, List.map_map, List.map_map]
  exact List.map_congr_left fun v hv => PyJson.loads_dumps .spaced (h v hv)

section
variable {vs : List Value} (h : ∀ v ∈ vs, floatsOk v = true) {q : List Char} (hq : q <+: vs.flatMap jsonFrame)
include h hq

theorem received_prefix : Delivered vs q := by
  have hlines : ∀ p ∈ vs.map (dumps .spaced), OneLine p := by
    intro p hp
    obtain ⟨v, hv, rfl⟩ := List.mem_map.mp hp
    exact oneLine_dumps (h v hv)
  rw [flatMap_jsonFrame] at hq
  obtain ⟨n, hread, hdone, hmore⟩ := read_prefix hlines hq
  simp only [← List.map_take, ← flatMap_jsonFrame, List.length_map] at hread hdone hmore
  refine ⟨n, ?_, hdone, hmore⟩
  rw [received, hread, received_messages fun v hv => h v (List.mem_of_mem_take hv)]

theorem received_whole_iff : received q = vs.map some ↔ q = vs.flatMap jsonFrame := by
  obtain ⟨n, hreceived, hdone, hmore⟩ := received_prefix h hq
  constructor
  · intro hall
    have hlen := congrArg List.length (hreceived.symm.trans hall)
    rw [List.length_map, List.length_map, List.length_take] at hlen
    rw [List.take_of_length_le (by omega)] at hdone
    exact hq.eq_of_length_le hdone.length_le
  · rintro rfl
    rcases Nat.lt_or_ge n vs.length with hn | hn
    · refine absurd ?_ (hmore hn)
      conv => rhs; rw [← List.take_append_drop (n + 1) vs, List.flatMap_append]
      exact List.prefix_append _ _
    · rw [hreceived, List.take_of_length_le hn]

end

/-- Where the last value alone is of a kind, one of that kind is received exactly when the
    stream is whole. -/
theorem received_last_iff {vs : List Value} {last : Value} {P : Value → Prop} (h : ∀ v ∈ vs ++ [last], floatsOk v = true)
    (hlast : P last) (hbefore : ∀ v ∈ vs, ¬ P v) {q : List Char} (hq : q <+: (vs ++ [last]).flatMap jsonFrame) :
    (∃ v, some v ∈ received q ∧ P v) ↔ q = (vs ++ [last]).flatMap jsonFrame := by
  rw [← received_whole_iff h hq]
  obtain ⟨n, hreceived, -, -⟩ := received_prefix h hq
  constructor
  · rintro ⟨v, hv, hP⟩
    rw [hreceived] at hv ⊢
    obtain ⟨w, hw, hwv⟩ := List.mem_map.mp hv
    obtain rfl := Option.some.inj hwv
    rcases Nat.lt_or_ge vs.length n with hn | hn
    · rw [List.take_of_length_le (by simp; omega)]
    · rw [List.take_append_of_le_length hn] at hw
      exact absurd hP (hbefore _ (List.mem_of_mem_take hw))
  · intro hall
    exact ⟨last, by rw [hall]; simp, hlast⟩

end EventStream
