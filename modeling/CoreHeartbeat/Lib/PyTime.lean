/-
  CoreHeartbeat.Lib.PyTime — times of the day (`datetime.time`): the order, the spelling of a
  departure board, and what `strptime` reads.

  A format of `strptime` is a regular expression whose parts are tried in order; a part is here
  the list of what it can read, with what is left of the text (`Reader`). The match is the first
  of them all, and it has to end where the text does. So an hour may be read in two digits or in
  one, and which it is depends on what comes after it: `%H%M` reads "130" as one in the
  afternoon, since the first reading of the hour goes through.

  Digits are those of the Unicode tables, and of the regular expressions' classes only ASCII
  ones, as in `_strptime`. A time carries the proof that it is in range.

  Proved:
  - `hour24_text`, `hour12_text`, `minute_text`: of an hour or a minute in digits, what can
    follow is what was written after it, or one of its own digits.
  - `leavesDigits_append`, `leavesDigits_andThen`, `strptime_of_last`: what is read is digits,
    so a text that ends otherwise is never read to its end by digits alone.
  - `strptime_clockHM`, `strptime_clockIMp`, `strptime_clockIp`: what each format makes of a
    spelling.
-/

import CoreHeartbeat.Lib.PyDate
import CoreHeartbeat.Lib.PyText

namespace PyTime

open PyDate (digits pad2 ofYmd)
open PyText (isSpace Unicode)

/-! ## Times -/

structure Time where
  hour : Nat
  minute : Nat
  second : Nat
  microsecond : Nat
  hour_lt : hour < 24
  minute_lt : minute < 60
  second_lt : second < 60
  microsecond_lt : microsecond < 1000000
  deriving DecidableEq

def Time.micros (t : Time) : Nat := ((t.hour * 60 + t.minute) * 60 + t.second) * 1000000 + t.microsecond

instance : LE Time := ⟨fun a b => a.micros ≤ b.micros⟩

instance (a b : Time) : Decidable (a ≤ b) := inferInstanceAs (Decidable (a.micros ≤ b.micros))

/-- `time(hour, minute, second)`; `none` for a `ValueError`. -/
def ofHms (hour minute second : Nat) : Option Time :=
  if h : hour < 24 ∧ minute < 60 ∧ second < 60 then
    some ⟨hour, minute, second, 0, h.1, h.2.1, h.2.2, by decide⟩
  else none

/-- `datetime.fromisoformat(t).time()` for a date and a time to the second in the extended
    form; `none` for any other text. -/
def ofIsoSeconds : List Char → Option Time
  | [y₁, y₂, y₃, y₄, '-', m₁, m₂, '-', d₁, d₂, _, h₁, h₂, ':', n₁, n₂, ':', s₁, s₂] => do
    let _ ← ofYmd (← digits [y₁, y₂, y₃, y₄]) (← digits [m₁, m₂]) (← digits [d₁, d₂])
    ofHms (← digits [h₁, h₂]) (← digits [n₁, n₂]) (← digits [s₁, s₂])
  | _ => none

/-- `strftime("%-I:%M %p")`. -/
def Time.clock12 (t : Time) : List Char :=
  (toString (if t.hour % 12 = 0 then 12 else t.hour % 12)).toList ++
    ':' :: pad2 t.minute ++ ' ' :: (if t.hour < 12 then "AM" else "PM").toList

/-! ## What a directive reads -/

/-- A part of a format: what it can read, in the order tried, with what is left. -/
abbrev Reader (α : Type) := List Char → List (α × List Char)

def digitIn (lo hi c : Char) : Option Nat := if lo ≤ c ∧ c ≤ hi then some (c.toNat - 48) else none

def one (p : Char → Option Nat) : Reader Nat
  | c :: t => ((p c).map fun n => (n, t)).toList
  | [] => []

def two (p q : Char → Option Nat) : Reader Nat
  | c :: d :: t => ((p c).bind fun a => (q d).map fun b => (10 * a + b, t)).toList
  | _ => []

section
variable (decimal : Char → Option Nat)

/-- `%H`: `2[0-3]|[0-1]\d|\d`. -/
def hour24 : Reader Nat := fun t =>
  two (digitIn '2' '2') (digitIn '0' '3') t ++ (two (digitIn '0' '1') decimal t ++ one decimal t)

/-- `%M`: `[0-5]\d|\d`. -/
def minute : Reader Nat := fun t => two (digitIn '0' '5') decimal t ++ one decimal t

end

/-- `%I`: `1[0-2]|0[1-9]|[1-9]`. -/
def hour12 : Reader Nat := fun t =>
  two (digitIn '1' '1') (digitIn '0' '2') t ++ (two (digitIn '0' '0') (digitIn '1' '9') t ++ one (digitIn '1' '9') t)

def colon : Reader Unit
  | ':' :: t => [((), t)]
  | _ => []

/-- `\s+`, the longest first. -/
def spaces : Reader Unit
  | c :: t => if isSpace c then spaces t ++ [((), t)] else []
  | [] => []

/-- `%p`: whether it is PM. -/
def ampm : Reader Bool
  | c :: d :: t =>
    if Unicode.matchesIgnoringCase 'm' d then
      if Unicode.matchesIgnoringCase 'a' c then [(false, t)]
      else if Unicode.matchesIgnoringCase 'p' c then [(true, t)]
      else []
    else []
  | _ => []

def andThen {α β : Type} (r : Reader α) (next : α → Reader β) : Reader β := fun t =>
  (r t).flatMap fun p => next p.1 p.2

def from12 (hour : Nat) (pm : Bool) : Nat := hour % 12 + if pm then 12 else 0

section
variable (decimal : Char → Option Nat)

/-- `%H:%M`. -/
def clockHM : Reader (Nat × Nat) :=
  andThen (hour24 decimal) fun h => andThen colon fun _ t => (minute decimal t).map fun p => ((h, p.1), p.2)

/-- `%I:%M %p`. -/
def clockIMp : Reader (Nat × Nat) :=
  andThen hour12 fun h => andThen colon fun _ => andThen (minute decimal) fun m => andThen spaces fun _ t =>
    (ampm t).map fun p => ((from12 h p.1, m), p.2)

/-- `%I%p`. -/
def clockIp : Reader (Nat × Nat) := andThen hour12 fun h t => (ampm t).map fun p => ((from12 h p.1, 0), p.2)

/-- `%H%M`. -/
def clockCompact : Reader (Nat × Nat) :=
  andThen (hour24 decimal) fun h t => (minute decimal t).map fun p => ((h, p.1), p.2)

end

/-- `datetime.strptime(t, format).time()`; `none` for a `ValueError`. -/
def strptime (format : Reader (Nat × Nat)) (t : List Char) : Option Time :=
  match (format t).head? with
  | some ((h, m), []) => ofHms h m 0
  | _ => none

/-! ## Hours and minutes in digits -/

def hourText (hour : Nat) (padded : Bool) : List Char :=
  if hour < 10 && !padded then [Nat.digitChar hour] else pad2 hour

def ReadsDigits (decimal : Char → Option Nat) : Prop :=
  ∀ c : Char, c.isDigit = true → decimal c = some (c.toNat - 48)

def NoDigit (decimal : Char → Option Nat) (t : List Char) : Prop :=
  ∀ c ∈ t.head?, c.isDigit = false ∧ decimal c = none

/-- Only what was written after it, or one of its own digits, can follow. -/
def ReadsTo {α : Type} (read : List (α × List Char)) (a : α) (rest : List Char) : Prop :=
  ∃ more, read = (a, rest) :: more ∧ ∀ p ∈ more, ∃ c ∈ p.2.head?, c.isDigit = true

theorem digitIn_of_not_digit {lo hi c : Char} (hlo : '0' ≤ lo) (hhi : hi ≤ '9') (h : c.isDigit = false) :
    digitIn lo hi c = none := by
  unfold digitIn
  rw [if_neg]
  rintro ⟨hc, hc'⟩
  have hdigit : c.isDigit = true := Char.isDigit_iff_toNat.mpr ⟨le_trans hlo hc, le_trans hc' hhi⟩
  rw [h] at hdigit
  cases hdigit

theorem digitIn_digitChar : ∀ k < 10,
    digitIn '0' '1' (Nat.digitChar k) = (if k ≤ 1 then some k else none) ∧
      digitIn '2' '2' (Nat.digitChar k) = (if k = 2 then some k else none) ∧
      digitIn '0' '3' (Nat.digitChar k) = (if k ≤ 3 then some k else none) ∧
      digitIn '0' '5' (Nat.digitChar k) = (if k ≤ 5 then some k else none) ∧
      digitIn '1' '1' (Nat.digitChar k) = (if k = 1 then some k else none) ∧
      digitIn '0' '2' (Nat.digitChar k) = (if k ≤ 2 then some k else none) ∧
      digitIn '0' '0' (Nat.digitChar k) = (if k = 0 then some k else none) ∧
      digitIn '1' '9' (Nat.digitChar k) = (if 1 ≤ k then some k else none) := by decide

section
variable {decimal : Char → Option Nat}

theorem decimal_digitChar (hdecimal : ReadsDigits decimal) {k : Nat} (h : k < 10) :
    decimal (Nat.digitChar k) = some k := by
  rw [hdecimal _ (PyDate.digitChar_spec h).1, (PyDate.digitChar_spec h).2, Nat.add_sub_cancel_left]

theorem minute_text (hdecimal : ReadsDigits decimal) {m : Nat} (h : m < 60) (rest : List Char) :
    ReadsTo (minute decimal (pad2 m ++ rest)) m rest := by
  have htens := (digitIn_digitChar (m / 10 % 10) (by omega)).2.2.2.1
  rw [if_pos (by omega)] at htens
  refine ⟨[(m / 10 % 10, Nat.digitChar (m % 10) :: rest)], ?_, ?_⟩
  · have hsum : 10 * (m / 10 % 10) + m % 10 = m := by omega
    simp [minute, two, one, pad2, htens, decimal_digitChar hdecimal (show m / 10 % 10 < 10 by omega),
      decimal_digitChar hdecimal (show m % 10 < 10 by omega), hsum]
  · intro p hp
    rw [List.mem_singleton.mp hp]
    exact ⟨_, rfl, (PyDate.digitChar_spec (by omega)).1⟩

theorem hour24_text (hdecimal : ReadsDigits decimal) {h : Nat} (hh : h < 24) (padded : Bool) {rest : List Char}
    (hrest : NoDigit decimal rest) : ReadsTo (hour24 decimal (hourText h padded ++ rest)) h rest := by
  by_cases hone : (h < 10 && !padded) = true
  · have hdigit : h < 10 := by
      rw [Bool.and_eq_true, decide_eq_true_eq] at hone
      exact hone.1
    refine ⟨[], ?_, fun p hp => by cases hp⟩
    rw [hourText, if_pos hone, List.singleton_append]
    cases rest with
    | nil => simp [hour24, two, one, decimal_digitChar hdecimal hdigit]
    | cons c rest =>
      obtain ⟨hc, hnone⟩ := hrest c rfl
      have h03 : digitIn '0' '3' c = none := digitIn_of_not_digit (by decide) (by decide) hc
      simp [hour24, two, one, decimal_digitChar hdecimal hdigit, h03, hnone]
  · rw [hourText, if_neg hone]
    obtain ⟨h01, h22, -⟩ := digitIn_digitChar (h / 10 % 10) (by omega)
    obtain ⟨-, -, h03, -⟩ := digitIn_digitChar (h % 10) (by omega)
    have hsum : 10 * (h / 10 % 10) + h % 10 = h := by omega
    refine ⟨[(h / 10 % 10, Nat.digitChar (h % 10) :: rest)], ?_, ?_⟩
    · by_cases htwenty : h / 10 % 10 = 2
      · rw [if_neg (by omega)] at h01
        rw [if_pos htwenty] at h22
        rw [if_pos (by omega)] at h03
        simp [hour24, two, one, pad2, h01, h22, h03, decimal_digitChar hdecimal (show h / 10 % 10 < 10 by omega), hsum]
      · rw [if_pos (by omega)] at h01
        rw [if_neg htwenty] at h22
        simp [hour24, two, one, pad2, h01, h22, decimal_digitChar hdecimal (show h / 10 % 10 < 10 by omega),
          decimal_digitChar hdecimal (show h % 10 < 10 by omega), hsum]
    · intro p hp
      rw [List.mem_singleton.mp hp]
      exact ⟨_, rfl, (PyDate.digitChar_spec (by omega)).1⟩

end

theorem hour12_text {h : Nat} (h1 : 1 ≤ h) (h12 : h ≤ 12) (padded : Bool) {rest : List Char}
    (hrest : ∀ c ∈ rest.head?, c.isDigit = false) : ReadsTo (hour12 (hourText h padded ++ rest)) h rest := by
  by_cases hone : (h < 10 && !padded) = true
  · have hdigit : h < 10 := by
      rw [Bool.and_eq_true, decide_eq_true_eq] at hone
      exact hone.1
    obtain ⟨-, -, -, -, -, -, -, h19⟩ := digitIn_digitChar h hdigit
    rw [if_pos h1] at h19
    refine ⟨[], ?_, fun p hp => by cases hp⟩
    rw [hourText, if_pos hone, List.singleton_append]
    cases rest with
    | nil => simp [hour12, two, one, h19]
    | cons c rest =>
      have h02 : digitIn '0' '2' c = none := digitIn_of_not_digit (by decide) (by decide) (hrest c rfl)
      have h19' : digitIn '1' '9' c = none := digitIn_of_not_digit (by decide) (by decide) (hrest c rfl)
      simp [hour12, two, one, h19, h02, h19']
  · rw [hourText, if_neg hone]
    obtain ⟨-, -, -, -, h11, -, h00, h19⟩ := digitIn_digitChar (h / 10 % 10) (by omega)
    obtain ⟨-, -, -, -, -, h02, -, h19'⟩ := digitIn_digitChar (h % 10) (by omega)
    have hsum : 10 * (h / 10 % 10) + h % 10 = h := by omega
    by_cases hten : h / 10 % 10 = 1
    · rw [if_pos hten] at h11
      rw [if_neg (by omega)] at h00
      rw [if_pos (by omega)] at h19
      rw [if_pos (by omega)] at h02
      refine ⟨[(h / 10 % 10, Nat.digitChar (h % 10) :: rest)], ?_, ?_⟩
      · simp [hour12, two, one, pad2, h11, h00, h19, h02, hsum]
      · intro p hp
        rw [List.mem_singleton.mp hp]
        exact ⟨_, rfl, (PyDate.digitChar_spec (by omega)).1⟩
    · rw [if_neg hten] at h11
      rw [if_pos (by omega)] at h00
      rw [if_neg (by omega)] at h19
      rw [if_pos (by omega)] at h19'
      refine ⟨[], ?_, fun p hp => by cases hp⟩
      simp [hour12, two, one, pad2, h11, h00, h19, h19', hsum]

/-! ## Formats -/

/-- Where the next part reads no digit, the first reading is the one that counts. -/
theorem andThen_readsTo {α β : Type} {r : Reader α} {t rest : List Char} {a : α} (h : ReadsTo (r t) a rest)
    {next : α → Reader β} (hnext : ∀ a c t, c.isDigit = true → next a (c :: t) = []) :
    andThen r next t = next a rest := by
  obtain ⟨more, hread, hmore⟩ := h
  have hnone : more.flatMap (fun p => next p.1 p.2) = [] := by
    rw [List.flatMap_eq_nil_iff]
    intro p hp
    obtain ⟨c, hc, hdigit⟩ := hmore p hp
    cases hrest : p.2 with
    | nil =>
      rw [hrest] at hc
      cases hc
    | cons d t =>
      rw [hrest] at hc
      obtain rfl := Option.some.inj hc
      exact hnext _ _ _ hdigit
  rw [andThen, hread, List.flatMap_cons, hnone, List.append_nil]

theorem colon_digit {β : Type} (next : Unit → Reader β) {c : Char} (t : List Char) (h : c.isDigit = true) :
    andThen colon next (c :: t) = [] := by
  have hne : c ≠ ':' := by
    rintro rfl
    cases h
  simp [andThen, colon, hne]

def LeavesDigits {α : Type} (decimal : Char → Option Nat) (r : Reader α) : Prop :=
  ∀ t, ∀ p ∈ r t, ∃ read, t = read ++ p.2 ∧ ∀ c ∈ read, c = ':' ∨ (decimal c).isSome = true

section
variable {decimal : Char → Option Nat}

theorem decimal_of_digitIn (hdecimal : ReadsDigits decimal) {lo hi c : Char} {n : Nat} (hlo : '0' ≤ lo)
    (hhi : hi ≤ '9') (h : digitIn lo hi c = some n) : (decimal c).isSome = true := by
  have hdigit : c.isDigit = true := by
    by_contra hno
    rw [digitIn_of_not_digit hlo hhi (Bool.of_not_eq_true hno)] at h
    cases h
  rw [hdecimal c hdigit]
  rfl

theorem leavesDigits_one {p : Char → Option Nat} (h : ∀ c n, p c = some n → (decimal c).isSome = true) :
    LeavesDigits decimal (one p) := by
  intro t q hq
  cases t with
  | nil => cases hq
  | cons c t =>
    simp only [one, Option.mem_toList, Option.map_eq_some_iff] at hq
    obtain ⟨n, hn, rfl⟩ := hq
    exact ⟨[c], rfl, by simpa using Or.inr (h c n hn)⟩

theorem leavesDigits_two {p q : Char → Option Nat} (hp : ∀ c n, p c = some n → (decimal c).isSome = true)
    (hq : ∀ c n, q c = some n → (decimal c).isSome = true) : LeavesDigits decimal (two p q) := by
  intro t r hr
  match t with
  | [] => cases hr
  | [c] => cases hr
  | c :: d :: t =>
    simp only [two, Option.mem_toList, Option.bind_eq_some_iff, Option.map_eq_some_iff] at hr
    obtain ⟨a, ha, b, hb, rfl⟩ := hr
    refine ⟨[c, d], rfl, ?_⟩
    simp [hp c a ha, hq d b hb]

theorem leavesDigits_append {α : Type} {r r' : Reader α} (h : LeavesDigits decimal r) (h' : LeavesDigits decimal r') :
    LeavesDigits decimal fun t => r t ++ r' t := by
  intro t p hp
  rcases List.mem_append.mp hp with hp | hp
  · exact h t p hp
  · exact h' t p hp

theorem leavesDigits_map {α β : Type} {r : Reader α} (h : LeavesDigits decimal r) (f : α → β) :
    LeavesDigits decimal fun t => (r t).map fun p => (f p.1, p.2) := by
  intro t p hp
  obtain ⟨q, hq, rfl⟩ := List.mem_map.mp hp
  exact h t q hq

theorem leavesDigits_andThen {α β : Type} {r : Reader α} {next : α → Reader β} (h : LeavesDigits decimal r)
    (hnext : ∀ a, LeavesDigits decimal (next a)) : LeavesDigits decimal (andThen r next) := by
  intro t p hp
  obtain ⟨q, hq, hp⟩ := List.mem_flatMap.mp hp
  obtain ⟨read, hread, hdigits⟩ := h t q hq
  obtain ⟨read', hread', hdigits'⟩ := hnext q.1 q.2 p hp
  refine ⟨read ++ read', by rw [hread, hread', List.append_assoc], fun c hc => ?_⟩
  rcases List.mem_append.mp hc with hc | hc
  · exact hdigits c hc
  · exact hdigits' c hc

theorem leavesDigits_colon : LeavesDigits decimal colon := by
  intro t p hp
  unfold colon at hp
  split at hp
  · rename_i t
    rw [List.mem_singleton.mp hp]
    exact ⟨[':'], rfl, by simp⟩
  · cases hp

theorem leavesDigits_hour24 (hdecimal : ReadsDigits decimal) : LeavesDigits decimal (hour24 decimal) := by
  have hclass : ∀ lo hi : Char, '0' ≤ lo → hi ≤ '9' → ∀ c n, digitIn lo hi c = some n → (decimal c).isSome = true :=
    fun lo hi hlo hhi c n => decimal_of_digitIn hdecimal hlo hhi
  have hany : ∀ c n, decimal c = some n → (decimal c).isSome = true := fun c n h => by rw [h]; rfl
  exact leavesDigits_append
    (leavesDigits_two (hclass _ _ (by decide) (by decide)) (hclass _ _ (by decide) (by decide)))
    (leavesDigits_append (leavesDigits_two (hclass _ _ (by decide) (by decide)) hany) (leavesDigits_one hany))

theorem leavesDigits_minute (hdecimal : ReadsDigits decimal) : LeavesDigits decimal (minute decimal) := by
  have hclass : ∀ c n, digitIn '0' '5' c = some n → (decimal c).isSome = true :=
    fun c n => decimal_of_digitIn hdecimal (by decide) (by decide)
  have hany : ∀ c n, decimal c = some n → (decimal c).isSome = true := fun c n h => by rw [h]; rfl
  exact leavesDigits_append (leavesDigits_two hclass hany) (leavesDigits_one hany)

theorem leavesDigits_clockHM (hdecimal : ReadsDigits decimal) : LeavesDigits decimal (clockHM decimal) :=
  leavesDigits_andThen (leavesDigits_hour24 hdecimal) fun _ =>
    leavesDigits_andThen leavesDigits_colon fun _ => leavesDigits_map (leavesDigits_minute hdecimal) _

theorem leavesDigits_clockCompact (hdecimal : ReadsDigits decimal) : LeavesDigits decimal (clockCompact decimal) :=
  leavesDigits_andThen (leavesDigits_hour24 hdecimal) fun _ => leavesDigits_map (leavesDigits_minute hdecimal) _

/-- A text that ends in another character is not read to its end. -/
theorem strptime_of_last {format : Reader (Nat × Nat)} (h : LeavesDigits decimal format) (t : List Char) {c : Char}
    (hcolon : c ≠ ':') (hc : decimal c = none) : strptime format (t ++ [c]) = none := by
  unfold strptime
  split
  · rename_i hour minute hread
    obtain ⟨read, hsplit, hdigits⟩ := h _ _ (List.mem_of_mem_head? hread)
    rw [List.append_nil] at hsplit
    rcases hdigits c (hsplit ▸ List.mem_append_right t List.mem_cons_self) with hc' | hc'
    · exact absurd hc' hcolon
    · rw [hc] at hc'
      cases hc'
  · rfl

/-- What `%H:%M` is written as, it reads. -/
theorem strptime_clockHM (hdecimal : ReadsDigits decimal) {h m : Nat} (hh : h < 24) (hm : m < 60) (padded : Bool)
    (hcolon : decimal ':' = none) :
    strptime (clockHM decimal) (hourText h padded ++ ':' :: pad2 m) = ofHms h m 0 := by
  have hhour : ReadsTo (hour24 decimal (hourText h padded ++ ':' :: pad2 m)) h (':' :: pad2 m) :=
    hour24_text hdecimal hh padded fun c hc => by
      obtain rfl := Option.some.inj hc
      exact ⟨rfl, hcolon⟩
  obtain ⟨more, hminute, -⟩ := minute_text hdecimal hm []
  rw [List.append_nil] at hminute
  have hread : (clockHM decimal (hourText h padded ++ ':' :: pad2 m)).head? = some ((h, m), []) := by
    rw [clockHM, andThen_readsTo hhour fun _ _ _ hc => colon_digit _ _ hc]
    simp [andThen, colon, hminute]
  rw [strptime, hread]

def markText (pm : Bool) : List Char := [if pm then 'P' else 'A', 'M']

theorem ampm_mark (pm : Bool) : ampm (markText pm) = [(pm, [])] := by cases pm <;> rfl

theorem isAlpha_of_range {c : Char} (h : c.toNat < 65 ∨ 90 < c.toNat ∧ c.toNat < 97 ∨ 122 < c.toNat) :
    c.isAlpha = false := by
  have hupper : c.isUpper = false := decide_eq_false fun hrange => by
    have hlo : 65 ≤ c.toNat := UInt32.le_iff_toNat_le.mp hrange.1
    have hhi : c.toNat ≤ 90 := UInt32.le_iff_toNat_le.mp hrange.2
    omega
  have hlower : c.isLower = false := by
    show (decide ('a'.val ≤ c.val) && decide (c.val ≤ 'z'.val)) = false
    rw [Bool.and_eq_false_iff, decide_eq_false_iff_not, decide_eq_false_iff_not]
    by_contra hrange
    rw [not_or, not_not, not_not] at hrange
    have hlo : 97 ≤ c.toNat := UInt32.le_iff_toNat_le.mp hrange.1
    have hhi : c.toNat ≤ 122 := UInt32.le_iff_toNat_le.mp hrange.2
    omega
  exact Bool.or_eq_false_iff.mpr ⟨hupper, hlower⟩

theorem isAlpha_of_isSpace {c : Char} (h : isSpace c = true) : c.isAlpha = false := by
  simp only [isSpace, List.contains_cons, List.contains_nil, Bool.or_eq_true, beq_iff_eq, Bool.and_eq_true,
    decide_eq_true_eq, Bool.or_false] at h
  exact isAlpha_of_range (by omega)

theorem isAlpha_of_isDigit {c : Char} (h : c.isDigit = true) : c.isAlpha = false := by
  have hn := PyText.toNat_of_isDigit h
  exact isAlpha_of_range (by omega)

theorem ampm_of_not_alpha {c : Char} (h : c.isAlpha = false) (t : List Char) : ampm (c :: t) = [] := by
  obtain ⟨hupper, hnotLower⟩ := Bool.or_eq_false_iff.mp h
  have hlower : c.toLower = c := dif_neg (of_decide_eq_false hupper)
  have hno : ∀ l : Char, l.isLower = true → l ≠ 'i' → l ≠ 's' → l ≠ 'k' → Unicode.matchesIgnoringCase l c = false := by
    intro l hl hi hs hk
    have hself : c ≠ l := by
      rintro rfl
      rw [hnotLower] at hl
      cases hl
    simp [Unicode.matchesIgnoringCase, hlower, hself, hi, hs, hk]
  cases t with
  | nil => rfl
  | cons d t =>
    simp [ampm, hno 'a' rfl (by decide) (by decide) (by decide), hno 'p' rfl (by decide) (by decide) (by decide)]

/-- A gap before a text is read whole, and there has to be one. -/
theorem andThen_spaces {β : Type} {next : Unit → Reader β} (hnext : ∀ c t, isSpace c = true → next () (c :: t) = [])
    {gap : List Char} (hgap : ∀ c ∈ gap, isSpace c = true) {x : Char} (hx : isSpace x = false) (t : List Char) :
    andThen spaces next (gap ++ x :: t) = if gap = [] then [] else next () (x :: t) := by
  induction gap with
  | nil => simp [andThen, spaces, hx]
  | cons c gap ih =>
    rw [List.forall_mem_cons] at hgap
    have hspread : andThen spaces next (c :: gap ++ x :: t) =
        andThen spaces next (gap ++ x :: t) ++ next () (gap ++ x :: t) := by
      simp [andThen, spaces, hgap.1]
    rw [hspread, ih hgap.2, if_neg (List.cons_ne_nil _ _)]
    cases gap with
    | nil => rfl
    | cons d gap =>
      rw [List.forall_mem_cons] at hgap
      rw [if_neg (List.cons_ne_nil _ _), List.cons_append, hnext d _ hgap.2.1, List.append_nil]

theorem strptime_clockIMp (hdecimal : ReadsDigits decimal) {h m : Nat} (h1 : 1 ≤ h) (h12 : h ≤ 12) (hm : m < 60)
    (padded pm : Bool) {gap : List Char} (hgap : ∀ c ∈ gap, isSpace c = true) :
    strptime (clockIMp decimal) (hourText h padded ++ ':' :: (pad2 m ++ (gap ++ markText pm))) =
      if gap = [] then none else ofHms (from12 h pm) m 0 := by
  have hhour : ReadsTo (hour12 (hourText h padded ++ ':' :: (pad2 m ++ (gap ++ markText pm)))) h
      (':' :: (pad2 m ++ (gap ++ markText pm))) := hour12_text h1 h12 padded fun c hc => by
    obtain rfl := Option.some.inj hc
    rfl
  have hminute := minute_text hdecimal hm (gap ++ markText pm)
  have hmark : isSpace (if pm then 'P' else 'A') = false := by cases pm <;> rfl
  have hnext : ∀ c t, isSpace c = true → (ampm (c :: t)).map (fun p => ((from12 h p.1, m), p.2)) = [] := by
    intro c t hc
    rw [ampm_of_not_alpha (isAlpha_of_isSpace hc)]
    rfl
  have hread : clockIMp decimal (hourText h padded ++ ':' :: (pad2 m ++ (gap ++ markText pm))) =
      if gap = [] then [] else [((from12 h pm, m), [])] := by
    have hcolon : ∀ (next : Unit → Reader (Nat × Nat)) t, andThen colon next (':' :: t) = next () t := by
      intro next t
      simp [andThen, colon]
    rw [clockIMp, andThen_readsTo hhour fun _ _ _ hc => colon_digit _ _ hc, hcolon, andThen_readsTo hminute]
    · rw [markText, andThen_spaces hnext hgap hmark, ← markText, ampm_mark]
      rfl
    · intro m c t hc
      simp [andThen, spaces, PyText.isSpace_of_isDigit hc]
  rw [strptime, hread]
  split
  · rename_i hpair
    by_cases hnil : gap = []
    · simp [hnil] at hpair
    · simp [hnil] at hpair
      simp [hnil, hpair]
  · rename_i hnone
    by_cases hnil : gap = []
    · rw [if_pos hnil]
    · exact absurd (by simp [hnil]) (hnone (from12 h pm) m)

theorem ampm_map_digit {β : Type} (f : Bool × List Char → β × List Char) {c : Char} (t : List Char)
    (h : c.isDigit = true) : (ampm (c :: t)).map f = [] := by
  rw [ampm_of_not_alpha (isAlpha_of_isDigit h), List.map_nil]

theorem gap_head {gap : List Char} (hgap : ∀ c ∈ gap, isSpace c = true) (pm : Bool) :
    ∀ c ∈ (gap ++ markText pm).head?, c.isDigit = false ∧ c ≠ ':' := by
  intro c hc
  cases gap with
  | nil =>
    cases pm <;> (obtain rfl := Option.some.inj hc; exact ⟨rfl, by decide⟩)
  | cons d gap =>
    obtain rfl := Option.some.inj hc
    have hspace := hgap d List.mem_cons_self
    refine ⟨Bool.of_not_eq_true fun hdigit => ?_, ?_⟩
    · rw [PyText.isSpace_of_isDigit hdigit] at hspace
      cases hspace
    · rintro rfl
      revert hspace
      decide

/-- An hour and no minutes: the mark has to follow at once. -/
theorem strptime_clockIp {h : Nat} (h1 : 1 ≤ h) (h12 : h ≤ 12) (padded pm : Bool) {gap : List Char}
    (hgap : ∀ c ∈ gap, isSpace c = true) :
    strptime clockIp (hourText h padded ++ (gap ++ markText pm)) =
      if gap = [] then ofHms (from12 h pm) 0 0 else none := by
  have hhour := hour12_text h1 h12 padded fun c hc => (gap_head hgap pm c hc).1
  rw [strptime, clockIp, andThen_readsTo hhour fun _ _ _ hc => ampm_map_digit _ _ hc]
  cases gap with
  | nil => simp [ampm_mark]
  | cons c gap =>
    rw [List.cons_append, ampm_of_not_alpha (isAlpha_of_isSpace (hgap c List.mem_cons_self)), if_neg (List.cons_ne_nil _ _)]
    rfl

theorem strptime_clockIp_colon {h : Nat} (h1 : 1 ≤ h) (h12 : h ≤ 12) (padded : Bool) (t : List Char) :
    strptime clockIp (hourText h padded ++ ':' :: t) = none := by
  have hhour : ReadsTo (hour12 (hourText h padded ++ ':' :: t)) h (':' :: t) := hour12_text h1 h12 padded fun c hc => by
    obtain rfl := Option.some.inj hc
    rfl
  rw [strptime, clockIp, andThen_readsTo hhour fun _ _ _ hc => ampm_map_digit _ _ hc, ampm_of_not_alpha rfl]
  rfl

/-- Without a colon there are no minutes to read. -/
theorem strptime_clockIMp_noColon {h : Nat} (h1 : 1 ≤ h) (h12 : h ≤ 12) (padded pm : Bool) {gap : List Char}
    (hgap : ∀ c ∈ gap, isSpace c = true) :
    strptime (clockIMp decimal) (hourText h padded ++ (gap ++ markText pm)) = none := by
  have hhour := hour12_text h1 h12 padded fun c hc => (gap_head hgap pm c hc).1
  rw [strptime, clockIMp, andThen_readsTo hhour fun _ _ _ hc => colon_digit _ _ hc]
  have hnone : ∀ next : Unit → Reader (Nat × Nat), andThen colon next (gap ++ markText pm) = [] := by
    intro next
    have hhead := gap_head hgap pm
    cases hrest : gap ++ markText pm with
    | nil => rfl
    | cons c t =>
      rw [hrest] at hhead
      simp [andThen, colon, (hhead c rfl).2]
  rw [hnone]
  rfl

end

end PyTime
