/-
  CoreHeartbeat.Lib.PyDate — days of the proleptic Gregorian calendar (`datetime.date`).

  A date is its ordinal, day 1 being the first of January of the year 1; a value carries the
  proof that it is in the range of `datetime.date`. A day added or taken off may leave the
  range, which Python answers with `OverflowError` and `addDays` with `none`.

  The month and the day of an ordinal are computed as the library computes them, by cycles of
  400, 100, 4 and 1 years; the ordinal of a triple by the days before its year and its month.
  `fromIsoFormat` reads the calendar and the week forms of ISO 8601, `isoformat` writes the
  calendar form, and `strptimeYmd` reads it with the digits of any script.

  Proved:
  - `ofYmd_ymd` / `ymd_ofYmd`: years, months and days name the days one to one.
  - `ofYmd_spec`: what a triple that names a date satisfies.
  - `fromIsoFormat_isoformat` / `strptimeYmd_isoformat`: what is written is read back.
  - `addDays_ordinal`: a day so many later, as long as there is one.
-/

import Mathlib.Order.Basic
import Mathlib.Algebra.GroupWithZero.Nat
import Mathlib.Tactic.IntervalCases

namespace PyDate

def isLeap (y : Nat) : Bool := y % 4 = 0 && (y % 100 ≠ 0 || y % 400 = 0)

def daysBeforeYear (y : Nat) : Nat := (y - 1) * 365 + (y - 1) / 4 - (y - 1) / 100 + (y - 1) / 400

def daysInMonth (y m : Nat) : Nat :=
  if m = 2 then (if isLeap y then 29 else 28)
  else if m = 4 ∨ m = 6 ∨ m = 9 ∨ m = 11 then 30
  else 31

def daysBeforeMonth (y m : Nat) : Nat := ((List.range (m - 1)).map fun i => daysInMonth y (i + 1)).sum

/-- `date.max.toordinal()`. -/
def maxOrdinal : Nat := 3652059

structure Date where
  ordinal : Nat
  pos : 1 ≤ ordinal
  le : ordinal ≤ maxOrdinal
  deriving DecidableEq

theorem Date.eq_of_le {d d' : Date} (h : d.ordinal ≤ d'.ordinal) (h' : d'.ordinal ≤ d.ordinal) : d = d' := by
  cases d; cases d'
  simp only [Date.mk.injEq]
  exact Nat.le_antisymm h h'

def ofOrdinal (n : Nat) : Option Date := if h : 1 ≤ n ∧ n ≤ maxOrdinal then some ⟨n, h.1, h.2⟩ else none

/-- `date(y, m, d)`. -/
def ofYmd (y m d : Nat) : Option Date :=
  if 1 ≤ y ∧ y ≤ 9999 ∧ 1 ≤ m ∧ m ≤ 12 ∧ 1 ≤ d ∧ d ≤ daysInMonth y m then
    ofOrdinal (daysBeforeYear y + daysBeforeMonth y m + d)
  else none

def week1Monday (y : Nat) : Int :=
  let firstDay : Int := daysBeforeYear y + 1
  let weekday := (firstDay + 6) % 7
  if weekday > 3 then firstDay - weekday + 7 else firstDay - weekday

/-- `date.fromisocalendar(y, week, day)`. -/
def ofIsoWeek (y week day : Nat) : Option Date :=
  let firstWeekday := (daysBeforeYear y + 1) % 7
  let weeks := if firstWeekday = 4 ∨ (firstWeekday = 3 ∧ isLeap y) then 53 else 52
  if 1 ≤ y ∧ y ≤ 9999 ∧ 1 ≤ week ∧ week ≤ weeks ∧ 1 ≤ day ∧ day ≤ 7 then
    ofOrdinal (week1Monday y + (week - 1) * 7 + (day - 1)).toNat
  else none

def digits (cs : List Char) : Option Nat :=
  if cs.all Char.isDigit then some (cs.foldl (fun n c => n * 10 + (c.toNat - '0'.toNat)) 0) else none

/-- `date.fromisoformat`; `none` for a `ValueError`. -/
def fromIsoFormat : List Char → Option Date
  | [y₁, y₂, y₃, y₄, '-', 'W', w₁, w₂, '-', d] => do
    ofIsoWeek (← digits [y₁, y₂, y₃, y₄]) (← digits [w₁, w₂]) (← digits [d])
  | [y₁, y₂, y₃, y₄, '-', 'W', w₁, w₂] => do ofIsoWeek (← digits [y₁, y₂, y₃, y₄]) (← digits [w₁, w₂]) 1
  | [y₁, y₂, y₃, y₄, 'W', w₁, w₂, d] => do ofIsoWeek (← digits [y₁, y₂, y₃, y₄]) (← digits [w₁, w₂]) (← digits [d])
  | [y₁, y₂, y₃, y₄, 'W', w₁, w₂] => do ofIsoWeek (← digits [y₁, y₂, y₃, y₄]) (← digits [w₁, w₂]) 1
  | [y₁, y₂, y₃, y₄, '-', m₁, m₂, '-', d₁, d₂] => do
    ofYmd (← digits [y₁, y₂, y₃, y₄]) (← digits [m₁, m₂]) (← digits [d₁, d₂])
  | [y₁, y₂, y₃, y₄, m₁, m₂, d₁, d₂] => do ofYmd (← digits [y₁, y₂, y₃, y₄]) (← digits [m₁, m₂]) (← digits [d₁, d₂])
  | _ => none

/-! ## The year, month and day of an ordinal -/

/-- `_DAYS_BEFORE_MONTH`, with the leap day. -/
def beforeMonth (leap : Bool) (m : Nat) : Nat :=
  [0, 0, 31, 59, 90, 120, 151, 181, 212, 243, 273, 304, 334].getD m 0 + if leap && 2 < m then 1 else 0

/-- `_DAYS_IN_MONTH`, with the leap day. -/
def inMonth (leap : Bool) (m : Nat) : Nat :=
  [0, 31, 28, 31, 30, 31, 30, 31, 31, 30, 31, 30, 31].getD m 0 + if leap && m = 2 then 1 else 0

/-- The month and the day of the `n`-th day of a year, from zero. -/
def monthDay (leap : Bool) (n : Nat) : Nat × Nat :=
  let month := (n + 50) / 32
  let preceding := beforeMonth leap month
  if n < preceding then (month - 1, n - (preceding - inMonth leap (month - 1)) + 1) else (month, n - preceding + 1)

/-- `_ord2ymd`: the cycles of 400, 100, 4 and 1 years taken off in turn. -/
def ord2ymd (ordinal : Nat) : Nat × Nat × Nat :=
  let n := ordinal - 1
  let n400 := n / 146097
  let n100 := n % 146097 / 36524
  let n4 := n % 146097 % 36524 / 1461
  let n1 := n % 146097 % 36524 % 1461 / 365
  let year := 400 * n400 + 100 * n100 + 4 * n4 + n1 + 1
  if n1 = 4 ∨ n100 = 4 then (year - 1, 12, 31)
  else (year, monthDay (n1 = 3 && (n4 ≠ 24 || n100 = 3)) (n % 146097 % 36524 % 1461 % 365))

def Date.ymd (d : Date) : Nat × Nat × Nat := ord2ymd d.ordinal

theorem isLeap_iff {y : Nat} : isLeap y = true ↔ y % 4 = 0 ∧ (y % 100 ≠ 0 ∨ y % 400 = 0) := by
  simp [isLeap]

theorem daysBeforeMonth_eq {y m : Nat} (h1 : 1 ≤ m) (h12 : m ≤ 12) : daysBeforeMonth y m = beforeMonth (isLeap y) m := by
  unfold daysBeforeMonth daysInMonth
  cases isLeap y <;> interval_cases m <;> rfl

theorem daysInMonth_eq {y m : Nat} (h1 : 1 ≤ m) (h12 : m ≤ 12) : daysInMonth y m = inMonth (isLeap y) m := by
  unfold daysInMonth
  cases isLeap y <;> interval_cases m <;> rfl

/-- Every day of a year has its month and day. -/
theorem monthDay_spec (leap : Bool) {n : Nat} (h : n < 365 + if leap then 1 else 0) :
    1 ≤ (monthDay leap n).1 ∧ (monthDay leap n).1 ≤ 12 ∧ 1 ≤ (monthDay leap n).2 ∧
      (monthDay leap n).2 ≤ inMonth leap (monthDay leap n).1 ∧
      beforeMonth leap (monthDay leap n).1 + (monthDay leap n).2 = n + 1 := by
  have hall : ([false, true].all fun leap => (List.range (365 + if leap then 1 else 0)).all fun n =>
      (1 ≤ (monthDay leap n).1 && (monthDay leap n).1 ≤ 12 && 1 ≤ (monthDay leap n).2 &&
        (monthDay leap n).2 ≤ inMonth leap (monthDay leap n).1 &&
        beforeMonth leap (monthDay leap n).1 + (monthDay leap n).2 == n + 1)) = true := by
    decide +kernel
  have hleap := List.all_eq_true.mp hall leap (by cases leap <;> simp)
  have hn := List.all_eq_true.mp hleap n (List.mem_range.mpr h)
  simpa [and_assoc] using hn

/-- A year's first day follows the last of the year before. -/
theorem daysBeforeYear_succ {y : Nat} (h : 1 ≤ y) :
    daysBeforeYear (y + 1) = daysBeforeYear y + 365 + if isLeap y then 1 else 0 := by
  obtain ⟨k, rfl⟩ : ∃ k, y = k + 1 := ⟨y - 1, by omega⟩
  have hcenturies : k / 100 ≤ k / 4 := Nat.div_le_div_left (by decide) (by decide)
  have hdiv (n : Nat) : (k + 1) / n = k / n + if n ∣ k + 1 then 1 else 0 := Nat.succ_div
  have hleap : isLeap (k + 1) = true ↔ 4 ∣ k + 1 ∧ (¬ 100 ∣ k + 1 ∨ 400 ∣ k + 1) := by
    simp only [isLeap_iff, Nat.dvd_iff_mod_eq_zero, ne_eq]
  have h4 : 100 ∣ k + 1 → 4 ∣ k + 1 := fun h => dvd_trans (by decide) h
  have h100 : 400 ∣ k + 1 → 100 ∣ k + 1 := fun h => dvd_trans (by decide) h
  simp only [daysBeforeYear, Nat.add_sub_cancel, hdiv]
  by_cases c400 : 400 ∣ k + 1
  · rw [if_pos c400, if_pos (h100 c400), if_pos (h4 (h100 c400)), if_pos (hleap.mpr ⟨h4 (h100 c400), Or.inr c400⟩)]
    omega
  · rw [if_neg c400]
    by_cases c100 : 100 ∣ k + 1
    · have hno : ¬ isLeap (k + 1) = true := by rw [hleap]; tauto
      rw [if_pos c100, if_pos (h4 c100), if_neg hno]
      omega
    · rw [if_neg c100]
      by_cases c4 : 4 ∣ k + 1
      · rw [if_pos c4, if_pos (hleap.mpr ⟨c4, Or.inl c100⟩)]
        omega
      · have hno : ¬ isLeap (k + 1) = true := by rw [hleap]; tauto
        rw [if_neg c4, if_neg hno]
        omega

/-- The days before a year, by the cycles it stands in. -/
theorem daysBeforeYear_cycles {a b c e : Nat} (hb : b ≤ 3) (hc : c ≤ 24) (he : e ≤ 3) :
    daysBeforeYear (400 * a + 100 * b + 4 * c + e + 1) = 146097 * a + 36524 * b + 1461 * c + 365 * e := by
  have h4 : (400 * a + 100 * b + 4 * c + e) / 4 = 100 * a + 25 * b + c := by omega
  have h100 : (400 * a + 100 * b + 4 * c + e) / 100 = 4 * a + b := by omega
  have h400 : (400 * a + 100 * b + 4 * c + e) / 400 = a := by omega
  simp only [daysBeforeYear, Nat.add_sub_cancel, h4, h100, h400]
  omega

theorem isLeap_cycles {a b c e : Nat} (hb : b ≤ 3) (hc : c ≤ 24) (he : e ≤ 3) :
    isLeap (400 * a + 100 * b + 4 * c + e + 1) = (e = 3 && (c ≠ 24 || b = 3)) := by
  rw [Bool.eq_iff_iff, isLeap_iff]
  simp only [Bool.and_eq_true, Bool.or_eq_true, decide_eq_true_eq]
  omega

theorem ofYmd_eq_some {y m d n : Nat} (h1 : 1 ≤ y) (h2 : y ≤ 9999) (h3 : 1 ≤ m) (h4 : m ≤ 12) (h5 : 1 ≤ d)
    (h6 : d ≤ inMonth (isLeap y) m) (hn : daysBeforeYear y + beforeMonth (isLeap y) m + d = n) (date : Date)
    (hdate : date.ordinal = n) : ofYmd y m d = some date := by
  rw [← daysBeforeMonth_eq h3 h4, ← hdate] at hn
  rw [← daysInMonth_eq h3 h4] at h6
  rw [ofYmd, if_pos ⟨h1, h2, h3, h4, h5, h6⟩, hn, ofOrdinal, dif_pos ⟨date.pos, date.le⟩]

/-- The year, month and day of a date are its own. -/
theorem ofYmd_ymd (date : Date) : ofYmd date.ymd.1 date.ymd.2.1 date.ymd.2.2 = some date := by
  have hpos := date.pos
  have hle := date.le
  simp only [maxOrdinal] at hle
  unfold Date.ymd ord2ymd
  dsimp only
  set q := date.ordinal - 1 with hq
  obtain ⟨a, ha⟩ : ∃ a, a = q / 146097 := ⟨_, rfl⟩
  obtain ⟨b, hb⟩ : ∃ b, b = q % 146097 / 36524 := ⟨_, rfl⟩
  obtain ⟨c, hc⟩ : ∃ c, c = q % 146097 % 36524 / 1461 := ⟨_, rfl⟩
  obtain ⟨e, he⟩ : ∃ e, e = q % 146097 % 36524 % 1461 / 365 := ⟨_, rfl⟩
  obtain ⟨f, hf⟩ : ∃ f, f = q % 146097 % 36524 % 1461 % 365 := ⟨_, rfl⟩
  rw [← ha, ← hb, ← hc, ← he, ← hf]
  have hday : date.ordinal = 146097 * a + 36524 * b + 1461 * c + 365 * e + f + 1 := by omega
  have hc24 : c ≤ 24 := by omega
  by_cases hlast : e = 4 ∨ b = 4
  · -- the last day of a leap year that closes a cycle
    rw [if_pos hlast]
    dsimp only
    obtain ⟨b', c', hb', hc', hyear, hordinal, hleap⟩ : ∃ b' c', b' ≤ 3 ∧ c' ≤ 24 ∧
        400 * a + 100 * b + 4 * c + e + 1 - 1 = 400 * a + 100 * b' + 4 * c' + 3 + 1 ∧
        date.ordinal = 146097 * a + 36524 * b' + 1461 * c' + 1095 + 366 ∧ (c' ≠ 24 ∨ b' = 3) := by
      rcases hlast with hlast | hlast
      · exact ⟨b, c, by omega, by omega, by omega, by omega, by omega⟩
      · exact ⟨3, 24, by omega, by omega, by omega, by omega, by omega⟩
    have hy : isLeap (400 * a + 100 * b' + 4 * c' + 3 + 1) = true := by
      rw [isLeap_cycles hb' hc' (by decide)]
      simpa using hleap
    rw [hyear]
    refine ofYmd_eq_some (by omega) (by omega) (by decide) (by decide) (by decide) (by rw [hy]; decide) ?_ date hordinal
    rw [hy, daysBeforeYear_cycles hb' hc' (by decide)]
    show _ + 335 + 31 = _
    omega
  · rw [if_neg hlast]
    dsimp only
    have hb3 : b ≤ 3 := by omega
    have he3 : e ≤ 3 := by omega
    rw [← isLeap_cycles (a := a) hb3 hc24 he3]
    obtain ⟨h1, h12, hd1, hdm, hsum⟩ :=
      monthDay_spec (isLeap (400 * a + 100 * b + 4 * c + e + 1)) (n := f) (by omega)
    refine ofYmd_eq_some (by omega) (by omega) h1 h12 hd1 hdm ?_ date hday
    rw [daysBeforeYear_cycles hb3 hc24 he3]
    omega

/-- What a triple that names a date satisfies. -/
theorem ofYmd_spec {y m d : Nat} {date : Date} (h : ofYmd y m d = some date) :
    1 ≤ y ∧ y ≤ 9999 ∧ 1 ≤ m ∧ m ≤ 12 ∧ 1 ≤ d ∧ d ≤ inMonth (isLeap y) m ∧
      daysBeforeYear y + beforeMonth (isLeap y) m + d = date.ordinal := by
  unfold ofYmd at h
  split at h
  · rename_i hrange
    obtain ⟨h1, h2, h3, h4, h5, h6⟩ := hrange
    rw [daysInMonth_eq h3 h4] at h6
    rw [daysBeforeMonth_eq h3 h4] at h
    refine ⟨h1, h2, h3, h4, h5, h6, ?_⟩
    unfold ofOrdinal at h
    split at h
    · exact congrArg Date.ordinal (Option.some.inj h)
    · cases h
  · cases h

theorem daysBeforeYear_mono {y z : Nat} (h1 : 1 ≤ y) (h : y < z) : daysBeforeYear (y + 1) ≤ daysBeforeYear z := by
  induction z, h using Nat.le_induction with
  | base => exact le_refl _
  | succ z hz ih =>
    have := daysBeforeYear_succ (y := z) (by omega)
    omega

theorem beforeMonth_mono (leap : Bool) {m k : Nat} (h1 : 1 ≤ m) (h : m < k) (h12 : k ≤ 12) :
    beforeMonth leap m + inMonth leap m ≤ beforeMonth leap k := by
  have hstep : ∀ m, 1 ≤ m → m < 12 → beforeMonth leap m + inMonth leap m = beforeMonth leap (m + 1) := by
    intro m h1 h12
    cases leap <;> interval_cases m <;> rfl
  induction k, h using Nat.le_induction with
  | base => exact le_of_eq (hstep m h1 (by omega))
  | succ k hk ih =>
    have hle := ih (by omega)
    have := hstep k (by omega) (by omega)
    omega

theorem inMonth_lt (leap : Bool) {m : Nat} (h1 : 1 ≤ m) (h12 : m ≤ 12) :
    beforeMonth leap m + inMonth leap m ≤ 365 + if leap then 1 else 0 := by
  cases leap <;> interval_cases m <;> decide

theorem ofYmd_inj {y m d y' m' d' : Nat} {date : Date} (h : ofYmd y m d = some date) (h' : ofYmd y' m' d' = some date) :
    y = y' ∧ m = m' ∧ d = d' := by
  obtain ⟨hy1, -, hm1, hm12, hd1, hdm, hn⟩ := ofYmd_spec h
  obtain ⟨hy1', -, hm1', hm12', hd1', hdm', hn'⟩ := ofYmd_spec h'
  have hin := inMonth_lt (isLeap y) hm1 hm12
  have hin' := inMonth_lt (isLeap y') hm1' hm12'
  have hsucc := daysBeforeYear_succ hy1
  have hsucc' := daysBeforeYear_succ hy1'
  have hyear : y = y' := by
    rcases Nat.lt_trichotomy y y' with hlt | heq | hlt
    · have := daysBeforeYear_mono hy1 hlt
      omega
    · exact heq
    · have := daysBeforeYear_mono hy1' hlt
      omega
  subst hyear
  have hmonth : m = m' := by
    rcases Nat.lt_trichotomy m m' with hlt | heq | hlt
    · have := beforeMonth_mono (isLeap y) hm1 hlt hm12'
      omega
    · exact heq
    · have := beforeMonth_mono (isLeap y) hm1' hlt hm12
      omega
  subst hmonth
  exact ⟨rfl, rfl, by omega⟩

theorem ymd_ofYmd {y m d : Nat} {date : Date} (h : ofYmd y m d = some date) : date.ymd = (y, m, d) := by
  obtain ⟨hy, hm, hd⟩ := ofYmd_inj (ofYmd_ymd date) h
  exact Prod.ext hy (Prod.ext hm hd)

/-! ## Dates as text -/

def pad2 (n : Nat) : List Char := [Nat.digitChar (n / 10 % 10), Nat.digitChar (n % 10)]

def pad4 (n : Nat) : List Char :=
  [Nat.digitChar (n / 1000 % 10), Nat.digitChar (n / 100 % 10), Nat.digitChar (n / 10 % 10), Nat.digitChar (n % 10)]

def written (y m d : Nat) : List Char := pad4 y ++ '-' :: pad2 m ++ '-' :: pad2 d

def isoformat (date : Date) : List Char := written date.ymd.1 date.ymd.2.1 date.ymd.2.2

/-- `datetime.strptime(t, "%Y-%m-%d").date()` for a text of ten characters with its hyphens
    after the fourth and the seventh; `none` for a `ValueError`. `decimal` is `\d`, which the
    year and the second digit of a day in the tens or twenties may use; a day below ten may
    have a blank for its zero. -/
def strptimeYmd (decimal : Char → Option Nat) : List Char → Option Date
  | [y₁, y₂, y₃, y₄, '-', m₁, m₂, '-', d₁, d₂] => do
    let year ← [y₁, y₂, y₃, y₄].mapM decimal
    let month ← digits [m₁, m₂]
    let day ← if d₁ = ' ' then digits [d₂]
      else if d₁ = '1' ∨ d₁ = '2' then (decimal d₂).map fun n => 10 * (d₁.toNat - '0'.toNat) + n
      else digits [d₁, d₂]
    ofYmd (year.foldl (fun n d => 10 * n + d) 0) month day
  | _ => none

/-- `date + timedelta(days=n)`; `none` for an `OverflowError`. -/
def Date.addDays (date : Date) (n : Int) : Option Date := ofOrdinal (date.ordinal + n).toNat

theorem isoformat_ofYmd {y m d : Nat} {date : Date} (h : ofYmd y m d = some date) : isoformat date = written y m d := by
  rw [isoformat, ymd_ofYmd h]

theorem digitChar_spec {k : Nat} (h : k < 10) :
    (Nat.digitChar k).isDigit = true ∧ (Nat.digitChar k).toNat = 48 + k := by
  interval_cases k <;> exact ⟨rfl, rfl⟩

theorem digits_pad2 {n : Nat} (h : n ≤ 99) : digits (pad2 n) = some n := by
  obtain ⟨h1, v1⟩ := digitChar_spec (k := n / 10 % 10) (by omega)
  obtain ⟨h0, v0⟩ := digitChar_spec (k := n % 10) (by omega)
  simp only [digits, pad2, List.all_cons, List.all_nil, h1, h0, Bool.and_self, if_true, List.foldl_cons, List.foldl_nil,
    v1, v0, Char.reduceToNat, Option.some.injEq]
  omega

theorem digits_pad4 {n : Nat} (h : n ≤ 9999) : digits (pad4 n) = some n := by
  obtain ⟨h3, v3⟩ := digitChar_spec (k := n / 1000 % 10) (by omega)
  obtain ⟨h2, v2⟩ := digitChar_spec (k := n / 100 % 10) (by omega)
  obtain ⟨h1, v1⟩ := digitChar_spec (k := n / 10 % 10) (by omega)
  obtain ⟨h0, v0⟩ := digitChar_spec (k := n % 10) (by omega)
  simp only [digits, pad4, List.all_cons, List.all_nil, h3, h2, h1, h0, Bool.and_self, if_true, List.foldl_cons,
    List.foldl_nil, v3, v2, v1, v0, Char.reduceToNat, Option.some.injEq]
  omega

theorem ymd_range (date : Date) : date.ymd.1 ≤ 9999 ∧ date.ymd.2.1 ≤ 12 ∧ date.ymd.2.2 ≤ 31 := by
  obtain ⟨-, hy, hm1, hm12, -, hd, -⟩ := ofYmd_spec (ofYmd_ymd date)
  have hmonth : ∀ leap m, 1 ≤ m → m ≤ 12 → inMonth leap m ≤ 31 := by
    intro leap m h1 h12
    cases leap <;> interval_cases m <;> decide
  exact ⟨hy, hm12, le_trans hd (hmonth _ _ hm1 hm12)⟩

theorem digitChar_ne {k : Nat} (h : k < 10) {c : Char} (hc : c.isDigit = false) : Nat.digitChar k ≠ c := by
  intro heq
  rw [← heq, (digitChar_spec h).1] at hc
  cases hc

/-- What `isoformat` writes, `date.fromisoformat` reads. -/
theorem fromIsoFormat_isoformat (date : Date) : fromIsoFormat (isoformat date) = some date := by
  obtain ⟨hy, hm, hd⟩ := ymd_range date
  have hyear := digits_pad4 hy
  have hmonth := digits_pad2 (n := date.ymd.2.1) (by omega)
  have hday := digits_pad2 (n := date.ymd.2.2) (by omega)
  have hW : Nat.digitChar (date.ymd.2.1 / 10 % 10) ≠ 'W' := digitChar_ne (by omega) rfl
  simp only [isoformat, written, pad4, pad2, List.cons_append, List.nil_append] at hyear hmonth hday ⊢
  rw [fromIsoFormat.eq_5 _ _ _ _ _ _ _ _ fun h => absurd h hW, hyear, hmonth, hday]
  exact ofYmd_ymd date

/-- What `isoformat` writes, `strptime` reads. -/
theorem strptimeYmd_isoformat {decimal : Char → Option Nat}
    (hdecimal : ∀ c : Char, c.isDigit = true → decimal c = some (c.toNat - 48)) (date : Date) :
    strptimeYmd decimal (isoformat date) = some date := by
  obtain ⟨hy, hm, hd⟩ := ymd_range date
  have hmonth := digits_pad2 (n := date.ymd.2.1) (by omega)
  have hday := digits_pad2 (n := date.ymd.2.2) (by omega)
  have hdigit : ∀ k, k < 10 → decimal (Nat.digitChar k) = some k := by
    intro k hk
    rw [hdecimal _ (digitChar_spec hk).1, (digitChar_spec hk).2, Nat.add_sub_cancel_left]
  have hblank : Nat.digitChar (date.ymd.2.2 / 10 % 10) ≠ ' ' := digitChar_ne (by omega) rfl
  have hyear : [date.ymd.1 / 1000 % 10, date.ymd.1 / 100 % 10, date.ymd.1 / 10 % 10, date.ymd.1 % 10].foldl
      (fun n d => 10 * n + d) 0 = date.ymd.1 := by
    simp only [List.foldl_cons, List.foldl_nil]
    omega
  have htens : ∀ k : Nat, k < 10 → 10 * ((Nat.digitChar k).toNat - '0'.toNat) = 10 * k := by
    intro k hk
    have hzero : '0'.toNat = 48 := rfl
    rw [(digitChar_spec hk).2, hzero, Nat.add_sub_cancel_left]
  simp only [isoformat, written, pad4, pad2, List.cons_append, List.nil_append] at hmonth hday ⊢
  simp only [strptimeYmd, List.mapM_cons, List.mapM_nil, hdigit _ (show date.ymd.1 / 1000 % 10 < 10 by omega),
    hdigit _ (show date.ymd.1 / 100 % 10 < 10 by omega), hdigit _ (show date.ymd.1 / 10 % 10 < 10 by omega),
    hdigit _ (show date.ymd.1 % 10 < 10 by omega), hdigit _ (show date.ymd.2.2 % 10 < 10 by omega), hmonth, hday, hblank,
    if_false, bind, Option.bind_some, pure, Option.map_some, hyear, htens _ (show date.ymd.2.2 / 10 % 10 < 10 by omega)]
  have hsum : 10 * (date.ymd.2.2 / 10 % 10) + date.ymd.2.2 % 10 = date.ymd.2.2 := by omega
  rw [hsum, ite_self]
  exact ofYmd_ymd date

/-- `(a - b).days`. -/
def daysSince (a b : Date) : Int := (a.ordinal : Int) - b.ordinal

theorem addDays_ordinal {date next : Date} {n : Int} (h : (next.ordinal : Int) = date.ordinal + n) :
    date.addDays n = some next := by
  have htoNat : ((date.ordinal : Int) + n).toNat = next.ordinal := by omega
  rw [Date.addDays, htoNat, ofOrdinal, dif_pos ⟨next.pos, next.le⟩]

theorem isoformat_length (date : Date) : (isoformat date).length = 10 := rfl

/-- No character of a written date is whitespace or a hyphen out of its place. -/
theorem isoformat_chars (date : Date) : ∀ c ∈ isoformat date, c.isDigit = true ∨ c = '-' := by
  have hdigit : ∀ k : Nat, (Nat.digitChar (k % 10)).isDigit = true := fun k => (digitChar_spec (by omega)).1
  simp only [isoformat, written, pad4, pad2, List.cons_append, List.nil_append, List.forall_mem_cons, hdigit, true_or,
    or_true, true_and, List.not_mem_nil, false_implies, implies_true]

example : (fromIsoFormat "2026-09-08".toList).map (·.ordinal) = some 739867 := by decide +kernel

example : fromIsoFormat "2026-W37-2".toList = fromIsoFormat "2026-09-08".toList := by decide +kernel

end PyDate
