/-
  CoreHeartbeat.Health.FundPollers — the fund-poller rollup (`services/fund_pollers.py`).

  A report is built for each poller from what PostgREST answers: the fund rows of the configured
  tickers, one page of snapshots, the open failures. The database answers each query faithfully
  (`Faithful`: the rows asked for, in the order asked for, up to the limit; ties in any order)
  or the query raises, and the poller is then unknown. What the lookups of single funds answer
  is free. A date is read as Python reads the first ten characters, and a time as
  `datetime.fromisoformat` does, which is a parameter.

  A fund is well when its newest accepted current snapshot is not older than the poller's
  tolerance and it has no unresolved failure. The rollup promises that of every configured
  ticker when it says healthy; the report, though, is built from the fund rows that are found
  (`byId`), and a ticker without a row has no entry that could be unwell.

  Proved:
  - `report_healthy_iff`: a poller is well exactly when its queries are answered and the funds
    it finds are well.
  - `no_unresolved_iff`: a limited page of failures is empty only when there are none.
  - `rollup_sound_iff`: what a healthy rollup promises for every configured ticker holds unless
    a ticker has no fund row while all the funds that are there look well.
  - `a_missing_ticker_reads_healthy`: fourteen of the seventeen funds are gone from the table,
    and the rollup reads healthy.
-/

import CoreHeartbeat.Lib.PyDate
import CoreHeartbeat.Lib.Fallible
import Mathlib.Data.List.Sort
import Mathlib.Data.List.MinMax

namespace CoreHeartbeat.Health

open PyDate (Date)
open Fallible

/-! ## The funds database -/

variable {Id : Type} [DecidableEq Id]

structure Fund (Id : Type) where
  id : Id
  ticker : String

structure Snapshot (Id : Type) where
  fundId : Id
  asOfDate : Option String
  isCurrent : Option Bool
  snapshotStatus : Option String

structure Attempt (Id : Type) where
  fundId : Id
  status : Option String
  isResolved : Option Bool
  attemptTime : Option String

structure Database (Id : Type) where
  funds : List (Fund Id)
  snapshots : List (Snapshot Id)
  attempts : List (Attempt Id)

def failureStatuses : List String :=
  ["partial", "download_failed", "download_invalid", "storage_failed", "parse_failed", "validation_failed",
    "database_failed"]

/-- `is_current=is.true`, `snapshot_status=eq.accepted`. -/
def Snapshot.acceptedCurrent (s : Snapshot Id) : Bool := s.isCurrent == some true && s.snapshotStatus == some "accepted"

/-- `is_resolved=is.false`, a failure status. -/
def Attempt.unresolvedFailure (a : Attempt Id) : Bool :=
  a.isResolved == some false && a.status.any (failureStatuses.contains ·)

def parseDate (value : Option String) : Option Date :=
  match value.filter (· ≠ "") with
  | none => none
  | some text => PyDate.fromIsoFormat (text.toList.take 10)

/-! ## What PostgREST answers -/

abbrev Raised := String

/-- The queries of `_poller_report`, and the times that Python reads. -/
structure Rest (Id : Type) where
  funds : (tickers : List String) → Except Raised (List (Fund Id))
  snapshots : (ids : List Id) → (limit : Nat) → Except Raised (List (Snapshot Id))
  unresolved : (ids : List Id) → (limit : Nat) → Except Raised (List (Attempt Id))
  review : (ids : List Id) → (limit : Nat) → Except Raised (List (Attempt Id))
  /-- The last success, and the last 50 attempts. -/
  successes : Id → Except Raised (List (Attempt Id))
  recent : Id → Except Raised (List (Attempt Id))
  /-- `datetime.fromisoformat(v).isoformat()` of a text that it reads. -/
  isoTime : String → Option String

/-- The rows that are asked for, in the order asked for, up to the limit. -/
def Answers {ρ : Type} (wanted : List ρ) (order : ρ → ρ → Prop) (limit : Nat) (answer : List ρ) : Prop :=
  ∃ rows : List ρ, rows.Perm wanted ∧ rows.Pairwise order ∧ answer = rows.take limit

/-- `as_of_date.desc`: what is a date comes newest first. -/
def NewestFirst (s s' : Snapshot Id) : Prop :=
  ∀ d d', parseDate s.asOfDate = some d → parseDate s'.asOfDate = some d' → d'.ordinal ≤ d.ordinal

structure Faithful (db : Database Id) (rest : Rest Id) : Prop where
  funds : ∀ tickers rows, rest.funds tickers = .ok rows → rows.Perm (db.funds.filter fun f => tickers.contains f.ticker)
  snapshots : ∀ ids limit rows, rest.snapshots ids limit = .ok rows →
    Answers (db.snapshots.filter fun s => ids.contains s.fundId && s.acceptedCurrent) NewestFirst limit rows
  unresolved : ∀ ids limit rows, rest.unresolved ids limit = .ok rows →
    Answers (db.attempts.filter fun a => ids.contains a.fundId && a.unresolvedFailure) (fun _ _ => True) limit rows

/-! ## One poller's report -/

structure Entry where
  ticker : String
  lastAsOfDate : Option Date
  asOfAgeDays : Option Int
  staleData : Bool
  lastSuccessfulRun : Option String
  consecutiveFailures : Nat
  unresolvedFailures : Nat
  needsReviewRevisions : Nat
  healthy : Bool

structure Report where
  poller : String
  fundsTotal : Nat
  fundsHealthy : Nat
  fundsStale : Nat
  unresolvedFailures : Nat
  needsReviewRevisions : Nat
  maxConsecutiveFailures : Nat
  staleData : Bool
  healthy : Bool
  funds : List Entry

def emptyReport (poller : String) : Report := ⟨poller, 0, 0, 0, 0, 0, 0, false, false, []⟩

/-- `_consecutive_failures`; a status that is null has no prefix to ask for. -/
def consecutiveFailures : List (Option String) → Except Raised Nat
  | [] => .ok 0
  | none :: _ => .error "AttributeError"
  | some status :: statuses =>
    if "skipped".toList.isPrefixOf status.toList then consecutiveFailures statuses
    else if failureStatuses.contains status then (consecutiveFailures statuses).map (· + 1)
    else .ok 0

/-- `{f["id"]: f["ticker"] for f in funds}`, in insertion order. -/
def byId (funds : List (Fund Id)) : List (Id × String) :=
  funds.foldl (fun index f =>
    if index.any (·.1 = f.id) then index.map fun kv => if kv.1 = f.id then (f.id, f.ticker) else kv
    else index ++ [(f.id, f.ticker)]) []

/-- `latest_as_of.get(fund_id)`: the first of the fund's rows that has a date. -/
def latestAsOf (rows : List (Snapshot Id)) (id : Id) : Option Date :=
  (rows.filter (·.fundId = id)).findSome? fun s => parseDate s.asOfDate

structure Poller where
  name : String
  tickers : List String
  staleAfterDays : Nat

/-- `_parse_ts`, as its `isoformat`. -/
def parseTs (rest : Rest Id) (value : Option String) : Option String :=
  match value.filter (· ≠ "") with
  | none => none
  | some text => rest.isoTime (String.ofList (text.toList.flatMap fun c => if c = 'Z' then "+00:00".toList else [c]))

def perFund (rest : Rest Id) (id : Id) : Except Raised (Option String × Nat) := do
  let successes ← rest.successes id
  let recent ← rest.recent id
  let streak ← consecutiveFailures (recent.map (·.status))
  return (successes.head?.bind fun a => parseTs rest a.attemptTime, streak)

def entry (p : Poller) (today : Date) (snapshots : List (Snapshot Id)) (unresolved review : List (Attempt Id))
    (fund : Id × String) (looked : Option String × Nat) : Entry :=
  let lastAsOf := latestAsOf snapshots fund.1
  let age := lastAsOf.map (PyDate.daysSince today ·)
  let unresolvedCount := unresolved.countP (·.fundId = fund.1)
  let stale := match age with
    | none => true
    | some days => decide ((p.staleAfterDays : Int) < days)
  { ticker := fund.2, lastAsOfDate := lastAsOf, asOfAgeDays := age, staleData := stale, lastSuccessfulRun := looked.1,
    consecutiveFailures := looked.2, unresolvedFailures := unresolvedCount,
    needsReviewRevisions := review.countP (·.fundId = fund.1), healthy := !stale && unresolvedCount == 0 }

def reportOf (poller : String) (entries : List Entry) : Report where
  poller := poller
  fundsTotal := entries.length
  fundsHealthy := entries.countP (·.healthy)
  fundsStale := entries.countP (·.staleData)
  unresolvedFailures := (entries.map (·.unresolvedFailures)).sum
  needsReviewRevisions := (entries.map (·.needsReviewRevisions)).sum
  maxConsecutiveFailures := (entries.map (·.consecutiveFailures)).foldl max 0
  staleData := entries.any (·.staleData)
  healthy := !entries.isEmpty && entries.all (·.healthy)
  funds := entries

def pollerReport (rest : Rest Id) (today : Date) (p : Poller) : Except Raised Report := do
  let index := byId (← rest.funds p.tickers)
  if index.isEmpty then return emptyReport p.name
  let ids := index.map (·.1)
  let snapshots ← rest.snapshots ids (50 * index.length)
  let unresolved ← rest.unresolved ids (500 * index.length)
  let review ← rest.review ids (200 * index.length)
  let ordered := index.insertionSort fun x y => x.2 ≤ y.2
  let looked ← ordered.mapM fun fund => perFund rest fund.1
  return reportOf p.name (ordered.zipWith (entry p today snapshots unresolved review) looked)

/-! ## The rollup -/

def jpTickers : List String := ["JAGG", "JBND", "JCPB", "JCPI", "JFLX", "JMTG", "JPIE", "JPLD", "JSCP"]

def reganTickers : List String := ["MBSF", "MBSX"]

def allspringTickers : List String :=
  ["AS_CORE_BOND", "AS_CORE_PLUS", "AS_GOVT_SEC", "AS_INCOME_PLUS", "AS_SHORT_PLUS", "AS_ULTRA_SHORT"]

def pollers : List Poller := [⟨"jp", jpTickers, 4⟩, ⟨"allspring", allspringTickers, 70⟩, ⟨"regan", reganTickers, 6⟩]

structure Rollup where
  /-- A poller that could not be queried is unknown. -/
  reports : List (String × Except Raised Report)
  healthy : Bool
  degraded : Bool
  unknown : Bool

/-- `report[name].get("healthy")`. -/
def healthyOf : Except Raised Report → Option Bool
  | .ok r => some r.healthy
  | .error _ => none

def fundPollerHealth (rest : Rest Id) (today : Date) : Rollup :=
  let reports := pollers.map fun p => (p.name, pollerReport rest today p)
  let statuses := reports.map fun r => healthyOf r.2
  { reports, healthy := statuses.all (· == some true), degraded := statuses.any (· == some false),
    unknown := statuses.any (· == none) }

/-! ## What a healthy rollup promises -/

/-- The newest accepted current snapshot of the fund is not older than `days`. -/
def NewestWithin (db : Database Id) (today : Date) (days : Nat) (id : Id) : Prop :=
  ∃ s ∈ db.snapshots, s.fundId = id ∧ s.acceptedCurrent = true ∧ ∃ d, parseDate s.asOfDate = some d ∧
    (∀ s' ∈ db.snapshots, s'.fundId = id → s'.acceptedCurrent = true → ∀ d', parseDate s'.asOfDate = some d' →
      d'.ordinal ≤ d.ordinal) ∧
    PyDate.daysSince today d ≤ days

def NoUnresolvedFailure (db : Database Id) (id : Id) : Prop :=
  ∀ a ∈ db.attempts, a.fundId = id → a.unresolvedFailure = false

def Sound (db : Database Id) (today : Date) : Prop :=
  ∀ p ∈ pollers, ∀ ticker ∈ p.tickers, ∃ f ∈ db.funds, f.ticker = ticker ∧
    NewestWithin db today p.staleAfterDays f.id ∧ NoUnresolvedFailure db f.id

/-- Nothing of the poller's report raises. -/
structure Answered (rest : Rest Id) (p : Poller) (found : List (Fund Id)) (page : List (Snapshot Id)) : Prop where
  funds : rest.funds p.tickers = .ok found
  snapshots : rest.snapshots ((byId found).map (·.1)) (50 * (byId found).length) = .ok page
  unresolved : ∃ rows, rest.unresolved ((byId found).map (·.1)) (500 * (byId found).length) = .ok rows
  review : ∃ rows, rest.review ((byId found).map (·.1)) (200 * (byId found).length) = .ok rows
  lookedUp : ∀ f ∈ found, ∃ looked, perFund rest f.id = .ok looked

/-- A snapshot of the fund on the page that is not older than the poller's tolerance. -/
def FreshOn (page : List (Snapshot Id)) (today : Date) (p : Poller) (id : Id) : Prop :=
  ∃ s ∈ page, s.fundId = id ∧ ∃ d, parseDate s.asOfDate = some d ∧ PyDate.daysSince today d ≤ p.staleAfterDays

/-- The queries are answered, there is a fund, and every fund there is has a fresh snapshot on
    the page and no unresolved failure. -/
def PresentFundsWell (rest : Rest Id) (db : Database Id) (today : Date) (p : Poller) : Prop :=
  ∃ found page, Answered rest p found page ∧ found ≠ [] ∧
    ∀ f ∈ found, FreshOn page today p f.id ∧ NoUnresolvedFailure db f.id

/-! ## The grouping dictionaries -/

theorem mem_byId {funds : List (Fund Id)} {id : Id} : id ∈ (byId funds).map (·.1) ↔ ∃ f ∈ funds, f.id = id := by
  have hfold : ∀ (funds : List (Fund Id)) (index : List (Id × String)),
      id ∈ (funds.foldl (fun index f =>
        if index.any (·.1 = f.id) then index.map fun kv => if kv.1 = f.id then (f.id, f.ticker) else kv
        else index ++ [(f.id, f.ticker)]) index).map (·.1) ↔ id ∈ index.map (·.1) ∨ ∃ f ∈ funds, f.id = id := by
    intro funds
    induction funds with
    | nil => simp
    | cons f funds ih =>
      intro index
      rw [List.foldl_cons, ih]
      by_cases hany : index.any (·.1 = f.id) = true
      · have hsame :
            (index.map fun kv => if kv.1 = f.id then (f.id, f.ticker) else kv).map (·.1) = index.map (·.1) := by
          rw [List.map_map]
          refine List.map_congr_left fun kv _ => ?_
          simp only [Function.comp_apply]
          split <;> simp_all
        have hin : f.id ∈ index.map (·.1) := by
          obtain ⟨kv, hkv, heq⟩ := List.any_eq_true.mp hany
          exact List.mem_map.mpr ⟨kv, hkv, of_decide_eq_true heq⟩
        rw [if_pos hany, hsame]
        constructor
        · rintro (h | ⟨g, hg, rfl⟩)
          · exact Or.inl h
          · exact Or.inr ⟨g, List.mem_cons_of_mem _ hg, rfl⟩
        · rintro (h | ⟨g, hg, rfl⟩)
          · exact Or.inl h
          · rcases List.mem_cons.mp hg with rfl | hg
            · exact Or.inl hin
            · exact Or.inr ⟨g, hg, rfl⟩
      · rw [if_neg hany, List.map_append, List.mem_append, or_assoc]
        refine or_congr_right ?_
        simp only [List.map_cons, List.map_nil, List.mem_singleton, List.exists_mem_cons_iff]
        exact or_congr_left eq_comm
  simpa [byId] using hfold funds []

theorem byId_isEmpty {funds : List (Fund Id)} : (byId funds).isEmpty = true ↔ funds = [] := by
  constructor
  · intro h
    cases funds with
    | nil => rfl
    | cons f funds =>
      have hin : f.id ∈ (byId (f :: funds)).map (·.1) := mem_byId.mpr ⟨f, List.mem_cons_self, rfl⟩
      rw [List.isEmpty_iff.mp h] at hin
      cases hin
  · intro h
    rw [h]; rfl

/-- Of rows that come newest first, the first date of a fund is its newest. -/
theorem latestAsOf_newest {page : List (Snapshot Id)} (hsorted : page.Pairwise NewestFirst) {id : Id} {d : Date}
    (h : latestAsOf page id = some d) : ∃ s ∈ page, s.fundId = id ∧ parseDate s.asOfDate = some d ∧
      ∀ s' ∈ page, s'.fundId = id → ∀ d', parseDate s'.asOfDate = some d' → d'.ordinal ≤ d.ordinal := by
  unfold latestAsOf at h
  obtain ⟨l, s, m, hsplit, hd, hbefore⟩ := List.findSome?_eq_some_iff.mp h
  have hs : s ∈ page.filter (·.fundId = id) := by rw [hsplit]; simp
  obtain ⟨hpage, hid⟩ := List.mem_filter.mp hs
  refine ⟨s, hpage, by simpa using hid, hd, fun s' hs' hid' d' hd' => ?_⟩
  have hs'' : s' ∈ l ++ s :: m := hsplit ▸ List.mem_filter.mpr ⟨hs', by simpa using hid'⟩
  have hsorted' := hsorted.filter (fun s => decide (s.fundId = id))
  rw [hsplit] at hsorted'
  rcases List.mem_append.mp hs'' with hl | hm
  · rw [hbefore s' hl] at hd'; cases hd'
  · rcases List.mem_cons.mp hm with rfl | hm
    · rw [hd] at hd'; cases hd'; exact le_rfl
    · exact (List.pairwise_cons.mp (List.pairwise_append.mp hsorted').2.1).1 s' hm d d' hd hd'

theorem latestAsOf_isSome {page : List (Snapshot Id)} {id : Id} {s : Snapshot Id} {d : Date} (hs : s ∈ page)
    (hid : s.fundId = id) (hd : parseDate s.asOfDate = some d) : ∃ d', latestAsOf page id = some d' := by
  have h : (latestAsOf page id).isSome = true := by
    rw [latestAsOf, List.findSome?_isSome_iff]
    exact ⟨s, List.mem_filter.mpr ⟨hs, by simpa using hid⟩, by rw [hd]; rfl⟩
  exact Option.isSome_iff_exists.mp h

/-- An entry is well just when some row of the page is fresh and no open failure is counted. -/
theorem entry_healthy {p : Poller} {today : Date} {page : List (Snapshot Id)} (hsorted : page.Pairwise NewestFirst)
    {unresolved review : List (Attempt Id)} {fund : Id × String} {looked : Option String × Nat} :
    (entry p today page unresolved review fund looked).healthy = true ↔
      FreshOn page today p fund.1 ∧ ∀ a ∈ unresolved, a.fundId ≠ fund.1 := by
  have hcount : unresolved.countP (·.fundId = fund.1) = 0 ↔ ∀ a ∈ unresolved, a.fundId ≠ fund.1 := by
    simp [List.countP_eq_zero]
  simp only [entry, Bool.and_eq_true, beq_iff_eq, hcount]
  refine and_congr_left fun _ => ?_
  cases hlatest : latestAsOf page fund.1 with
  | none =>
    refine iff_of_false (by simp) ?_
    intro ⟨s, hs, hid, d, hd, _⟩
    obtain ⟨d', h⟩ := latestAsOf_isSome hs hid hd
    rw [hlatest] at h; cases h
  | some d =>
    obtain ⟨s, hs, hid, hd, hnewest⟩ := latestAsOf_newest hsorted hlatest
    simp only [Option.map_some, Bool.not_eq_true', decide_eq_false_iff_not, not_lt]
    constructor
    · intro h
      exact ⟨s, hs, hid, d, hd, h⟩
    · intro ⟨s', hs', hid', d', hd', h⟩
      have := hnewest s' hs' hid' d' hd'
      simp only [PyDate.daysSince] at h ⊢
      omega

/-! ## The report -/

theorem all_zipWith {α β γ : Type} {f : α → β → γ} {P : γ → Bool} {Q : α → Prop} {l : List α} {rs : List β}
    (hlen : rs.length = l.length) (hPQ : ∀ a b, P (f a b) = true ↔ Q a) :
    (l.zipWith f rs).all P = true ↔ ∀ a ∈ l, Q a := by
  induction l generalizing rs with
  | nil => simp
  | cons a l ih =>
    cases rs with
    | nil => simp at hlen
    | cons r rs =>
      simp only [List.zipWith_cons_cons, List.all_cons, Bool.and_eq_true, hPQ, ih (Nat.succ.inj hlen),
        List.forall_mem_cons]

theorem page_sorted {db : Database Id} {rest : Rest Id} (hf : Faithful db rest) {ids : List Id} {limit : Nat}
    {page : List (Snapshot Id)} (h : rest.snapshots ids limit = .ok page) : page.Pairwise NewestFirst := by
  obtain ⟨rows, -, hsorted, rfl⟩ := hf.snapshots ids limit page h
  exact hsorted.sublist (List.take_sublist limit rows)

/-- A limited answer is empty only when there is nothing to answer, so no open failure of a
    fund goes unseen by all funds together. -/
theorem no_unresolved_iff {db : Database Id} {rest : Rest Id} (hf : Faithful db rest) {found : List (Fund Id)}
    (hne : found ≠ []) {rows : List (Attempt Id)}
    (h : rest.unresolved ((byId found).map (·.1)) (500 * (byId found).length) = .ok rows) :
    (∀ f ∈ found, ∀ a ∈ rows, a.fundId ≠ f.id) ↔ ∀ f ∈ found, NoUnresolvedFailure db f.id := by
  obtain ⟨all, hperm, -, rfl⟩ := hf.unresolved _ _ rows h
  have hmem : ∀ a, a ∈ all ↔ a ∈ db.attempts ∧ (∃ f ∈ found, f.id = a.fundId) ∧ a.unresolvedFailure = true := by
    intro a
    rw [hperm.mem_iff, List.mem_filter, Bool.and_eq_true, List.contains_iff_mem, mem_byId]
  constructor
  · intro hnone f hfound a ha hid
    by_contra hopen
    have hall : a ∈ all := (hmem a).mpr ⟨ha, ⟨f, hfound, hid.symm⟩, by simpa using hopen⟩
    have hlen : 0 < 500 * (byId found).length := by
      have : byId found ≠ [] := fun h => hne (byId_isEmpty.mp (List.isEmpty_iff.mpr h))
      have := List.length_pos_iff.mpr this
      omega
    -- whatever comes first in the answer belongs to some fund
    obtain ⟨first, others, hsplit⟩ := List.exists_cons_of_ne_nil (List.ne_nil_of_mem hall)
    have hfirst : first ∈ all.take (500 * (byId found).length) := by
      obtain ⟨n, hn⟩ := Nat.exists_eq_succ_of_ne_zero hlen.ne'
      rw [hsplit, hn]
      exact List.mem_cons_self
    obtain ⟨-, ⟨g, hg, hgid⟩, -⟩ := (hmem first).mp (by rw [hsplit]; exact List.mem_cons_self)
    exact hnone g hg first hfirst hgid.symm
  · intro hwell f hfound a ha hid
    obtain ⟨hdb, -, hopen⟩ := (hmem a).mp (List.mem_of_mem_take ha)
    rw [hwell f hfound a hdb hid] at hopen
    cases hopen

theorem ordered_perm (found : List (Fund Id)) :
    ((byId found).insertionSort fun x y => x.2 ≤ y.2).Perm (byId found) := List.perm_insertionSort _ _

/-- The ordered index runs over the ids of the funds that were found. -/
theorem forall_ordered (found : List (Fund Id)) (Q : Id → Prop) :
    (∀ fund ∈ (byId found).insertionSort fun x y => x.2 ≤ y.2, Q fund.1) ↔ ∀ f ∈ found, Q f.id := by
  constructor
  · intro h f hfound
    obtain ⟨kv, hkv, heq⟩ := List.mem_map.mp (mem_byId.mpr ⟨f, hfound, rfl⟩)
    rw [← heq]
    exact h kv ((ordered_perm found).mem_iff.mpr hkv)
  · intro h kv hkv
    obtain ⟨f, hfound, heq⟩ := mem_byId.mp (List.mem_map_of_mem ((ordered_perm found).mem_iff.mp hkv))
    rw [← heq]
    exact h f hfound

/-- The entries are all well exactly when the funds that were found are. -/
theorem entries_healthy {db : Database Id} {rest : Rest Id} (hf : Faithful db rest) (today : Date) (p : Poller)
    {found : List (Fund Id)} (hne : found ≠ []) {page : List (Snapshot Id)} {unresolved : List (Attempt Id)}
    (review : List (Attempt Id))
    (hpage : rest.snapshots ((byId found).map (·.1)) (50 * (byId found).length) = .ok page)
    (hopen : rest.unresolved ((byId found).map (·.1)) (500 * (byId found).length) = .ok unresolved)
    {looked : List (Option String × Nat)} (hlen : looked.length = (byId found).length) :
    (reportOf p.name (((byId found).insertionSort fun x y => x.2 ≤ y.2).zipWith
      (entry p today page unresolved review) looked)).healthy = true ↔
      ∀ f ∈ found, FreshOn page today p f.id ∧ NoUnresolvedFailure db f.id := by
  have hindex : byId found ≠ [] := fun h => hne (byId_isEmpty.mp (List.isEmpty_iff.mpr h))
  have hentries : (((byId found).insertionSort fun x y => x.2 ≤ y.2).zipWith (entry p today page unresolved review)
      looked).isEmpty = false := by
    rw [List.isEmpty_eq_false_iff, ← List.length_pos_iff, List.length_zipWith, (ordered_perm found).length_eq, hlen,
      Nat.min_self]
    exact List.length_pos_iff.mpr hindex
  have hall : (((byId found).insertionSort fun x y => x.2 ≤ y.2).zipWith (entry p today page unresolved review)
      looked).all (·.healthy) = true ↔ ∀ f ∈ found, FreshOn page today p f.id ∧ ∀ a ∈ unresolved, a.fundId ≠ f.id := by
    rw [all_zipWith (Q := fun fund => FreshOn page today p fund.1 ∧ ∀ a ∈ unresolved, a.fundId ≠ fund.1)
      (by rw [hlen, (ordered_perm found).length_eq]) fun fund looked => entry_healthy (page_sorted hf hpage)]
    exact forall_ordered found fun id => FreshOn page today p id ∧ ∀ a ∈ unresolved, a.fundId ≠ id
  show (!List.isEmpty _ && List.all _ _) = true ↔ _
  rw [hentries, Bool.not_false, Bool.true_and, hall]
  simp only [forall_and]
  rw [no_unresolved_iff hf hne hopen]

/-- A poller is well exactly when its queries are answered and the funds it finds are well. -/
theorem report_healthy_iff {db : Database Id} {rest : Rest Id} (hf : Faithful db rest) (today : Date) (p : Poller) :
    healthyOf (pollerReport rest today p) = some true ↔ PresentFundsWell rest db today p := by
  have hok : healthyOf (pollerReport rest today p) = some true ↔
      ∃ r, pollerReport rest today p = .ok r ∧ r.healthy = true := by
    cases pollerReport rest today p <;> simp [healthyOf]
  rw [hok]
  unfold pollerReport PresentFundsWell
  have hlookup := fun found : List (Fund Id) => forall_ordered found fun id => ∃ looked, perFund rest id = .ok looked
  constructor
  · intro ⟨r, hr, hhealthy⟩
    obtain ⟨found, hfound, hr⟩ := bind_ok.mp hr
    by_cases hempty : (byId found).isEmpty = true
    · rw [if_pos hempty] at hr
      cases hr; cases hhealthy
    · rw [if_neg hempty] at hr
      simp only [bind_ok] at hr
      obtain ⟨page, hpage, unresolved, hopen, review, hreview, looked, hlooked, heq⟩ := hr
      cases heq
      have hne : found ≠ [] := fun h => hempty (byId_isEmpty.mpr h)
      have hlen : looked.length = (byId found).length := by
        rw [mapM_length hlooked, (ordered_perm found).length_eq]
      refine ⟨found, page, ⟨hfound, hpage, ⟨_, hopen⟩, ⟨_, hreview⟩, ?_⟩, hne,
        (entries_healthy hf today p hne review hpage hopen hlen).mp hhealthy⟩
      exact (hlookup found).mp (mapM_comesThrough.mp ⟨looked, hlooked⟩)
  · intro ⟨found, page, hans, hne, hwell⟩
    obtain ⟨hfound, hpage, ⟨unresolved, hopen⟩, ⟨review, hreview⟩, hper⟩ := hans
    obtain ⟨looked, hlooked⟩ := mapM_comesThrough.mpr ((hlookup found).mpr hper)
    have hlen := mapM_length hlooked
    rw [(ordered_perm found).length_eq] at hlen
    have hempty : ¬ (byId found).isEmpty = true := fun h => hne (byId_isEmpty.mp h)
    refine ⟨_, ?_, (entries_healthy hf today p hne review hpage hopen hlen).mpr hwell⟩
    rw [bind_ok]
    refine ⟨found, hfound, ?_⟩
    rw [if_neg hempty]
    simp only [bind_ok]
    exact ⟨page, hpage, unresolved, hopen, review, hreview, looked, hlooked, rfl⟩

theorem rollup_healthy_iff {db : Database Id} {rest : Rest Id} (hf : Faithful db rest) (today : Date) :
    (fundPollerHealth rest today).healthy = true ↔ ∀ p ∈ pollers, PresentFundsWell rest db today p := by
  unfold fundPollerHealth
  simp only [List.all_map, List.all_eq_true, Function.comp_apply, beq_iff_eq, report_healthy_iff hf]

/-! ## Soundness -/

/-- A fresh row on the page makes the newest snapshot of the fund fresh. -/
theorem newestWithin_of_fresh {db : Database Id} {rest : Rest Id} (hf : Faithful db rest) {ids : List Id} {limit : Nat}
    {page : List (Snapshot Id)} (hpage : rest.snapshots ids limit = .ok page) {today : Date} {p : Poller} {id : Id}
    (h : FreshOn page today p id) : NewestWithin db today p.staleAfterDays id := by
  obtain ⟨rows, hperm, hsorted, rfl⟩ := hf.snapshots ids limit page hpage
  obtain ⟨s, hs, hid, d, hd, hfresh⟩ := h
  have hwanted : ∀ s, s ∈ rows ↔ s ∈ db.snapshots ∧ s.fundId ∈ ids ∧ s.acceptedCurrent = true := by
    intro s
    rw [hperm.mem_iff, List.mem_filter, Bool.and_eq_true, List.contains_iff_mem]
  have hids : id ∈ ids := hid ▸ ((hwanted s).mp (List.mem_of_mem_take hs)).2.1
  obtain ⟨d₀, hlatest⟩ := latestAsOf_isSome (List.mem_of_mem_take hs) hid hd
  obtain ⟨s₀, hs₀, hid₀, hd₀, hnewest⟩ := latestAsOf_newest hsorted hlatest
  obtain ⟨hdb, -, hcurrent⟩ := (hwanted s₀).mp hs₀
  refine ⟨s₀, hdb, hid₀, hcurrent, d₀, hd₀, fun s' hs' hid' hcurrent' d' hd' => ?_, ?_⟩
  · exact hnewest s' ((hwanted s').mpr ⟨hs', hid' ▸ hids, hcurrent'⟩) hid' d' hd'
  · have := hnewest s (List.mem_of_mem_take hs) hid d hd
    simp only [PyDate.daysSince] at hfresh ⊢
    omega

def TickerMissing (db : Database Id) : Prop := ∃ p ∈ pollers, ∃ ticker ∈ p.tickers, ∀ f ∈ db.funds, f.ticker ≠ ticker

/-- For every content of the funds database and every day: what a healthy rollup promises
    holds if and only if it is not the case that a configured ticker has no fund row while
    every poller finds some fund and all it finds are well. -/
theorem rollup_sound_iff {db : Database Id} {rest : Rest Id} (hf : Faithful db rest) (today : Date) :
    ((fundPollerHealth rest today).healthy = true → Sound db today) ↔
      ¬ (TickerMissing db ∧ ∀ p ∈ pollers, PresentFundsWell rest db today p) := by
  rw [rollup_healthy_iff hf]
  constructor
  · intro hsound ⟨⟨p, hp, ticker, hticker, hmissing⟩, hwell⟩
    obtain ⟨f, hfund, heq, -⟩ := hsound hwell p hp ticker hticker
    exact hmissing f hfund heq
  · intro hnot hwell p hp ticker hticker
    obtain ⟨f, hfund, heq⟩ : ∃ f ∈ db.funds, f.ticker = ticker := by
      by_contra hno
      push Not at hno
      exact hnot ⟨⟨p, hp, ticker, hticker, hno⟩, hwell⟩
    obtain ⟨found, page, hans, -, hall⟩ := hwell p hp
    have hfound : f ∈ found := by
      rw [(hf.funds _ _ hans.funds).mem_iff, List.mem_filter, List.contains_iff_mem, heq]
      exact ⟨hfund, hticker⟩
    obtain ⟨hfresh, hopen⟩ := hall f hfound
    exact ⟨f, hfund, heq, newestWithin_of_fresh hf hans.snapshots hfresh, hopen⟩

/-! ## A database that answers -/

/-- The place of a snapshot in descending order: nulls and what is no date come first. -/
def rank (s : Snapshot Id) : Nat :=
  match parseDate s.asOfDate with
  | some d => d.ordinal
  | none => PyDate.maxOrdinal + 1

def Database.answering (db : Database Id) : Rest Id where
  funds tickers := .ok (db.funds.filter fun f => tickers.contains f.ticker)
  snapshots ids limit := .ok (((db.snapshots.filter fun s => ids.contains s.fundId && s.acceptedCurrent).insertionSort
    fun s s' => rank s' ≤ rank s).take limit)
  unresolved ids limit := .ok ((db.attempts.filter fun a => ids.contains a.fundId && a.unresolvedFailure).take limit)
  review ids limit := .ok ((db.attempts.filter fun a =>
    ids.contains a.fundId && a.status == some "material_revision_applied" && a.isResolved == some false).take limit)
  successes id := .ok ((db.attempts.filter fun a =>
    a.fundId = id && a.status.any (["success", "partial", "material_revision_applied"].contains ·)).take 1)
  recent id := .ok ((db.attempts.filter fun a => a.fundId = id).take 50)
  isoTime := some

theorem answering_faithful (db : Database Id) : Faithful db db.answering where
  funds := fun tickers rows h => by
    obtain rfl := Except.ok.inj h
    exact List.Perm.refl _
  snapshots := fun ids limit rows h => by
    obtain rfl := Except.ok.inj h
    refine ⟨_, List.perm_insertionSort _ _, ?_, rfl⟩
    have : Std.Total fun s s' : Snapshot Id => rank s' ≤ rank s := ⟨fun s s' => le_total _ _⟩
    have : IsTrans (Snapshot Id) fun s s' => rank s' ≤ rank s := ⟨fun _ _ _ h h' => h'.trans h⟩
    refine (List.pairwise_insertionSort (fun s s' : Snapshot Id => rank s' ≤ rank s) _).imp fun {s s'} h d d' hd hd' => ?_
    simpa only [rank, hd, hd'] using h
  unresolved := fun ids limit rows h => by
    obtain rfl := Except.ok.inj h
    exact ⟨_, List.Perm.refl _, List.pairwise_of_forall (fun _ _ => trivial), rfl⟩

/-- One fund for each poller, with a snapshot of the day. -/
def threeFunds : Database Nat where
  funds := [⟨1, "JAGG"⟩, ⟨2, "AS_CORE_BOND"⟩, ⟨3, "MBSF"⟩]
  snapshots := [1, 2, 3].map fun id => ⟨id, some "2026-09-08", some true, some "accepted"⟩
  attempts := []

/-- The 8th of September 2026. -/
def laborDayTuesday : Date := ⟨739867, by decide, by decide⟩

theorem rollup_sound_iff_three_funds :
    ((fundPollerHealth threeFunds.answering laborDayTuesday).healthy = true → Sound threeFunds laborDayTuesday) ↔
      ¬ (TickerMissing threeFunds ∧ ∀ p ∈ pollers, PresentFundsWell threeFunds.answering threeFunds laborDayTuesday p) :=
  rollup_sound_iff (answering_faithful threeFunds) laborDayTuesday

/-- With fourteen of the seventeen funds gone from the table the rollup reads healthy. -/
theorem a_missing_ticker_reads_healthy :
    Faithful threeFunds threeFunds.answering ∧
      (fundPollerHealth threeFunds.answering laborDayTuesday).healthy = true ∧ ¬ Sound threeFunds laborDayTuesday := by
  refine ⟨answering_faithful threeFunds, by decide +kernel, fun h => ?_⟩
  obtain ⟨f, hf, hticker, -⟩ := h ⟨"regan", reganTickers, 6⟩ (by simp [pollers]) "MBSX" (by simp [reganTickers])
  simp only [threeFunds, List.mem_cons, List.not_mem_nil, or_false] at hf
  rcases hf with rfl | rfl | rfl <;> exact absurd hticker (by decide)

end CoreHeartbeat.Health
