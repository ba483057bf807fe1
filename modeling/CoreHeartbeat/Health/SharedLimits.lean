/-
  CoreHeartbeat.Health.SharedLimits — the batched queries of one poller against what each fund's
  own rows say.

  The snapshots and the open failures of all funds of a poller come in one answer each, cut at a
  limit of so many rows a fund. The limit is shared: rows of one fund, and snapshots without a
  date, can fill it before another fund's row comes. The comment over the queries says that the
  semantics are those of one query a fund.

  An entry agrees with its fund's own rows when it shows the newest date there is and does not
  show zero failures where one is open (`Agrees`). The order of the rows inside a page is the
  database's wherever the query leaves it open, so "may stand before" (`mayPrecede`) is a matter
  of dates alone: without one, or not older. `Database.hiding` is the database that uses this
  freedom against one fund; it shows that the condition is needed.

  Proved:
  - `newest_on_page`, `failure_on_page`: with fewer rows before it than the limit, a fund's row
    is on the page.
  - `batched_agrees_iff`: every faithful answer gives every fund its newest date, and no fund a
    false zero of open failures, exactly when no fund's newest snapshot has as many others that
    may stand before it as the limit, and no fund with an open failure has as many of the
    others' beside it.
  - `a_busy_fund_hides_another`: a hundred snapshots of one fund, and the other shows no date.
-/

import CoreHeartbeat.Health.FundPollers
import Mathlib.Data.List.Dedup

namespace CoreHeartbeat.Health

open PyDate (Date)
open Fallible

variable {Id : Type} [DecidableEq Id]

/-! ## What a fund's own rows say -/

/-- `d` is the newest date of the fund's accepted current snapshots; `none` if it has none. -/
def NewestOf (db : Database Id) (id : Id) : Option Date → Prop
  | none => ∀ s ∈ db.snapshots, s.fundId = id → s.acceptedCurrent = true → parseDate s.asOfDate = none
  | some d =>
    (∃ s ∈ db.snapshots, s.fundId = id ∧ s.acceptedCurrent = true ∧ parseDate s.asOfDate = some d) ∧
      ∀ s ∈ db.snapshots, s.fundId = id → s.acceptedCurrent = true → ∀ d', parseDate s.asOfDate = some d' →
        d'.ordinal ≤ d.ordinal

/-- The entry of a fund of the index agrees with the fund's own rows. -/
def Agrees (db : Database Id) (fund : Id × String) (e : Entry) : Prop :=
  NewestOf db fund.1 e.lastAsOfDate ∧ (e.unresolvedFailures = 0 → NoUnresolvedFailure db fund.1)

def fundIds (db : Database Id) (p : Poller) : List Id :=
  ((db.funds.filter fun f => p.tickers.contains f.ticker).map (·.id)).dedup

def wantedSnapshots (db : Database Id) (p : Poller) : List (Snapshot Id) :=
  db.snapshots.filter fun s => (fundIds db p).contains s.fundId && s.acceptedCurrent

def wantedFailures (db : Database Id) (p : Poller) : List (Attempt Id) :=
  db.attempts.filter fun a => (fundIds db p).contains a.fundId && a.unresolvedFailure

/-- A snapshot that may come before the one of `id` from day `d`: without a date, or of
    another fund and not older. -/
def mayPrecede (id : Id) (d : Date) (s : Snapshot Id) : Bool :=
  match parseDate s.asOfDate with
  | none => true
  | some d' => s.fundId ≠ id && decide (d.ordinal ≤ d'.ordinal)

/-- The shared limits leave room for every fund of the poller. -/
structure WithinLimits (db : Database Id) (p : Poller) : Prop where
  snapshots : ∀ id ∈ fundIds db p, ∀ d, NewestOf db id (some d) →
    (wantedSnapshots db p).countP (mayPrecede id d) < 50 * (fundIds db p).length
  failures : ∀ id ∈ fundIds db p, ¬ NoUnresolvedFailure db id →
    (wantedFailures db p).countP (·.fundId ≠ id) < 500 * (fundIds db p).length

/-! ## The index -/

theorem byId_nodup (funds : List (Fund Id)) : ((byId funds).map (·.1)).Nodup := by
  have hfold : ∀ (funds : List (Fund Id)) (index : List (Id × String)), (index.map (·.1)).Nodup →
      ((funds.foldl (fun index f =>
        if index.any (·.1 = f.id) then index.map fun kv => if kv.1 = f.id then (f.id, f.ticker) else kv
        else index ++ [(f.id, f.ticker)]) index).map (·.1)).Nodup := by
    intro funds
    induction funds with
    | nil => intro index h; exact h
    | cons f funds ih =>
      intro index h
      rw [List.foldl_cons]
      apply ih
      by_cases hany : index.any (·.1 = f.id) = true
      · have hsame :
            (index.map fun kv => if kv.1 = f.id then (f.id, f.ticker) else kv).map (·.1) = index.map (·.1) := by
          rw [List.map_map]
          refine List.map_congr_left fun kv _ => ?_
          simp only [Function.comp_apply]
          split <;> simp_all
        rw [if_pos hany, hsame]
        exact h
      · rw [if_neg hany, List.map_append, List.nodup_append]
        refine ⟨h, List.nodup_singleton _, ?_⟩
        intro id hid id' hid' heq
        obtain ⟨kv, hkv, rfl⟩ := List.mem_map.mp hid
        rw [List.map_singleton, List.mem_singleton] at hid'
        rw [hid'] at heq
        exact hany (List.any_eq_true.mpr ⟨kv, hkv, decide_eq_true heq⟩)
  exact hfold funds [] List.nodup_nil

/-- Whatever order the fund rows come in, the index has the poller's funds. -/
theorem index_ids {db : Database Id} {p : Poller} {found : List (Fund Id)}
    (h : found.Perm (db.funds.filter fun f => p.tickers.contains f.ticker)) :
    ((byId found).map (·.1)).Perm (fundIds db p) := by
  have hnodup : (fundIds db p).Nodup := List.nodup_dedup _
  rw [List.perm_ext_iff_of_nodup (byId_nodup found) hnodup]
  intro id
  rw [mem_byId, fundIds, List.mem_dedup, List.mem_map]
  constructor
  · rintro ⟨f, hf, rfl⟩; exact ⟨f, h.mem_iff.mp hf, rfl⟩
  · rintro ⟨f, hf, rfl⟩; exact ⟨f, h.mem_iff.mpr hf, rfl⟩

theorem index_length {db : Database Id} {p : Poller} {found : List (Fund Id)}
    (h : found.Perm (db.funds.filter fun f => p.tickers.contains f.ticker)) :
    (byId found).length = (fundIds db p).length := by
  rw [← (index_ids h).length_eq, List.length_map]

/-! ## The first rows of an ordered answer -/

/-- Of rows in descending order of a rank, as many as are above a bound come first. -/
theorem take_above {ρ : Type} {rank : ρ → Nat} {bound : Nat} {rows : List ρ}
    (hsorted : rows.Pairwise fun r r' => rank r' ≤ rank r) {n : Nat} (hn : n ≤ rows.countP fun r => bound < rank r) :
    ∀ r ∈ rows.take n, bound < rank r := by
  induction rows generalizing n with
  | nil => simp
  | cons r rows ih =>
    cases n with
    | zero => simp
    | succ n =>
      obtain ⟨hfirst, hrest⟩ := List.pairwise_cons.mp hsorted
      have hr : bound < rank r := by
        by_contra hle
        have hnone : (r :: rows).countP (fun r => bound < rank r) = 0 := by
          rw [List.countP_eq_zero]
          intro r' hr'
          rcases List.mem_cons.mp hr' with rfl | hr'
          · simpa using hle
          · have := hfirst r' hr'
            simp only [decide_eq_true_eq]
            omega
        omega
      rw [List.countP_cons_of_pos (by simpa using hr)] at hn
      intro r' hr'
      rw [List.take_succ_cons] at hr'
      rcases List.mem_cons.mp hr' with rfl | hr'
      · exact hr
      · exact ih hrest (by omega) r' hr'

/-- A row is among the first `n` when all rows before it satisfy `q` and fewer than `n` do. -/
theorem mem_take_of_few {ρ : Type} {q : ρ → Bool} {l m : List ρ} {r : ρ} {n : Nat} (hbefore : ∀ r' ∈ l, q r' = true)
    (hfew : (l ++ r :: m).countP q < n) : r ∈ (l ++ r :: m).take n := by
  have hcount : l.countP q = l.length := List.countP_eq_length.mpr hbefore
  have hlength : l.length < n := by
    rw [List.countP_append] at hfew
    omega
  obtain ⟨k, hk⟩ : ∃ k, n - l.length = k + 1 := ⟨n - l.length - 1, by omega⟩
  rw [List.take_append, hk, List.take_succ_cons]
  simp

/-! ## The newest date of a fund -/

/-- On rows that come newest first, a fund whose newest row is among them shows its date. -/
theorem latestAsOf_eq {page : List (Snapshot Id)} (hsorted : page.Pairwise NewestFirst) {id : Id} {d : Date}
    {s : Snapshot Id} (hs : s ∈ page) (hid : s.fundId = id) (hd : parseDate s.asOfDate = some d)
    (hnewest : ∀ s' ∈ page, s'.fundId = id → ∀ d', parseDate s'.asOfDate = some d' → d'.ordinal ≤ d.ordinal) :
    latestAsOf page id = some d := by
  obtain ⟨d', hlatest⟩ := latestAsOf_isSome hs hid hd
  obtain ⟨s', hs', hid', hd', hmax⟩ := latestAsOf_newest hsorted hlatest
  have hle := hnewest s' hs' hid' d' hd'
  have hge := hmax s hs hid d hd
  rw [hlatest, PyDate.Date.eq_of_le hle hge]

/-- With fewer rows before it than the limit, the newest row of a fund is on the page. -/
theorem newest_on_page {db : Database Id} {p : Poller} {id : Id} (hid : id ∈ fundIds db p) {d : Date}
    (hd : NewestOf db id (some d)) {rows : List (Snapshot Id)} (hrows : rows.Perm (wantedSnapshots db p))
    (hsorted : rows.Pairwise NewestFirst) {limit : Nat}
    (hfew : (wantedSnapshots db p).countP (mayPrecede id d) < limit) : latestAsOf (rows.take limit) id = some d := by
  have hwanted : ∀ s, s ∈ rows ↔ s ∈ db.snapshots ∧ s.fundId ∈ fundIds db p ∧ s.acceptedCurrent = true := by
    intro s
    rw [hrows.mem_iff, wantedSnapshots, List.mem_filter, Bool.and_eq_true, List.contains_iff_mem]
  obtain ⟨⟨s₀, hs₀, hid₀, hcurrent₀, hd₀⟩, hmax⟩ := hd
  have hmaxRow : ∀ s ∈ rows, s.fundId = id → ∀ d', parseDate s.asOfDate = some d' → d'.ordinal ≤ d.ordinal := by
    intro s hs hsid d' hd'
    obtain ⟨hdb, -, hcurrent⟩ := (hwanted s).mp hs
    exact hmax s hdb hsid hcurrent d' hd'
  -- the first row of the fund with that date
  let hit : Snapshot Id → Bool := fun s => s.fundId = id && parseDate s.asOfDate = some d
  obtain ⟨s, hfind⟩ : ∃ s, rows.find? hit = some s := by
    rw [← Option.isSome_iff_exists, List.find?_isSome]
    exact ⟨s₀, (hwanted s₀).mpr ⟨hs₀, hid₀ ▸ hid, hcurrent₀⟩, by simp [hit, hid₀, hd₀]⟩
  obtain ⟨hhit, l, m, hsplit, hbefore⟩ := List.find?_eq_some_iff_append.mp hfind
  simp only [hit, Bool.and_eq_true, decide_eq_true_eq] at hhit
  have hprecede : ∀ s' ∈ l, mayPrecede id d s' = true := by
    intro s' hs'
    have hin : s' ∈ rows := by rw [hsplit]; exact List.mem_append_left _ hs'
    have horder : NewestFirst s' s := by
      rw [hsplit] at hsorted
      exact (List.pairwise_append.mp hsorted).2.2 s' hs' s List.mem_cons_self
    unfold mayPrecede
    cases hd' : parseDate s'.asOfDate with
    | none => rfl
    | some d' =>
      have hge := horder d' d hd' hhit.2
      have hnot := hbefore s' hs'
      simp only [hit, Bool.not_eq_true', Bool.and_eq_false_iff, decide_eq_false_iff_not] at hnot
      have hother : s'.fundId ≠ id := by
        intro hsid
        have hle := hmaxRow s' hin hsid d' hd'
        rcases hnot with h | h
        · exact h hsid
        · exact h (by rw [hd', PyDate.Date.eq_of_le hle hge])
      simp [hother, hge]
  have hpage : s ∈ rows.take limit := by
    rw [← hrows.countP_eq, hsplit] at hfew
    rw [hsplit]
    exact mem_take_of_few hprecede hfew
  exact latestAsOf_eq (hsorted.sublist (List.take_sublist _ _)) hpage hhit.1 hhit.2
    fun s' hs' => hmaxRow s' (List.mem_of_mem_take hs')

/-- Fewer rows of the others than the limit leave room for one of the fund's. -/
theorem failure_on_page {rows : List (Attempt Id)} {id : Id} {a : Attempt Id} (ha : a ∈ rows) (hid : a.fundId = id)
    {limit : Nat} (hfew : rows.countP (·.fundId ≠ id) < limit) : (rows.take limit).countP (·.fundId = id) ≠ 0 := by
  obtain ⟨a', hfind⟩ : ∃ a', rows.find? (·.fundId = id) = some a' := by
    rw [← Option.isSome_iff_exists, List.find?_isSome]
    exact ⟨a, ha, by simpa using hid⟩
  obtain ⟨hhit, l, m, hsplit, hbefore⟩ := List.find?_eq_some_iff_append.mp hfind
  have hpage : a' ∈ rows.take limit := by
    rw [hsplit] at hfew ⊢
    refine mem_take_of_few (fun r hr => ?_) hfew
    simpa using hbefore r hr
  rw [← Nat.pos_iff_ne_zero, List.countP_pos_iff]
  exact ⟨a', hpage, hhit⟩

/-! ## The report -/

def EntriesAgree (db : Database Id) (found : List (Fund Id)) (report : Report) : Prop :=
  List.Forall₂ (Agrees db) ((byId found).insertionSort fun x y => x.2 ≤ y.2) report.funds

theorem forall₂_zipWith {α β γ : Type} {f : α → β → γ} {R : α → γ → Prop} {Q : α → Prop} {l : List α} {rs : List β}
    (hlen : rs.length = l.length) (hQ : ∀ a b, R a (f a b) ↔ Q a) :
    List.Forall₂ R l (l.zipWith f rs) ↔ ∀ a ∈ l, Q a := by
  induction l generalizing rs with
  | nil => simp
  | cons a l ih =>
    cases rs with
    | nil => simp at hlen
    | cons r rs =>
      simp only [List.zipWith_cons_cons, List.forall₂_cons, hQ, ih (Nat.succ.inj hlen), List.forall_mem_cons]

/-- The entries of a report, as the answers of its queries make them. -/
theorem report_entries {rest : Rest Id} {today : Date} {p : Poller} {found : List (Fund Id)} {report : Report}
    (hfound : rest.funds p.tickers = .ok found) (h : pollerReport rest today p = .ok report) :
    (found = [] ∧ report.funds = []) ∨
    ∃ page unresolved review looked,
      rest.snapshots ((byId found).map (·.1)) (50 * (byId found).length) = .ok page ∧
      rest.unresolved ((byId found).map (·.1)) (500 * (byId found).length) = .ok unresolved ∧
      looked.length = ((byId found).insertionSort fun x y => x.2 ≤ y.2).length ∧
      report.funds = ((byId found).insertionSort fun x y => x.2 ≤ y.2).zipWith (entry p today page unresolved review)
        looked := by
  unfold pollerReport at h
  obtain ⟨found', hfound', h⟩ := bind_ok.mp h
  rw [hfound] at hfound'
  cases hfound'
  by_cases hempty : (byId found).isEmpty = true
  · rw [if_pos hempty] at h
    cases h
    exact Or.inl ⟨byId_isEmpty.mp hempty, rfl⟩
  · rw [if_neg hempty] at h
    simp only [bind_ok] at h
    obtain ⟨page, hpage, unresolved, hopen, review, hreview, looked, hlooked, heq⟩ := h
    cases heq
    exact Or.inr ⟨page, unresolved, review, looked, hpage, hopen, mapM_length hlooked, rfl⟩

/-- The entries agree when what the page and the failures say of every fund does. -/
theorem entriesAgree_iff {db : Database Id} {today : Date} {p : Poller} {found : List (Fund Id)}
    {page : List (Snapshot Id)} {unresolved review : List (Attempt Id)} {looked : List (Option String × Nat)}
    {report : Report} (hlen : looked.length = ((byId found).insertionSort fun x y => x.2 ≤ y.2).length)
    (hfunds : report.funds =
      ((byId found).insertionSort fun x y => x.2 ≤ y.2).zipWith (entry p today page unresolved review) looked) :
    EntriesAgree db found report ↔ ∀ f ∈ found, NewestOf db f.id (latestAsOf page f.id) ∧
      (unresolved.countP (·.fundId = f.id) = 0 → NoUnresolvedFailure db f.id) := by
  have hentry (fund : Id × String) (r : Option String × Nat) :
      Agrees db fund (entry p today page unresolved review fund r) ↔ NewestOf db fund.1 (latestAsOf page fund.1) ∧
        (unresolved.countP (·.fundId = fund.1) = 0 → NoUnresolvedFailure db fund.1) := Iff.rfl
  unfold EntriesAgree
  rw [hfunds, forall₂_zipWith hlen hentry]
  exact forall_ordered found fun id => NewestOf db id (latestAsOf page id) ∧
    (unresolved.countP (·.fundId = id) = 0 → NoUnresolvedFailure db id)

theorem latestAsOf_none {db : Database Id} {id : Id} (h : NewestOf db id none) {rows : List (Snapshot Id)}
    (hrows : ∀ s ∈ rows, s ∈ db.snapshots ∧ s.acceptedCurrent = true) : latestAsOf rows id = none := by
  rw [latestAsOf, List.findSome?_eq_none_iff]
  intro s hs
  obtain ⟨hs, hid⟩ := List.mem_filter.mp hs
  obtain ⟨hdb, hcurrent⟩ := hrows s hs
  exact h s hdb (of_decide_eq_true hid) hcurrent

/-- Every fund has a newest date or none. -/
theorem newestOf_exists (db : Database Id) (id : Id) : ∃ newest, NewestOf db id newest := by
  let dates := (db.snapshots.filter fun s => s.fundId = id && s.acceptedCurrent).filterMap fun s => parseDate s.asOfDate
  have hmem : ∀ d, d ∈ dates ↔
      ∃ s ∈ db.snapshots, s.fundId = id ∧ s.acceptedCurrent = true ∧ parseDate s.asOfDate = some d := by
    intro d
    simp only [dates, List.mem_filterMap, List.mem_filter, Bool.and_eq_true, decide_eq_true_eq, and_assoc]
  cases hmax : dates.argmax (·.ordinal) with
  | none =>
    refine ⟨none, fun s hs hid hcurrent => ?_⟩
    have hempty := List.argmax_eq_none.mp hmax
    cases hd : parseDate s.asOfDate with
    | none => rfl
    | some d =>
      have : d ∈ dates := (hmem d).mpr ⟨s, hs, hid, hcurrent, hd⟩
      rw [hempty] at this; cases this
  | some d =>
    refine ⟨some d, (hmem d).mp (List.argmax_mem hmax), fun s hs hid hcurrent d' hd' => ?_⟩
    exact List.le_of_mem_argmax ((hmem d').mpr ⟨s, hs, hid, hcurrent, hd'⟩) hmax

theorem wanted_of_index {db : Database Id} {p : Poller} {found : List (Fund Id)}
    (h : found.Perm (db.funds.filter fun f => p.tickers.contains f.ticker)) (id : Id) :
    ((byId found).map (·.1)).contains id = (fundIds db p).contains id := by
  rw [Bool.eq_iff_iff, List.contains_iff_mem, List.contains_iff_mem, (index_ids h).mem_iff]

theorem mem_fundIds {db : Database Id} {p : Poller} {found : List (Fund Id)}
    (h : found.Perm (db.funds.filter fun f => p.tickers.contains f.ticker)) {id : Id} :
    id ∈ fundIds db p ↔ ∃ f ∈ found, f.id = id := by
  rw [← (index_ids h).mem_iff, mem_byId]

/-- Within the limits every faithful answer agrees. -/
theorem agrees_within {db : Database Id} {p : Poller} (hlimits : WithinLimits db p) {rest : Rest Id}
    (hf : Faithful db rest) {today : Date} {found : List (Fund Id)} {report : Report}
    (hfound : rest.funds p.tickers = .ok found) (h : pollerReport rest today p = .ok report) :
    EntriesAgree db found report := by
  have hperm := hf.funds _ _ hfound
  rcases report_entries hfound h with ⟨rfl, hnone⟩ | ⟨page, unresolved, review, looked, hpage, hopen, hlen, hfunds⟩
  · unfold EntriesAgree
    rw [hnone]
    exact List.Forall₂.nil
  rw [entriesAgree_iff hlen hfunds]
  obtain ⟨rows, hrows, hsorted, rfl⟩ := hf.snapshots _ _ page hpage
  obtain ⟨failures, hfailures, -, rfl⟩ := hf.unresolved _ _ unresolved hopen
  simp only [wanted_of_index hperm] at hrows hfailures
  rw [index_length hperm]
  intro f hf'
  have hid : f.id ∈ fundIds db p := (mem_fundIds hperm).mpr ⟨f, hf', rfl⟩
  constructor
  · obtain ⟨newest, hnewest⟩ := newestOf_exists db f.id
    cases newest with
    | none =>
      have hwanted : ∀ s ∈ rows.take (50 * (fundIds db p).length), s ∈ db.snapshots ∧ s.acceptedCurrent = true := by
        intro s hs
        have hin := hrows.mem_iff.mp (List.mem_of_mem_take hs)
        rw [List.mem_filter, Bool.and_eq_true] at hin
        exact ⟨hin.1, hin.2.2⟩
      rw [latestAsOf_none hnewest hwanted]
      exact hnewest
    | some d =>
      rw [newest_on_page hid hnewest hrows hsorted (hlimits.snapshots f.id hid d hnewest)]
      exact hnewest
  · intro hzero
    by_contra hopen'
    have hfew := hlimits.failures f.id hid hopen'
    unfold NoUnresolvedFailure at hopen'
    push Not at hopen'
    obtain ⟨a, ha, haid, hafail⟩ := hopen'
    have hin : a ∈ failures := by
      rw [hfailures.mem_iff, List.mem_filter, Bool.and_eq_true, List.contains_iff_mem, haid]
      exact ⟨ha, hid, by simpa using hafail⟩
    have hfew' : failures.countP (·.fundId ≠ f.id) < 500 * (fundIds db p).length := by
      rwa [hfailures.countP_eq]
    exact failure_on_page hin haid hfew' hzero

/-! ## Answers that hide one fund -/

/-- The place of a snapshot when rows of `id` come last among those of their day. -/
def lateRank (id : Id) (s : Snapshot Id) : Nat :=
  match parseDate s.asOfDate with
  | none => 2 * PyDate.maxOrdinal + 2
  | some d => 2 * d.ordinal + if s.fundId = id then 0 else 1

/-- A database that puts the rows of `id` as late as the order allows. -/
def Database.hiding (db : Database Id) (id : Id) : Rest Id where
  funds tickers := .ok (db.funds.filter fun f => tickers.contains f.ticker)
  snapshots ids limit := .ok (((db.snapshots.filter fun s => ids.contains s.fundId && s.acceptedCurrent).insertionSort
    fun s s' => lateRank id s' ≤ lateRank id s).take limit)
  unresolved ids limit :=
    let rows := db.attempts.filter fun a => ids.contains a.fundId && a.unresolvedFailure
    .ok ((rows.filter (·.fundId ≠ id) ++ rows.filter (·.fundId = id)).take limit)
  review _ _ := .ok []
  successes _ := .ok []
  recent _ := .ok []
  isoTime := some

theorem lateRank_sorted (id : Id) (rows : List (Snapshot Id)) :
    (rows.insertionSort fun s s' => lateRank id s' ≤ lateRank id s).Pairwise fun s s' => lateRank id s' ≤ lateRank id s := by
  have : Std.Total fun s s' : Snapshot Id => lateRank id s' ≤ lateRank id s := ⟨fun s s' => le_total _ _⟩
  have : IsTrans (Snapshot Id) fun s s' => lateRank id s' ≤ lateRank id s := ⟨fun _ _ _ h h' => h'.trans h⟩
  exact List.pairwise_insertionSort (fun s s' : Snapshot Id => lateRank id s' ≤ lateRank id s) _

theorem hiding_faithful (db : Database Id) (id : Id) : Faithful db (db.hiding id) where
  funds := fun tickers rows h => by
    obtain rfl := Except.ok.inj h
    exact List.Perm.refl _
  snapshots := fun ids limit rows h => by
    obtain rfl := Except.ok.inj h
    refine ⟨_, List.perm_insertionSort _ _, (lateRank_sorted id _).imp fun {s s'} h d d' hd hd' => ?_, rfl⟩
    simp only [lateRank, hd, hd'] at h
    split at h <;> split at h <;> omega
  unresolved := fun ids limit rows h => by
    obtain rfl := Except.ok.inj h
    refine ⟨_, ?_, List.pairwise_of_forall (fun _ _ => trivial), rfl⟩
    have hparts := List.filter_append_perm (fun a : Attempt Id => decide (a.fundId ≠ id))
      (db.attempts.filter fun a => ids.contains a.fundId && a.unresolvedFailure)
    simpa using hparts

theorem hiding_report (db : Database Id) (id : Id) (today : Date) (p : Poller) :
    ∃ report, pollerReport (db.hiding id) today p = .ok report := by
  unfold pollerReport
  refine bind_returns rfl ?_
  dsimp only
  split
  · exact ⟨_, rfl⟩
  · refine bind_returns rfl (bind_returns rfl (bind_returns rfl ?_))
    obtain ⟨looked, hlooked⟩ := mapM_comesThrough (f := fun fund => perFund (db.hiding id) fund.1)
      (l := (byId (db.funds.filter fun f => p.tickers.contains f.ticker)).insertionSort fun x y => x.2 ≤ y.2)
      |>.mpr fun fund _ => ⟨(none, 0), rfl⟩
    exact bind_returns hlooked ⟨_, rfl⟩

/-- A snapshot that may precede the newest of `id` does, and no other. -/
theorem mayPrecede_iff_rank {id : Id} {d : Date} {s : Snapshot Id}
    (hmax : s.fundId = id → ∀ d', parseDate s.asOfDate = some d' → d'.ordinal ≤ d.ordinal) :
    mayPrecede id d s = decide (2 * d.ordinal < lateRank id s) := by
  have hle := d.le
  unfold mayPrecede lateRank
  cases hd' : parseDate s.asOfDate with
  | none =>
    rw [eq_comm, decide_eq_true_eq]
    show 2 * d.ordinal < 2 * PyDate.maxOrdinal + 2
    omega
  | some d' =>
    by_cases hid : s.fundId = id
    · have := hmax hid d' hd'
      simp [hid]
      omega
    · simp only [ne_eq, hid, not_false_eq_true, decide_true, Bool.true_and, if_false, decide_eq_decide]
      omega

/-- When the rows that may precede fill the page, the fund shows no date. -/
theorem hidden_date {db : Database Id} {p : Poller} {id : Id} {d : Date} (hd : NewestOf db id (some d)) {limit : Nat}
    (hfull : limit ≤ (wantedSnapshots db p).countP (mayPrecede id d)) :
    latestAsOf (((wantedSnapshots db p).insertionSort fun s s' => lateRank id s' ≤ lateRank id s).take limit) id = none := by
  have hmax : ∀ s ∈ wantedSnapshots db p, s.fundId = id → ∀ d', parseDate s.asOfDate = some d' →
      d'.ordinal ≤ d.ordinal := by
    intro s hs
    rw [wantedSnapshots, List.mem_filter, Bool.and_eq_true] at hs
    exact fun hid => hd.2 s hs.1 hid hs.2.2
  have hcount : (wantedSnapshots db p).countP (mayPrecede id d) =
      (wantedSnapshots db p).countP fun s => 2 * d.ordinal < lateRank id s :=
    List.countP_congr fun s hs => by rw [mayPrecede_iff_rank (hmax s hs)]
  have hperm := List.perm_insertionSort (fun s s' : Snapshot Id => lateRank id s' ≤ lateRank id s) (wantedSnapshots db p)
  rw [hcount, ← hperm.countP_eq] at hfull
  have habove := take_above (lateRank_sorted id (wantedSnapshots db p)) hfull
  rw [latestAsOf, List.findSome?_eq_none_iff]
  intro s hs
  obtain ⟨hs, hid⟩ := List.mem_filter.mp hs
  have hid := of_decide_eq_true hid
  have hrank := habove s hs
  have hin := hperm.mem_iff.mp (List.mem_of_mem_take hs)
  cases hd' : parseDate s.asOfDate with
  | none => rfl
  | some d' =>
    have hle := hmax s hin hid d' hd'
    simp only [lateRank, hd', hid, if_true] at hrank
    omega

/-! ## The exact limits -/

/-- For every content of the database and every poller: each faithful answer to the batched
    queries makes every entry agree with its fund's own rows exactly when the shared limits
    leave room for every fund. -/
theorem batched_agrees_iff (db : Database Id) (today : Date) (p : Poller) :
    (∀ rest found report, Faithful db rest → rest.funds p.tickers = .ok found →
      pollerReport rest today p = .ok report → EntriesAgree db found report) ↔ WithinLimits db p := by
  constructor
  · intro hagree
    -- what the answers that hide `id` make of its fund
    have hidden : ∀ id ∈ fundIds db p,
        NewestOf db id (latestAsOf (((wantedSnapshots db p).insertionSort
          fun s s' => lateRank id s' ≤ lateRank id s).take (50 * (fundIds db p).length)) id) ∧
        ((((wantedFailures db p).filter (·.fundId ≠ id) ++ (wantedFailures db p).filter (·.fundId = id)).take
          (500 * (fundIds db p).length)).countP (·.fundId = id) = 0 → NoUnresolvedFailure db id) := by
      intro id hid
      obtain ⟨report, hreport⟩ := hiding_report db id today p
      have hagrees := hagree _ _ report (hiding_faithful db id) rfl hreport
      have hperm := List.Perm.refl (db.funds.filter fun f => p.tickers.contains f.ticker)
      obtain ⟨f, hf, rfl⟩ := (mem_fundIds hperm).mp hid
      rcases report_entries rfl hreport with ⟨hnone, -⟩ | ⟨page, unresolved, review, looked, hpage, hopen, hlen, hfunds⟩
      · rw [hnone] at hf; cases hf
      · have hboth := (entriesAgree_iff hlen hfunds).mp hagrees f hf
        obtain rfl := Except.ok.inj hpage
        obtain rfl := Except.ok.inj hopen
        simp only [wanted_of_index hperm, index_length hperm] at hboth
        exact hboth
    constructor
    · intro id hid d hd
      by_contra hfull
      have hdate := (hidden id hid).1
      rw [hidden_date hd (Nat.le_of_not_lt hfull)] at hdate
      obtain ⟨⟨s, hs, hsid, hcurrent, hsd⟩, -⟩ := hd
      rw [hdate s hs hsid hcurrent] at hsd
      cases hsd
    · intro id hid hopen
      by_contra hfull
      refine hopen ((hidden id hid).2 ?_)
      have hothers : 500 * (fundIds db p).length ≤ ((wantedFailures db p).filter (·.fundId ≠ id)).length := by
        rw [← List.countP_eq_length_filter]
        exact Nat.le_of_not_lt hfull
      rw [List.take_append_of_le_length hothers, List.countP_eq_zero]
      intro a ha
      have := (List.mem_filter.mp (List.mem_of_mem_take ha)).2
      simpa using this
  · intro hlimits rest found report hf hfound hreport
    exact agrees_within hlimits hf hfound hreport

/-- A snapshot of every day from June to the 8th of September for one fund, and one from
    January for another. -/
def busyFund : Database Nat where
  funds := [⟨1, "JAGG"⟩, ⟨2, "JBND"⟩]
  snapshots := ((List.range 100).map fun i =>
    ⟨2, (PyDate.ofOrdinal (739867 - i)).map fun d => String.ofList (PyDate.isoformat d), some true, some "accepted"⟩) ++
      [⟨1, some "2026-01-05", some true, some "accepted"⟩]
  attempts := []

def jpPoller : Poller := ⟨"jp", jpTickers, 4⟩

/-- The hundred rows of the two funds' shared page are all of one fund; the other shows no
    date at all. -/
theorem a_busy_fund_hides_another :
    ¬ ∀ rest found report, Faithful busyFund rest → rest.funds jpPoller.tickers = .ok found →
      pollerReport rest laborDayTuesday jpPoller = .ok report → EntriesAgree busyFund found report := by
  intro h
  have hdates : (pollerReport busyFund.answering laborDayTuesday jpPoller).toOption.map
      (fun r => r.funds.map fun e => e.lastAsOfDate.isSome) = some [false, true] := by
    decide +kernel
  cases hreport : pollerReport busyFund.answering laborDayTuesday jpPoller with
  | error e => rw [hreport] at hdates; cases hdates
  | ok report =>
    rw [hreport] at hdates
    have hagree := h _ busyFund.funds report (answering_faithful busyFund) rfl hreport
    have hindex : ((byId busyFund.funds).insertionSort fun x y => x.2 ≤ y.2) = [(1, "JAGG"), (2, "JBND")] := by
      decide +kernel
    unfold EntriesAgree at hagree
    rw [hindex] at hagree
    obtain ⟨e, entries, ⟨hnewest, -⟩, -, hfunds⟩ := List.forall₂_cons_left_iff.mp hagree
    have hnone : e.lastAsOfDate.isSome = false := by
      have hdates : report.funds.map (fun e => e.lastAsOfDate.isSome) = [false, true] := Option.some.inj hdates
      rw [hfunds, List.map_cons] at hdates
      exact (List.cons.inj hdates).1
    rw [Option.isSome_eq_false_iff, Option.isNone_iff_eq_none] at hnone
    rw [hnone] at hnewest
    have hmissing := hnewest ⟨1, some "2026-01-05", some true, some "accepted"⟩ (by simp [busyFund]) rfl rfl
    revert hmissing
    decide +kernel

end CoreHeartbeat.Health
