/-
  CoreHeartbeat.Plans.Fallback — the memory fallback against the table, over any number of keys.

  `due` says what a take is owed: the plan of the last request on its key, if that was a save
  and less than the time to live has passed since. It is a function of the history of requests
  alone, and knows nothing of rows, copies and expiries.

  Two ways of serving a history are compared with it: by memory alone, as when no table is
  configured, within one process; and by a table that answers every request, whichever process
  serves it. The two clocks run at one rate: each process's monotonic clock and the wall clock
  differ by a constant (`Clocks`), since a copy expires by the one and a row by the other.

  Both are simulations (`Machine.Simulates`): the store after a history has what `due` says,
  under an expiry on the clock that its backend reads (`InMemory`, `InTable`).

  Proved:
  - `memory_simulates`, `outs_table_due`: one request of each.
  - `takes_due`: for every history without an empty save, memory alone gives what is due within
    one process, and the table gives it to any process, whoever saved.
  - `an_empty_plan_tells_them_apart`: the hypothesis is needed, since the table's answer passes
    through `or None` and the memory's does not.
-/

import CoreHeartbeat.Plans.PendingPlans

namespace CoreHeartbeat.Plans

variable {π : Type}

structure Request (π : Type) where
  userId : String
  chatId : Option String
  time : Int
  op : Op π

def Request.key (r : Request π) : Key := Plans.key r.userId r.chatId

/-! ## What a take is owed -/

def lastOn (k : Key) (history : List (Request π)) : Option (Request π) :=
  (history.filter fun r => r.key == k).getLast?

/-- The plan of the last save on the key, if no take or clear followed it and it is still
    valid. -/
def due (ttl : Int) (history : List (Request π)) (r : Request π) : Option π :=
  match lastOn r.key history with
  | some ⟨_, _, saved, .save calls⟩ => if r.time - saved < ttl then some calls else none
  | _ => none

/-- What each take of a run is owed (`none` for the other requests). -/
def ledger (ttl : Int) (history : List (Request π)) (r : Request π) : List (Request π) × Option π :=
  (history ++ [r], match r.op with
    | .take => due ttl history r
    | _ => none)

theorem lastOn_snoc (k : Key) (history : List (Request π)) (r : Request π) :
    lastOn k (history ++ [r]) = if r.key = k then some r else lastOn k history := by
  unfold lastOn
  rw [List.filter_append]
  by_cases hk : r.key = k <;> simp [hk]

/-! ## The module on every key -/

/-- What the wall clock and the monotonic clock of each process show at time zero. -/
structure Clocks where
  wall : Int
  mono : Proc → Int

def Clocks.env (c : Clocks) (configured : Bool) (p : Proc) (time : Int) : Env where
  configured := configured
  reply := .ok
  mono := c.mono p + time
  wall := c.wall + time

def Answer.handedOut : Answer π → Option π
  | .taken calls _ => calls
  | .saved _ | .cleared => none

variable (ttl : Int) (empty : π → Bool) (clocks : Clocks)

def serve (configured : Bool) (db : Key → Slot π) (i : Proc × Request π) : (Key → Slot π) × Option π :=
  let r := (db i.2.key).step ttl empty ⟨i.1, clocks.env configured i.1 i.2.time, i.2.op⟩
  (Function.update db i.2.key r.1, r.2.handedOut)

def noSlots : Key → Slot π := fun _ => Slot.init

/-! ## Each backend holds the last save -/

/-- The entry that the last request on `k` leaves, with its expiry on a clock that shows
    `zero` at time zero. -/
def savedEntry (zero : Int) (k : Key) (history : List (Request π)) : Option (Entry π) :=
  match lastOn k history with
  | some ⟨_, _, time, .save calls⟩ => some ⟨calls, zero + time + ttl⟩
  | _ => none

def NonEmptySaves (history : List (Request π)) : Prop := ∀ r ∈ history, ∀ calls, r.op = .save calls → empty calls = false

/-- In memory only, process `p` holds the last save of every key. -/
def InMemory (p : Proc) (history : List (Request π)) (db : Key → Slot π) : Prop :=
  ∀ k, (db k).mem p = savedEntry ttl (clocks.mono p) k history

/-- The table holds the last save of every key. -/
def InTable (history : List (Request π)) (db : Key → Slot π) : Prop :=
  ∀ k, (db k).row = savedEntry ttl clocks.wall k history

theorem savedEntry_snoc (zero : Int) (k : Key) (history : List (Request π)) (r : Request π) :
    savedEntry ttl zero k (history ++ [r]) =
      if r.key = k then (match r.op with
        | .save calls => some ⟨calls, zero + r.time + ttl⟩
        | _ => none)
      else savedEntry ttl zero k history := by
  unfold savedEntry
  rw [lastOn_snoc]
  by_cases hk : r.key = k
  · rw [if_pos hk, if_pos hk]
    obtain ⟨u, c, t, op⟩ := r
    cases op <;> rfl
  · rw [if_neg hk, if_neg hk]

/-- A live entry is what is due. -/
theorem savedEntry_due (zero : Int) {history : List (Request π)} {r : Request π} {calls : π} :
    (∃ entry, savedEntry ttl zero r.key history = some entry ∧ zero + r.time < entry.expiresAt ∧ entry.calls = calls) ↔
      due ttl history r = some calls := by
  unfold savedEntry due
  rcases lastOn r.key history with _ | ⟨u, c, t, op⟩
  · simp
  · cases op with
    | save saved =>
      have hlive : zero + r.time < zero + t + ttl ↔ r.time - t < ttl := by omega
      by_cases h : r.time - t < ttl <;> simp [hlive, h]
    | take => simp
    | clear => simp

theorem mem_of_lastOn {k : Key} {history : List (Request π)} {r : Request π} (h : lastOn k history = some r) :
    r ∈ history :=
  (List.mem_filter.mp (List.mem_of_getLast? h)).1

theorem savedEntry_nonEmpty {zero : Int} {k : Key} {history : List (Request π)} (hne : NonEmptySaves empty history)
    {entry : Entry π} (h : savedEntry ttl zero k history = some entry) : empty entry.calls = false := by
  unfold savedEntry at h
  split at h
  · rename_i u c t calls hlast
    obtain rfl := Option.some.inj h
    exact hne _ (mem_of_lastOn hlast) calls rfl
  · cases h

/-! ## One request -/

theorem serve_inMemory {p : Proc} {history : List (Request π)} {db : Key → Slot π} (h : InMemory ttl clocks p history db)
    (r : Request π) :
    InMemory ttl clocks p (history ++ [r]) (serve ttl empty clocks false db (p, r)).1 := by
  intro k
  rw [savedEntry_snoc]
  by_cases hk : r.key = k
  · subst hk
    simp only [serve, Function.update_self, if_pos]
    cases hop : r.op with
    | save calls => simp [Slot.step, save_mem, Clocks.env]
    | take => simp [Slot.step, take_mem]
    | clear => simp [Slot.step, clear_mem]
  · rw [if_neg hk, ← h k]
    simp [serve, Function.update_of_ne (Ne.symm hk)]

theorem serve_inTable {history : List (Request π)} {db : Key → Slot π} (h : InTable ttl clocks history db) (p : Proc)
    (r : Request π) : InTable ttl clocks (history ++ [r]) (serve ttl empty clocks true db (p, r)).1 := by
  intro k
  have happlied : (clocks.env true p r.time).applied = true := rfl
  rw [savedEntry_snoc]
  by_cases hk : r.key = k
  · subst hk
    simp only [serve, Function.update_self, if_pos]
    cases hop : r.op with
    | save calls => simp [Slot.step, save_row, happlied]; rfl
    | take => simp [Slot.step, take_row, happlied]
    | clear => simp [Slot.step, clear_row, happlied]
  · rw [if_neg hk, ← h k]
    simp [serve, Function.update_of_ne (Ne.symm hk)]

theorem serve_memory_due {p : Proc} {history : List (Request π)} {db : Key → Slot π}
    (h : InMemory ttl clocks p history db) (r : Request π) :
    (serve ttl empty clocks false db (p, r)).2 = (ledger ttl history r).2 := by
  unfold ledger
  cases hop : r.op with
  | save calls => simp [serve, hop, Slot.step, Answer.handedOut]
  | clear => simp [serve, hop, Slot.step, Answer.handedOut]
  | take =>
    simp only [serve, hop, Slot.step, Answer.handedOut]
    ext calls
    rw [(take_unanswered empty (e := clocks.env false p r.time) rfl p (db r.key)).2 calls, h r.key, ← savedEntry_due]
    rfl

theorem serve_table_due {history : List (Request π)} (hne : NonEmptySaves empty history) {db : Key → Slot π}
    (h : InTable ttl clocks history db) (p : Proc) (r : Request π) :
    (serve ttl empty clocks true db (p, r)).2 = (ledger ttl history r).2 := by
  unfold ledger
  cases hop : r.op with
  | save calls => simp [serve, hop, Slot.step, Answer.handedOut]
  | clear => simp [serve, hop, Slot.step, Answer.handedOut]
  | take =>
    simp only [serve, hop, Slot.step, Answer.handedOut]
    ext calls
    rw [take_answered empty (e := clocks.env true p r.time) rfl p (db r.key) calls, h r.key,
      ← savedEntry_due ttl clocks.wall]
    have hlive : ∀ entry : Entry π, expired (clocks.env true p r.time) entry.expiresAt = false ↔
        clocks.wall + r.time < entry.expiresAt := fun entry => by
      rw [expired, decide_eq_false_iff_not, Int.not_le]
      rfl
    constructor
    · rintro ⟨entry, hentry, h, -, rfl⟩
      exact ⟨entry, hentry, (hlive entry).mp h, rfl⟩
    · rintro ⟨entry, hentry, h, rfl⟩
      exact ⟨entry, hentry, (hlive entry).mpr h, savedEntry_nonEmpty ttl empty hne hentry, rfl⟩

/-! ## Whole runs -/

/-- Within one process, memory alone hands out what is due. -/
theorem memory_simulates (p : Proc) :
    Machine.Simulates (ledger ttl) (serve ttl empty clocks false) (fun r => (p, r)) id (InMemory ttl clocks p) where
  out _ _ r h := serve_memory_due ttl empty clocks h r
  next _ _ r h := serve_inMemory ttl empty clocks h r

/-- The table hands out what is due, whichever process asks. -/
theorem outs_table_due (issued : List (Proc × Request π)) {history : List (Request π)} {db : Key → Slot π}
    (hne : NonEmptySaves empty (history ++ issued.map Prod.snd)) (h : InTable ttl clocks history db) :
    Machine.outs (serve ttl empty clocks true) db issued = Machine.outs (ledger ttl) history (issued.map Prod.snd) := by
  induction issued generalizing history db with
  | nil => rfl
  | cons i issued ih =>
    obtain ⟨p, r⟩ := i
    have hnow : NonEmptySaves empty history := fun r hr => hne r (List.mem_append_left _ hr)
    have hne' : NonEmptySaves empty ((history ++ [r]) ++ issued.map Prod.snd) := by simpa using hne
    have hrest := ih hne' (serve_inTable ttl empty clocks h p r)
    rw [Machine.outs_cons, List.map_cons, Machine.outs_cons, serve_table_due ttl empty clocks hnow h p r, hrest]
    rfl

/-- For every sequence of requests on any keys without an empty save: memory alone, in one
    process, and the table, whichever process serves each request, hand out exactly what is
    due. -/
theorem takes_due (p : Proc) (issued : List (Proc × Request π)) (hne : NonEmptySaves empty (issued.map Prod.snd)) :
    Machine.outs (serve ttl empty clocks false) noSlots (issued.map fun i => (p, i.2)) =
        Machine.outs (ledger ttl) [] (issued.map Prod.snd) ∧
      Machine.outs (serve ttl empty clocks true) noSlots issued = Machine.outs (ledger ttl) [] (issued.map Prod.snd) := by
  constructor
  · have hmemory := (memory_simulates ttl empty clocks p).outs (s := []) (t := noSlots) (fun _ => rfl) (issued.map Prod.snd)
    rw [List.map_map, List.map_id] at hmemory
    exact hmemory
  · exact outs_table_due ttl empty clocks issued hne fun _ => rfl

/-- Two chats, two processes: a plan that is taken in time, one that expires, and a second
    take of the first. -/
def twoChats : List (Proc × Request (List String)) :=
  [(0, ⟨"u", some "c", 0, .save ["a"]⟩), (1, ⟨"u", none, 10, .save ["b"]⟩), (1, ⟨"u", some "c", 20, .take⟩),
    (0, ⟨"u", some "c", 30, .take⟩), (0, ⟨"u", some "", 2000, .take⟩)]

theorem takes_due_two_chats :
    Machine.outs (serve 1800 List.isEmpty ⟨7, fun _ => 3⟩ false) noSlots (twoChats.map fun i => (0, i.2)) =
        [none, none, some ["a"], none, none] ∧
      Machine.outs (serve 1800 List.isEmpty ⟨7, fun _ => 3⟩ true) noSlots twoChats =
        [none, none, some ["a"], none, none] :=
  takes_due 1800 List.isEmpty ⟨7, fun _ => 3⟩ 0 twoChats (by simp [NonEmptySaves, twoChats])

/-- The hypothesis is needed: an empty plan comes back from memory and not from the table. -/
theorem an_empty_plan_tells_them_apart :
    Machine.outs (serve 1800 List.isEmpty ⟨0, fun _ => 0⟩ false) noSlots
        [(0, ⟨"u", none, 0, .save []⟩), (0, ⟨"u", none, 1, .take⟩)] = [none, some ([] : List String)] ∧
      Machine.outs (serve 1800 List.isEmpty ⟨0, fun _ => 0⟩ true) noSlots
        [(0, ⟨"u", none, 0, .save []⟩), (0, ⟨"u", none, 1, .take⟩)] = [none, (none : Option (List String))] := by
  decide

end CoreHeartbeat.Plans
