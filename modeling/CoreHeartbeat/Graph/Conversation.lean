/-
  CoreHeartbeat.Graph.Conversation — the turns of one conversation, one graph run each, over one
  plan store.

  The store is reliable and forgets nothing by time (`Reliable`): a save is what the next take
  returns, a take or a clear leaves nothing. The gateway's store is such a one while its
  requests are answered and its clock stays within the lifetime of a plan
  (`pendingPlans_reliable`). A wrapper records what each turn does to it (`logged`), so a
  release and a proposal are events of a turn. The routers, the tools and the models of every
  turn are arbitrary.

  `writeGate` is the only place that touches the store, and the first supervisor of a turn is
  the only one that can release, since an approval counts only while no tool has run. A turn is
  followed from its opening (`Opening`: what is held was held before) to the gate, and from
  there (`Settled`: what is held was proposed in this turn).

  Proved:
  - `gate_settles`, `turn_settles`: one pass through the gate, and one whole turn.
  - `no_stale_proposal`: in every conversation where a turn that finds a plan gets to the gate,
    only the turn just before can have proposed what a turn releases, and a turn that is no bare
    affirmation leaves no plan but its own.

  A turn whose first supervisor degrades or raises never gets to the gate, and the plan it found
  stays: two turns later a "yes" releases it (`a_failed_turn_keeps_the_plan`).
-/

import CoreHeartbeat.Graph.Run

namespace CoreHeartbeat.Graph

open Plans (Key key)

variable {σ : Type}

/-! ## A reliable store -/

/-- `held` is the plan the store would hand out for the key `k`. -/
structure Reliable (held : σ → Option (List Call)) (k : Key) (store : PlanStore σ) : Prop where
  save : ∀ calls db, calls ≠ [] → held (store.save k calls db) = some calls
  take : ∀ db, (store.take k db).1 = held db
  taken : ∀ db, held (store.take k db).2 = none
  clear : ∀ db, held (store.clear k db) = none

/-- A take of an answered table hands out what a live, non-empty row holds; of a missing
    one, what the memory copy holds. So it hands out nothing when neither is there. -/
theorem take_none {e : Plans.Env} (p : Plans.Proc) {s : Plans.Slot (List Call)}
    (h : if e.answered then s.row = none else s.mem p = none) : (Plans.take List.isEmpty e p s).1.1 = none := by
  rw [Option.eq_none_iff_forall_ne_some]
  intro calls hcalls
  cases ha : e.answered with
  | true =>
    obtain ⟨row, hrow, -⟩ := (Plans.take_answered List.isEmpty ha p s calls).mp hcalls
    simp only [ha, if_true] at h
    rw [h] at hrow; cases hrow
  | false =>
    obtain ⟨entry, hentry, -⟩ := ((Plans.take_unanswered List.isEmpty ha p s).2 calls).mp hcalls
    simp only [ha, Bool.false_eq_true, if_false] at h
    rw [h] at hentry; cases hentry

/-- The gateway's store is reliable while its requests are answered, or when it has no table,
    at a clock that stays within the lifetime of a plan. -/
theorem pendingPlans_reliable {ttl : Int} (httl : 0 < ttl) {e : Plans.Env}
    (he : e.answered = true ∨ e.configured = false) (p : Plans.Proc) (k : Key) :
    Reliable (fun db => (Plans.take List.isEmpty e p (db k)).1.1) k (pendingPlans ttl e p) := by
  have happlied : e.answered = true → e.applied = true := by
    unfold Plans.Env.answered Plans.Env.applied
    cases e.configured <;> cases e.reply <;> simp
  refine ⟨fun calls db hne => ?_, fun db => rfl, fun db => ?_, fun db => ?_⟩
  · show (Plans.take List.isEmpty e p (Function.update db k _ k)).1.1 = some calls
    rw [Function.update_self]
    rcases he with ha | hc
    · refine (Plans.take_answered List.isEmpty ha p _ calls).mpr ⟨⟨calls, e.wall + ttl⟩, ?_, ?_, ?_, rfl⟩
      · rw [Plans.save_row, happlied ha, if_pos rfl]
      · simp only [Plans.expired, decide_eq_false_iff_not]; omega
      · simpa using hne
    · have ha : e.answered = false := by simp [Plans.Env.answered, hc]
      refine ((Plans.take_unanswered List.isEmpty ha p _).2 calls).mpr ⟨⟨calls, e.mono + ttl⟩, ?_, ?_, rfl⟩
      · rw [Plans.save_mem, Function.update_self]
      · show e.mono < e.mono + ttl
        omega
  · show (Plans.take List.isEmpty e p (Function.update db k _ k)).1.1 = none
    rw [Function.update_self]
    refine take_none p ?_
    split
    · rename_i ha; rw [Plans.take_row, happlied ha, if_pos rfl]
    · rw [Plans.take_mem, Function.update_self]
  · show (Plans.take List.isEmpty e p (Function.update db k _ k)).1.1 = none
    rw [Function.update_self]
    refine take_none p ?_
    split
    · rename_i ha; rw [Plans.clear_row, happlied ha, if_pos rfl]
    · rw [Plans.clear_mem, Function.update_self]

/-! ## The store's events -/

inductive StoreEvent where
  | saved (calls : List Call)
  | took (calls : Option (List Call))
  | cleared

def logged (store : PlanStore σ) : PlanStore (σ × List StoreEvent) where
  save k calls db := (store.save k calls db.1, db.2 ++ [.saved calls])
  take k db := ((store.take k db.1).1, (store.take k db.1).2, db.2 ++ [.took (store.take k db.1).1])
  clear k db := (store.clear k db.1, db.2 ++ [.cleared])

def StepEnv.logged (e : StepEnv σ) : StepEnv (σ × List StoreEvent) :=
  { router := e.router, savedRef := e.savedRef, store := Graph.logged e.store, worker := e.worker,
    dispatchTool := e.dispatchTool }

/-- A turn of the conversation `k`, with what each of its nodes meets, up to the end. -/
structure Exchange (σ : Type) (k : Key) where
  turn : Turn
  envs : List (StepEnv σ)
  inChat : key turn.userId turn.payload.chatId = k
  enough : maxSteps + 3 ≤ envs.length

variable {k : Key}

/-- One turn: the store after it, and what it did to the store. -/
def converse (st : Settings) (db : σ) (t : Exchange σ k) : σ × List StoreEvent :=
  (Machine.final (superstep st) (start t.turn (db, [])) (t.envs.map StepEnv.logged)).db

/-- What a turn releases was proposed by the turn just before it, and a turn that is not a
    bare affirmation leaves no plan but its own. -/
structure NoStaleProposal (st : Settings) (held : σ → Option (List Call)) (db₀ : σ) (ops : List (Exchange σ k)) :
    Prop where
  release : ∀ l t m plan, ops = l ++ t :: m →
    .took (some plan) ∈ (converse st (Machine.final (converse st) db₀ l) t).2 →
    ∃ l' t', l = l' ++ [t'] ∧ .saved plan ∈ (converse st (Machine.final (converse st) db₀ l') t').2
  discard : ∀ l t m plan, ops = l ++ t :: m → isAffirmation t.turn.payload.rawInput = false →
    held (converse st (Machine.final (converse st) db₀ l) t).1 = some plan →
    .saved plan ∈ (converse st (Machine.final (converse st) db₀ l) t).2

def Turn.opening (t : Turn) : GraphState := initialState t.payload t.userId t.documents t.documentImages

/-- The first supervisor gets to the write gate: its router decides, and looking up a saved
    document does not raise. -/
def ReachesGate (st : Settings) (t : Exchange σ k) : Prop :=
  ∃ e, t.envs.head? = some e ∧ ∃ decision usage calls, consult st e.router = .ok (.decided decision usage calls) ∧
    ∃ canned, cannedFor e.savedRef t.turn.opening decision calls = .ok canned

/-- A turn that finds a plan gets to the write gate. -/
def Routes (st : Settings) (held : σ → Option (List Call)) (db : σ) (t : Exchange σ k) : Prop :=
  held db ≠ none → ReachesGate st t

/-! ## What the gate does to the store -/

theorem writeGate_effect {held : σ → Option (List Call)} {store : PlanStore σ} (hr : Reliable held k store)
    (cfg : Config) {s : GraphState} (hk : key s.userId s.intent.chatId = k) (d : Draft) (db : σ) (log : List StoreEvent) :
    (confirming s = true ∧ (writeGate cfg (logged store) s d (db, log)).2.2 = log ++ [.took (held db)] ∧
        held (writeGate cfg (logged store) s d (db, log)).2.1 = none) ∨
    (∃ calls, (writeGate cfg (logged store) s d (db, log)).2.2 = log ++ [.saved calls] ∧
        held (writeGate cfg (logged store) s d (db, log)).2.1 = some calls) ∨
    ((writeGate cfg (logged store) s d (db, log)).2.2 = log ++ [.cleared] ∧
        held (writeGate cfg (logged store) s d (db, log)).2.1 = none) := by
  cases hc : confirming s with
  | true =>
    refine Or.inl ⟨rfl, ?_⟩
    have hdb : (writeGate cfg (logged store) s d (db, log)).2 = ((store.take k db).2, log ++ [.took (held db)]) := by
      have ht := takePendingPlan_db (logged store) k (db, log)
      rcases hplan : takePendingPlan (logged store) k (db, log) with ⟨_ | plan, db'⟩
      · rw [writeGate_no_plan cfg _ d hc (by rw [hk]; exact hplan), ← hr.take db]
        rw [hplan] at ht; exact ht
      · rw [writeGate_release cfg _ d hc (by rw [hk]; exact hplan), ← hr.take db]
        rw [hplan] at ht; exact ht
    rw [hdb]
    exact ⟨rfl, hr.taken db⟩
  | false =>
    right
    by_cases hprop : d.calls.getD [] ≠ [] ∧ needsConfirmation cfg (d.calls.getD []) = true
    · left
      obtain ⟨calls, hcalls⟩ : ∃ calls, d.calls = some calls := by
        cases hd : d.calls with
        | none => simp [hd] at hprop
        | some calls => exact ⟨calls, rfl⟩
      rw [hcalls] at hprop
      rw [writeGate_propose cfg (logged store) (db, log) calls hc hcalls hprop.1 hprop.2, hk]
      exact ⟨calls, rfl, hr.save calls db hprop.1⟩
    · right
      have hpass : d.calls.getD [] = [] ∨ needsConfirmation cfg (d.calls.getD []) = false := by
        by_cases hnil : d.calls.getD [] = []
        · exact Or.inl hnil
        · right; simpa [hnil] using hprop
      rw [writeGate_pass cfg (logged store) (db, log) hc hpass, hk]
      exact ⟨rfl, hr.clear db⟩

/-! ## One turn -/

/-- The turn `h₀` was held at the start of: before its first supervisor. -/
def Opening (held : σ → Option (List Call)) (h₀ : Option (List Call)) (s₀ : GraphState)
    (c : Conf (σ × List StoreEvent)) : Prop :=
  c.place = .at .supervisor ∧ c.st = s₀ ∧ c.db.2 = [] ∧ held c.db.1 = h₀

/-- After its first supervisor: what is held was proposed in this turn, what was released
    was held at the start, and a worker runs before the next supervisor. -/
structure Settled (k : Key) (held : σ → Option (List Call)) (h₀ : Option (List Call))
    (c : Conf (σ × List StoreEvent)) : Prop where
  chat : key c.st.userId c.st.intent.chatId = k
  kept : ∀ plan, held c.db.1 = some plan → .saved plan ∈ c.db.2
  released : ∀ plan, .took (some plan) ∈ c.db.2 → h₀ = some plan
  worked : c.place = .at .supervisor → .localLlm ∈ c.st.visited ∨ toolsRan c.st = true

section Turns

variable {held : σ → Option (List Call)} {h₀ : Option (List Call)} {st : Settings} {e : StepEnv σ}
variable {c : Conf (σ × List StoreEvent)}

/-- A pass through the gate settles the store, if an approval it honours finds `h₀`. -/
theorem gate_settles {store : PlanStore σ} (hr : Reliable held k store) {cfg : Config} {s : GraphState}
    (hk : key s.userId s.intent.chatId = k) {d d' : Draft} {db db' : σ × List StoreEvent}
    (hreleased : ∀ plan, .took (some plan) ∈ db.2 → h₀ = some plan) (hconf : confirming s = true → held db.1 = h₀)
    (hw : writeGate cfg (logged store) s d db = (d', db')) :
    (∀ plan, held db'.1 = some plan → .saved plan ∈ db'.2) ∧ ∀ plan, .took (some plan) ∈ db'.2 → h₀ = some plan := by
  obtain ⟨db, log⟩ := db
  have heff := writeGate_effect hr cfg hk d db log
  simp only [hw] at heff
  rcases heff with ⟨hc, hlog, hheld⟩ | ⟨calls, hlog, hheld⟩ | ⟨hlog, hheld⟩
  · refine ⟨fun plan hp => ?_, fun plan hp => ?_⟩
    · rw [hheld] at hp; cases hp
    · simp only [hlog, List.mem_append, List.mem_singleton, StoreEvent.took.injEq] at hp
      rcases hp with hp | hp
      · exact hreleased plan hp
      · rw [← hconf hc, hp]
  · refine ⟨fun plan hp => ?_, fun plan hp => ?_⟩
    · obtain rfl : calls = plan := Option.some.inj (hheld.symm.trans hp)
      rw [hlog]; exact List.mem_append_right _ (List.mem_singleton_self _)
    · simp only [hlog, List.mem_append, List.mem_singleton, reduceCtorEq, or_false] at hp
      exact hreleased plan hp
  · refine ⟨fun plan hp => ?_, fun plan hp => ?_⟩
    · rw [hheld] at hp; cases hp
    · simp only [hlog, List.mem_append, List.mem_singleton, reduceCtorEq, or_false] at hp
      exact hreleased plan hp

theorem settled_superstep (hr : Reliable held k e.store) (h : Settled k held h₀ c) :
    Settled k held h₀ (superstep st c e.logged).1 := by
  rcases superstep_cases st c e.logged with ⟨-, hs⟩ | ⟨n, fault, -, -, hs⟩ | ⟨n, u, db, hp, hrun, hs⟩
  · rw [hs]; exact h
  · rw [hs]; exact ⟨h.chat, h.kept, h.released, nofun⟩
  · rw [hs]
    cases n with
    | localLlm =>
      obtain ⟨hu, rfl⟩ := runNode_worker hrun
      obtain ⟨text, usage, rfl⟩ := localLlm_update hu
      exact ⟨h.chat, h.kept, h.released, fun _ => Or.inl (List.mem_append_right _ (List.mem_singleton_self _))⟩
    | toolExecution =>
      obtain ⟨hu, rfl⟩ := runNode_worker hrun
      obtain ⟨messages, executedCalls, rfl⟩ := toolExecution_update hu
      refine ⟨h.chat, h.kept, h.released, fun _ => Or.inr ?_⟩
      simp [toolsRan, Conf.after, GraphState.apply]
    | supervisor =>
      rcases supervisor_cases hrun with ⟨-, -, rfl⟩ | ⟨-, -, -, rfl⟩ | ⟨-, -, rfl, -⟩ |
        ⟨-, hv, decision, usage, calls, canned, d, -, hw, -⟩
      case inr.inr.inr =>
        -- a consulted router: a worker has run, so there is no approval left to honour
        have hran : toolsRan c.st = true := (h.worked hp).resolve_left hv
        have hnot : confirming c.st = true → held c.db.1 = h₀ := by simp [confirming, hran]
        obtain ⟨hkept, hreleased⟩ := gate_settles hr h.chat h.released hnot hw
        exact ⟨h.chat, hkept, hreleased, fun hp' => absurd hp' (Place.ofNext_worker _)⟩
      all_goals exact ⟨h.chat, h.kept, h.released, fun hp' => absurd hp' (Place.ofNext_worker _)⟩

theorem opening_superstep (hr : Reliable held k e.store) {t : Turn} (hk : key t.userId t.payload.chatId = k)
    (h : Opening held h₀ t.opening c)
    (hroute : h₀ ≠ none → ∃ decision usage calls, consult st e.router = .ok (.decided decision usage calls) ∧
      ∃ canned, cannedFor e.savedRef t.opening decision calls = .ok canned) :
    Settled k held h₀ (superstep st c e.logged).1 := by
  obtain ⟨hp, hst, hlog, hheld⟩ := h
  have hnone : h₀ = none → ∀ plan, held c.db.1 = some plan → StoreEvent.saved plan ∈ c.db.2 := by
    intro h0 plan hplan
    rw [hheld, h0] at hplan; cases hplan
  have hreleased : ∀ plan, StoreEvent.took (some plan) ∈ c.db.2 → h₀ = some plan := by
    intro plan hmem
    rw [hlog] at hmem; cases hmem
  have hchat : key c.st.userId c.st.intent.chatId = k := by rw [hst]; exact hk
  rcases superstep_cases st c e.logged with ⟨hend, -⟩ | ⟨n, fault, hp', hrun, hs⟩ | ⟨n, u, db, hp', hrun, hs⟩
  · rw [hp] at hend; exact hend.elim
  · -- the supervisor raised, so it did not get to the gate
    rw [hs]
    have h0 : h₀ = none := by
      by_contra hne
      obtain ⟨decision, usage, calls, hc, canned, hcanned⟩ := hroute hne
      rw [hp] at hp'; cases hp'
      obtain ⟨r, hr'⟩ := supervisor_ok (e := e.logged) (s := c.st) c.db (by rw [hst]; rfl) hc
        (by rw [hst]; exact hcanned)
      have hrun' : supervisor st e.logged c.st c.db = .error fault := hrun
      rw [hr'] at hrun'; cases hrun'
    exact ⟨hchat, hnone h0, hreleased, nofun⟩
  · rw [hp] at hp'; cases hp'
    rw [hs]
    rcases supervisor_cases hrun with ⟨hb, -⟩ | ⟨-, hv, -⟩ | ⟨-, -, rfl, failure, usage, hc, -⟩ |
      ⟨-, -, decision, usage, calls, canned, d, -, hw, -⟩
    · rw [hst] at hb; exact absurd hb (Nat.not_succ_le_zero _)
    · rw [hst] at hv; cases hv
    · have h0 : h₀ = none := by
        by_contra hne
        obtain ⟨decision, usage', calls, hc', -⟩ := hroute hne
        have hc'' : consult st e.router = .ok (.degraded failure usage) := hc
        rw [hc'] at hc''; cases hc''
      exact ⟨hchat, hnone h0, hreleased, fun hp' => absurd hp' (Place.ofNext_worker _)⟩
    · obtain ⟨hkept, hrel⟩ := gate_settles hr hchat hreleased (fun _ => hheld) hw
      exact ⟨hchat, hkept, hrel, fun hp' => absurd hp' (Place.ofNext_worker _)⟩

/-- What a whole turn does to a reliable store. -/
theorem turn_settles (st : Settings) (db : σ) (t : Exchange σ k) (hr : ∀ e ∈ t.envs, Reliable held k e.store)
    (hroute : Routes st held db t) :
    (∀ plan, held (converse st db t).1 = some plan → .saved plan ∈ (converse st db t).2) ∧
      ∀ plan, .took (some plan) ∈ (converse st db t).2 → held db = some plan := by
  obtain ⟨turn, envs, inChat, enough⟩ := t
  cases envs with
  | nil => exact absurd enough (Nat.not_succ_le_zero _)
  | cons e envs =>
    have hfirst : Settled k held (held db) (superstep st (start turn (db, [])) e.logged).1 :=
      opening_superstep (hr e List.mem_cons_self) inChat ⟨rfl, rfl, rfl, rfl⟩ fun hne => by
        obtain ⟨e', he', h⟩ := hroute hne
        obtain rfl : e = e' := Option.some.inj he'
        exact h
    have hrest : Settled k held (held db)
        (Machine.final (superstep st) (superstep st (start turn (db, [])) e.logged).1 (envs.map StepEnv.logged)) := by
      refine Machine.final_inv (C := fun _ e' => ∃ e₀, e' = StepEnv.logged e₀ ∧ Reliable held k e₀.store)
        (fun c e' hc he' => ?_) hfirst (Machine.meets_of_ops _ fun e' he' _ => ?_)
      · obtain ⟨e₀, rfl, hr₀⟩ := he'
        exact settled_superstep hr₀ hc
      · obtain ⟨e₀, he₀, rfl⟩ := List.mem_map.mp he'
        exact ⟨e₀, rfl, hr e₀ (List.mem_cons_of_mem _ he₀)⟩
    exact ⟨hrest.kept, hrest.released⟩

end Turns

/-! ## Whole conversations -/

/-- From a store without a plan, over reliable stores: if every turn that finds a plan gets
    to the write gate, no turn releases a stale one. -/
theorem no_stale_proposal (st : Settings) (held : σ → Option (List Call)) (db₀ : σ) (ops : List (Exchange σ k))
    (hempty : held db₀ = none) (hr : ∀ t ∈ ops, ∀ e ∈ t.envs, Reliable held k e.store)
    (hroute : Machine.Meets (converse st) (Routes st held) db₀ ops) : NoStaleProposal st held db₀ ops := by
  have hturn : ∀ l t m, ops = l ++ t :: m → Routes st held (Machine.final (converse st) db₀ l) t := by
    intro l t m h
    rw [h] at hroute
    exact hroute.at
  have hsettles : ∀ l t m, ops = l ++ t :: m → _ := fun l t m h =>
    turn_settles st (Machine.final (converse st) db₀ l) t (hr t (by rw [h]; simp)) (hturn l t m h)
  refine ⟨fun l t m plan h htook => ?_, fun l t m plan h _ hheld => (hsettles l t m h).1 plan hheld⟩
  have hheld := (hsettles l t m h).2 plan htook
  rcases List.eq_nil_or_concat l with rfl | ⟨l', t', rfl⟩
  · rw [Machine.final_nil, hempty] at hheld; cases hheld
  · rw [List.concat_eq_append] at h hheld ⊢
    rw [Machine.final_snoc] at hheld
    exact ⟨l', t', rfl, (hsettles l' t' (t :: m) (by rw [h, List.append_assoc]; rfl)).1 plan hheld⟩

def nativeRouting : Settings := { cfg := { nativeToolCalling := true }, pyd := strict }

/-- What the store with a live table would release to `u1` in `chat`. -/
def heldInChat (db : Key → Plans.Slot (List Call)) : Option (List Call) :=
  (Plans.take List.isEmpty reliableEnv 0 (db ("u1", "chat"))).1.1

/-- A message of `u1` in `chat`, answering the assistant; the same router at every step. -/
def message (rawInput : String) (router : Router) : Exchange (Key → Plans.Slot (List Call)) ("u1", "chat") where
  turn := { payload := { rawInput, history := [⟨.assistant, "Hello."⟩], chatId := some "chat" }, userId := "u1" }
  envs := List.replicate 11
    { router, savedRef := fun _ _ => .ok none, store := pendingPlans 1800 reliableEnv 0,
      worker := ⟨.ok (.ok "Done.", {}), .ok (.ok "", {})⟩, dispatchTool := fun _ _ => .ok "ok" }
  inChat := rfl
  enough := by rw [List.length_replicate]; exact Nat.le_refl 11

def emits (calls : List Call) : Router :=
  ⟨.ok none, .ok (.ok calls, {}), fun _ => .ok (.ok { nextNode := .localLlm }, {})⟩

def deletion : Call := ⟨"delete_calendar_event", [("event_id", .str "e1")]⟩

def proposing := message "cancel my dentist" (emits [deletion])

/-- A turn whose model preference has no client. -/
def failing := message "what's the weather" { emits [] with noClient := .ok (some "no client") }

def approving := message "yes" (emits [])

theorem no_stale_proposal_yes :
    NoStaleProposal nativeRouting heldInChat emptyDb [proposing, approving] := by
  refine no_stale_proposal nativeRouting heldInChat emptyDb _ rfl ?_ ?_
  · intro t ht e he
    have hstore : e.store = pendingPlans 1800 reliableEnv 0 := by
      simp only [List.mem_cons, List.not_mem_nil, or_false] at ht
      rcases ht with rfl | rfl <;> rw [List.eq_of_mem_replicate he]
    rw [hstore]
    exact pendingPlans_reliable (by decide) (Or.inl rfl) 0 _
  · refine Machine.meets_of_ops _ fun t ht db _ => ?_
    simp only [List.mem_cons, List.not_mem_nil, or_false] at ht
    rcases ht with rfl | rfl
    · exact ⟨_, rfl, _, _, _, rfl, _, rfl⟩
    · exact ⟨_, rfl, _, _, _, rfl, _, rfl⟩

/-- A proposal, a turn that fails for want of a client, then "yes": the plan proposed two
    turns before is released. -/
theorem a_failed_turn_keeps_the_plan :
    ¬ NoStaleProposal nativeRouting heldInChat emptyDb [proposing, failing, approving] := by
  intro h
  obtain ⟨l', t', hl, hsaved⟩ :=
    h.release [proposing, failing] approving [] [deletion] rfl (List.Mem.head [StoreEvent.cleared])
  obtain ⟨rfl, ht⟩ := List.append_inj' (show [proposing] ++ [failing] = l' ++ [t'] from hl) rfl
  obtain rfl := List.singleton_inj.mp ht
  cases hsaved

end CoreHeartbeat.Graph
