/-
  CoreHeartbeat.Graph.Batches — the calls that `tool_execution` runs over a whole turn.

  A turn runs one batch per supervisor step. The guards of `_finish_routing` look at one batch:
  the repeat-call guard filters it against the calls of the earlier ones, not against itself,
  and the write gate counts the writes of this batch alone.

  `performed` is the list of calls that the run executes, batch after batch, and `performed_iff`
  reduces what holds of it to its steps: a property of the call signatures that every shorter
  list keeps holds of a whole turn in exactly the turns whose batches each keep it, given what
  ran before. Both results below are instances. The batch of a step is told from the state
  before it (`batch_native`): the released plan, nothing when the fresh calls are proposed, and
  the fresh calls otherwise.

  Proved, of turns that the native router decides:
  - `writes_under_threshold_iff`: a batch that runs unapproved is below the confirmation
    threshold; the writes of a whole turn are just when each batch counts the earlier ones in.
  - `no_call_twice_iff`: no call runs twice just when no batch repeats a call inside itself, nor
    does a plan that is released.

  - `two_batches_reach_the_threshold`: two games in one step and two notes in the next, four
    writes in all, and none is shown to the user first.
  - `a_doubled_call_runs_twice`: one batch with the same event twice, and it is created twice.
-/

import CoreHeartbeat.Graph.Run
import CoreHeartbeat.Graph.Gate

namespace CoreHeartbeat.Graph

open Plans (key)

variable {σ : Type}

/-! ## The calls of a run -/

/-- What `tool_execution` is about to run. -/
def pending (c : Conf σ) : List Call := if c.place = .at .toolExecution then requestedToolCalls c.st else []

/-- The calls `tool_execution` runs, over the whole run. -/
def performed (st : Settings) (c : Conf σ) (envs : List (StepEnv σ)) : List Call :=
  (Machine.trace (superstep st) c envs).flatMap fun ev => pending ev.pre

/-- What the guards hand to `tool_execution`. -/
def dispatched (d : Draft) : List Call :=
  if d.nxt = .toolExecution then
    (match d.calls with
      | none | some [] => d.toolRequest.toList
      | some calls => calls).filter fun c => dispatchableTools.contains c.name
  else []

theorem dispatched_calls {d : Draft} {calls : List Call} (hn : d.nxt = .toolExecution) (hc : d.calls = some calls)
    (hne : calls ≠ []) : dispatched d = calls.filter fun c => dispatchableTools.contains c.name := by
  unfold dispatched
  rw [if_pos hn, hc]
  cases calls with
  | nil => exact absurd rfl hne
  | cons call rest => rfl

theorem dispatched_elsewhere {d : Draft} (h : d.nxt ≠ .toolExecution) : dispatched d = [] := if_neg h

theorem performed_cons (st : Settings) (c : Conf σ) (e : StepEnv σ) (envs : List (StepEnv σ)) :
    performed st c (e :: envs) = pending c ++ performed st (superstep st c e).1 envs := by
  simp [performed]

theorem pending_ended {c : Conf σ} (h : c.place.ended) : pending c = [] := by
  unfold pending
  split
  · rename_i hp; rw [hp] at h; exact h.elim
  · rfl

theorem performed_ended (st : Settings) {c : Conf σ} (h : c.place.ended) (envs : List (StepEnv σ)) :
    performed st c envs = [] := by
  induction envs with
  | nil => rfl
  | cons e envs ih =>
    have hs : (superstep st c e).1 = c := final_ended st h [e]
    rw [performed_cons, hs, ih, pending_ended h]; rfl

/-- What runs was asked for by a name that a tool has. -/
theorem performed_dispatchable {st : Settings} {c : Conf σ} {envs : List (StepEnv σ)} {call : Call}
    (h : call ∈ performed st c envs) : call.name ∈ dispatchableTools := by
  obtain ⟨ev, -, hcall⟩ := List.mem_flatMap.mp h
  unfold pending at hcall
  split at hcall
  · simpa using (List.mem_filter.mp hcall).2
  · cases hcall

/-- After a routing decision `tool_execution` is about to run what the guards let through. -/
theorem pending_draft (c : Conf σ) (usage : TokenUsage) (canned : Option String) (d : Draft) (db : σ) :
    pending (c.after .supervisor (draftUpdate c.st.step usage canned d) db) = dispatched d := by
  unfold pending dispatched
  cases hn : d.nxt with
  | toolExecution =>
    rw [if_pos (by simp [Conf.after, draftUpdate, GraphState.apply, Place.ofNext, hn]), if_pos rfl]
    rfl
  | localLlm => rw [if_neg (by simp [Conf.after, draftUpdate, GraphState.apply, Place.ofNext, hn]), if_neg (by decide)]
  | finish => rw [if_neg (by simp [Conf.after, draftUpdate, GraphState.apply, Place.ofNext, hn]), if_neg (by decide)]

/-- `tool_execution` records the calls it ran. -/
theorem toolExecution_records {e : StepEnv σ} {s : GraphState} {u : Update} (h : toolExecution e s = .ok u) :
    u.executedCalls = (requestedToolCalls s).map callSignature := by
  unfold toolExecution at h
  split at h
  · rename_i hnone
    rw [← Except.ok.inj h, hnone]; rfl
  · cases hr : (requestedToolCalls s).mapM fun c => e.dispatchTool c s.userId with
    | error fault => simp [hr, bind, Except.bind] at h
    | ok results =>
      simp only [hr, bind, Except.bind, pure, Except.pure] at h
      rw [← Except.ok.inj h]

theorem supervisor_records {st : Settings} {e : StepEnv σ} {s : GraphState} {db db' : σ} {u : Update}
    (h : supervisor st e s db = .ok (u, db')) : u.executedCalls = [] := by
  rcases supervisor_cases h with ⟨-, rfl, -⟩ | ⟨-, -, rfl, -⟩ | ⟨-, -, -, failure, usage, -, rfl⟩ |
    ⟨-, -, decision, usage, calls, canned, d, -, -, rfl⟩
  · unfold stepBound
    split <;> rfl
  all_goals rfl

/-- A node other than the supervisor records what was pending, and leaves nothing pending. -/
theorem worker_records {st : Settings} {e : StepEnv σ} {c : Conf σ} {n : GraphNode} {u : Update} {db : σ}
    (hp : c.place = .at n) (hn : n ≠ .supervisor) (hr : runNode st e n c.st c.db = .ok (u, db)) :
    (c.after n u db).st.executedCalls = c.st.executedCalls ++ (pending c).map callSignature ∧
      pending (c.after n u db) = [] := by
  cases n with
  | supervisor => exact absurd rfl hn
  | localLlm =>
    obtain ⟨text, usage, rfl⟩ := localLlm_update (runNode_worker hr).1
    simp [pending, hp, Conf.after, GraphState.apply, replied]
  | toolExecution =>
    have hrec := toolExecution_records (runNode_worker hr).1
    simp [pending, hp, Conf.after, GraphState.apply, hrec]

/-! ## A property of all the calls of a run -/

def Decides (st : Settings) (c : Conf σ) (e : StepEnv σ) (decision : RoutingDecision) (calls : List Call) : Prop :=
  c.place = .at .supervisor ∧ answeredBefore c.st = none ∧
    (∃ usage, consult st e.router = .ok (.decided decision usage calls)) ∧
    ∃ canned, cannedFor e.savedRef c.st decision calls = .ok canned

/-- The batch that comes out of the guards. -/
def batch (st : Settings) (c : Conf σ) (e : StepEnv σ) (decision : RoutingDecision) (calls : List Call) : List Call :=
  dispatched (writeGate st.cfg e.store c.st (repeatGuard st.cfg c.st (draft decision calls)) c.db).1

/-- The decision of this step hands over calls that keep `R`, after those that ran. -/
def Keeps (R : List String → Prop) (st : Settings) (c : Conf σ) (e : StepEnv σ) : Prop :=
  ∀ decision calls, Decides st c e decision calls →
    R (c.st.executedCalls ++ (batch st c e decision calls).map callSignature)

theorem Decides.unique {st : Settings} {c : Conf σ} {e : StepEnv σ} {decision decision' : RoutingDecision}
    {calls calls' : List Call} (h : Decides st c e decision calls) (h' : Decides st c e decision' calls') :
    decision' = decision ∧ calls' = calls := by
  obtain ⟨-, -, ⟨usage, hc⟩, -⟩ := h
  obtain ⟨-, -, ⟨usage', hc'⟩, -⟩ := h'
  rw [hc] at hc'
  cases hc'
  exact ⟨rfl, rfl⟩

/-- A supervisor that takes a decision comes through. -/
theorem Decides.ok {st : Settings} {c : Conf σ} {e : StepEnv σ} {decision : RoutingDecision} {calls : List Call}
    (h : Decides st c e decision calls) : ∃ r, supervisor st e c.st c.db = .ok r := by
  obtain ⟨-, hb, ⟨usage, hc⟩, canned, hcanned⟩ := h
  exact supervisor_ok c.db hb hc hcanned

/-- What a supervisor that came through leaves pending: the batch of its decision, if it
    took one. -/
theorem supervisor_pending {st : Settings} {e : StepEnv σ} {c : Conf σ} {u : Update} {db : σ}
    (hp : c.place = .at .supervisor) (hr : supervisor st e c.st c.db = .ok (u, db)) :
    (pending (c.after .supervisor u db) = [] ∧ ∀ decision calls, ¬ Decides st c e decision calls) ∨
      ∃ decision calls, Decides st c e decision calls ∧
        pending (c.after .supervisor u db) = batch st c e decision calls := by
  have hnone : ∀ decision calls, (c.st.step < maxSteps → .localLlm ∉ c.st.visited → False) →
      ¬ Decides st c e decision calls := by
    intro decision calls hno h
    obtain ⟨-, hb, -⟩ := h
    obtain ⟨hlt, hv⟩ := answeredBefore_eq_none_iff.mp hb
    exact hno hlt hv
  rcases supervisor_cases hr with ⟨hb, rfl, rfl⟩ | ⟨-, hv, rfl, rfl⟩ | ⟨hb, hv, rfl, failure, usage, hc, rfl⟩ |
    ⟨hb, hv, decision, usage, calls, canned, d, hc, hd, rfl⟩
  · refine Or.inl ⟨?_, fun decision calls => hnone decision calls fun hlt _ => by omega⟩
    unfold pending stepBound
    split <;> simp_all [Conf.after, GraphState.apply, Place.ofNext]
  · exact Or.inl ⟨rfl, fun decision calls => hnone decision calls fun _ hnv => hnv hv⟩
  · refine Or.inl ⟨rfl, fun decision calls h => ?_⟩
    obtain ⟨-, -, ⟨usage', hc'⟩, -⟩ := h
    rw [hc] at hc'; cases hc'
  · right
    have hbefore : answeredBefore c.st = none := answeredBefore_eq_none_iff.mpr ⟨hb, hv⟩
    have hcanned : ∃ canned, cannedFor e.savedRef c.st decision calls = .ok canned := by
      unfold supervisor at hr
      simp only [hbefore, hc] at hr
      obtain ⟨canned', hcanned, -⟩ := finishRouting_cases hr
      exact ⟨canned', hcanned⟩
    refine ⟨decision, calls, ⟨hp, hbefore, ⟨usage, hc⟩, hcanned⟩, ?_⟩
    rw [pending_draft, batch, hd]

/-- What `R` says of the calls before a step and the batch the step hands over. -/
theorem keeps_iff {R : List String → Prop} {st : Settings} {c : Conf σ} {e : StepEnv σ} {u : Update} {db : σ}
    (hR : ∀ l m, R (l ++ m) → R l) (hp : c.place = .at .supervisor) (hr : supervisor st e c.st c.db = .ok (u, db)) :
    R (c.st.executedCalls ++ (pending (c.after .supervisor u db)).map callSignature) ↔
      R c.st.executedCalls ∧ Keeps R st c e := by
  rcases supervisor_pending hp hr with ⟨hnone, hno⟩ | ⟨decision, calls, hdec, hbatch⟩
  · rw [hnone, List.map_nil, List.append_nil]
    exact ⟨fun h => ⟨h, fun decision calls hd => absurd hd (hno decision calls)⟩, And.left⟩
  · rw [hbatch]
    refine ⟨fun h => ⟨hR _ _ h, fun decision' calls' hd => ?_⟩, fun h => h.2 _ _ hdec⟩
    obtain ⟨rfl, rfl⟩ := hdec.unique hd
    exact h

/-- A property `R` of call signatures that every shorter list keeps, over a run that ends:
    the calls before it and the ones it performs keep `R` exactly when those already pending
    do and each step's `C` holds, where `C` is what it takes for one batch. -/
theorem performed_iff {R : List String → Prop} {C H : Conf σ → StepEnv σ → Prop} {J : Conf σ → Prop} {st : Settings}
    (hR : ∀ l m, R (l ++ m) → R l) (hJ : ∀ c e, J c → J (superstep st c e).1)
    (hC : ∀ c e, J c → H c e → R c.st.executedCalls → (Keeps R st c e ↔ C c e)) {c : Conf σ} (hc : J c)
    {envs : List (StepEnv σ)} (hH : Machine.Meets (superstep st) H c envs)
    (hend : (Machine.final (superstep st) c envs).place.ended) :
    R (c.st.executedCalls ++ (performed st c envs).map callSignature) ↔
      R (c.st.executedCalls ++ (pending c).map callSignature) ∧ Machine.Meets (superstep st) C c envs := by
  induction envs generalizing c with
  | nil =>
    have hnone : pending c = [] := pending_ended hend
    have hall : Machine.Meets (superstep st) C c [] := fun ev hev => by cases hev
    rw [hnone]
    exact ⟨fun h => ⟨h, hall⟩, And.left⟩
  | cons e envs ih =>
    obtain ⟨hHe, hHrest⟩ := (Machine.meets_cons _).mp hH
    have ih := ih (hJ c e hc) hHrest hend
    rw [performed_cons, Machine.meets_cons]
    -- a step that takes no decision meets `C` once the calls so far keep `R`
    have hidle : (∀ decision calls, ¬ Decides st c e decision calls) → R c.st.executedCalls → C c e := fun hno hr =>
      (hC c e hc hHe hr).mp fun decision calls hd => absurd hd (hno decision calls)
    rcases superstep_cases st c e with ⟨hended, hs⟩ | ⟨n, fault, hp, hr, hs⟩ | ⟨n, u, db, hp, hr, hs⟩
    · rw [hs] at ih ⊢
      rw [pending_ended hended, List.nil_append, ih, pending_ended hended, List.map_nil, List.append_nil]
      have hno : ∀ decision calls, ¬ Decides st c e decision calls := fun decision calls hd => by
        rw [hd.1] at hended; exact hended
      exact ⟨fun h => ⟨h.1, hidle hno h.1, h.2⟩, fun h => ⟨h.1, h.2.2⟩⟩
    · have hraised : (superstep st c e).1.place.ended := by rw [hs]; trivial
      have hno : ∀ decision calls, ¬ Decides st c e decision calls := by
        intro decision calls hd
        obtain rfl : n = .supervisor := by have := hp.symm.trans hd.1; cases this; rfl
        obtain ⟨r, hok⟩ := hd.ok
        rw [show supervisor st e c.st c.db = .error fault from hr] at hok
        cases hok
      rw [performed_ended st hraised, pending_ended hraised, List.map_nil, List.append_nil,
        show (superstep st c e).1.st = c.st by rw [hs]] at ih
      rw [performed_ended st hraised, List.append_nil]
      exact ⟨fun h => ⟨h, hidle hno (hR _ _ h), (ih.mp (hR _ _ h)).2⟩, And.left⟩
    · have hafter : (superstep st c e).1 = c.after n u db := by rw [hs]
      rw [hafter] at ih ⊢
      by_cases hn : n = .supervisor
      · -- a decision: nothing has run yet, and its batch is now pending
        subst hn
        have hnow : pending c = [] := by simp [pending, hp]
        have hsame : (c.after .supervisor u db).st.executedCalls = c.st.executedCalls := by
          simp [Conf.after, GraphState.apply, supervisor_records hr]
        rw [hsame, keeps_iff hR hp hr] at ih
        rw [hnow, List.nil_append, ih, List.map_nil, List.append_nil, and_assoc]
        exact and_congr_right fun hrun => and_congr_left' (hC c e hc hHe hrun)
      · -- a worker: what was pending has run
        obtain ⟨hrec, hnext⟩ := worker_records hp hn hr
        have hno : ∀ decision calls, ¬ Decides st c e decision calls := fun decision calls hd => by
          rw [hd.1] at hp
          exact hn (by cases hp; rfl)
        rw [hrec, hnext, List.map_nil, List.append_nil] at ih
        rw [List.map_append, ← List.append_assoc, ih]
        exact ⟨fun h => ⟨h.1, hidle hno (hR _ _ h.1), h.2⟩, fun h => ⟨h.1, h.2.2⟩⟩

/-! ## What the guards let through -/

def RoutedNatively (st : Settings) (c : Conf σ) (e : StepEnv σ) : Prop :=
  ∀ decision calls, Decides st c e decision calls →
    st.cfg.nativeToolCalling = true ∧ ∃ response usage, e.router.native = .ok (.ok response, usage)

def ReleasesNothing (st : Settings) (c : Conf σ) (e : StepEnv σ) : Prop :=
  ∀ decision calls, Decides st c e decision calls → confirming c.st = true →
    (takePendingPlan e.store (key c.st.userId c.st.intent.chatId) c.db).1 = none

/-- A native batch holds calls by the names of tools, and decides for them. -/
theorem native_batch {st : Settings} {c : Conf σ} {e : StepEnv σ} {decision : RoutingDecision} {calls : List Call}
    (hd : Decides st c e decision calls) (hn : RoutedNatively st c e) :
    (∀ call ∈ calls, call.name ∈ dispatchableTools) ∧
      (calls = [] ∧ decision.nextNode = .localLlm ∧ decision.toolName = none ∨
        calls ≠ [] ∧ decision.nextNode = .toolExecution) := by
  obtain ⟨hnative, response, usage, hresponse⟩ := hn decision calls hd
  obtain ⟨-, -, ⟨usage', hc⟩, -⟩ := hd
  unfold consult at hc
  cases hclient : e.router.noClient with
  | error fault => simp [hclient, bind, Except.bind] at hc
  | ok client =>
    cases client with
    | some detail => simp [hclient, bind, Except.bind, pure, Except.pure] at hc
    | none =>
      simp only [hclient, hnative, hresponse, bind, Except.bind, pure, Except.pure, if_true] at hc
      split at hc
      · rename_i decision' hdecision
        cases hc
        refine ⟨fun call hcall => by simpa using (List.mem_filter.mp hcall).2, ?_⟩
        have hnode := nativeDecision_node hdecision
        cases hcalls : nativeCalls response with
        | nil =>
          rw [hcalls] at hdecision hnode
          cases hdecision
          exact Or.inl ⟨rfl, rfl, rfl⟩
        | cons call rest =>
          rw [hcalls] at hnode
          exact Or.inr ⟨by simp, hnode⟩
      · cases hc

/-- The calls of a native batch that the repeat-call guard keeps. -/
def fresh (st : Settings) (c : Conf σ) (calls : List Call) : List Call := freshCalls st.cfg c.st.executedCalls calls

def released (c : Conf σ) (e : StepEnv σ) : Option (List Call) :=
  if confirming c.st then (takePendingPlan e.store (key c.st.userId c.st.intent.chatId) c.db).1 else none

def proposes (st : Settings) (c : Conf σ) (calls : List Call) : Bool :=
  !confirming c.st && needsConfirmation st.cfg (fresh st c calls)

section
variable {st : Settings} {c : Conf σ} {e : StepEnv σ} {decision : RoutingDecision} {calls : List Call}

theorem fresh_native (hnames : ∀ call ∈ calls, call.name ∈ dispatchableTools) :
    (fresh st c calls).filter (fun call => dispatchableTools.contains call.name) = fresh st c calls := by
  refine List.filter_eq_self.mpr fun call hcall => ?_
  simpa using hnames call (List.mem_of_mem_filter hcall)

/-- An approval releases the stored plan whatever is decided. -/
theorem batch_released (hc : confirming c.st = true) {plan : List Call} {db : σ}
    (ht : takePendingPlan e.store (key c.st.userId c.st.intent.chatId) c.db = (some plan, db)) :
    batch st c e decision calls = plan.filter fun call => dispatchableTools.contains call.name := by
  unfold batch
  rw [writeGate_release st.cfg e.store _ hc ht, dispatched_calls rfl rfl]
  rintro rfl
  simp [takePendingPlan] at ht
  split at ht <;> simp at ht

/-- An approval with nothing stored: the fresh calls run, if there are any. -/
theorem batch_no_plan (hd : Decides st c e decision calls) (hn : RoutedNatively st c e) (hc : confirming c.st = true)
    {db : σ} (ht : takePendingPlan e.store (key c.st.userId c.st.intent.chatId) c.db = (none, db)) :
    batch st c e decision calls = fresh st c calls := by
  obtain ⟨hnames, ⟨rfl, hnode, -⟩ | ⟨hne, hnode⟩⟩ := native_batch hd hn
  · unfold batch
    rw [writeGate_no_plan st.cfg e.store _ hc ht]
    simp [repeatGuard, draft, hnode, dispatched, fresh, freshCalls]
  · obtain ⟨hdraft, -, hnxt⟩ := draft_native hnode hne
    unfold batch
    rw [writeGate_no_plan st.cfg e.store _ hc ht, repeatGuard_batch st.cfg c.st calls hdraft hne]
    by_cases hf : freshCalls st.cfg c.st.executedCalls calls = []
    · simp [hf, fresh, dispatched]
    · simp only [hf, if_false, Option.getD_some, List.isEmpty_iff]
      exact (dispatched_calls (by exact hnxt) rfl hf).trans (fresh_native hnames)

/-- Without an approval the fresh calls run, unless they are proposed. -/
theorem batch_unapproved (hd : Decides st c e decision calls) (hn : RoutedNatively st c e)
    (hc : confirming c.st = false) :
    batch st c e decision calls = if needsConfirmation st.cfg (fresh st c calls) then [] else fresh st c calls := by
  obtain ⟨hnames, ⟨rfl, hnode, -⟩ | ⟨hne, hnode⟩⟩ := native_batch hd hn
  · unfold batch
    rw [writeGate_pass st.cfg e.store _ hc (by simp [repeatGuard, draft])]
    simp [repeatGuard, draft, hnode, dispatched, fresh, freshCalls]
  · obtain ⟨hdraft, -, hnxt⟩ := draft_native hnode hne
    unfold batch
    rw [repeatGuard_batch st.cfg c.st calls hdraft hne]
    by_cases hf : freshCalls st.cfg c.st.executedCalls calls = []
    · rw [if_pos hf, writeGate_pass st.cfg e.store _ hc (by simp), dispatched_elsewhere (by simp)]
      simp [fresh, hf]
    · rw [if_neg hf]
      cases hneeds : needsConfirmation st.cfg (fresh st c calls) with
      | true =>
        rw [writeGate_propose st.cfg e.store _ _ hc rfl hf hneeds, dispatched_elsewhere (by simp)]
        rfl
      | false =>
        rw [writeGate_pass st.cfg e.store _ hc (Or.inr (by exact hneeds))]
        exact (dispatched_calls (by exact hnxt) rfl hf).trans (fresh_native hnames)

/-- A native decision hands over the released plan, nothing when it proposes its calls, and
    the fresh ones otherwise. -/
theorem batch_native (hd : Decides st c e decision calls) (hn : RoutedNatively st c e) :
    batch st c e decision calls = match released c e with
      | some plan => plan.filter fun call => dispatchableTools.contains call.name
      | none => if proposes st c calls then [] else fresh st c calls := by
  unfold released proposes
  cases hc : confirming c.st with
  | true =>
    rw [if_pos rfl]
    rcases ht : takePendingPlan e.store (key c.st.userId c.st.intent.chatId) c.db with ⟨_ | plan, db⟩
    · rw [batch_no_plan hd hn hc ht]
      rfl
    · exact batch_released hc ht
  | false =>
    simp only [Bool.false_eq_true, if_false, Bool.not_false, Bool.true_and]
    exact batch_unapproved hd hn hc

end

/-- A turn keeps its message and the conversation before it. -/
theorem superstep_context (st : Settings) (c : Conf σ) (e : StepEnv σ) :
    (superstep st c e).1.st.intent = c.st.intent ∧ (superstep st c e).1.st.priorContext = c.st.priorContext := by
  rcases superstep_cases st c e with ⟨-, hs⟩ | ⟨n, fault, -, -, hs⟩ | ⟨n, u, db, -, -, hs⟩ <;>
    rw [hs] <;> exact ⟨rfl, rfl⟩

/-! ## The writes of a turn -/

def isWrite (call : Call) : Bool := writeTools.contains call.name

/-- The writes among the calls that ran, by their signatures. -/
def writesRun (sigs : List String) : Nat := sigs.countP fun sig => writeTools.contains (signatureName sig)

/-- Each batch counts the earlier ones in: it is proposed, or with the writes that ran it
    stays below the threshold. -/
def CountsEarlierWrites (st : Settings) (c : Conf σ) (e : StepEnv σ) : Prop :=
  ∀ decision calls, Decides st c e decision calls → proposes st c calls = false →
    ((writesRun c.st.executedCalls + (fresh st c calls).countP isWrite : Nat) : Int) < st.cfg.writeConfirmThreshold

theorem writesRun_append (l m : List String) : writesRun (l ++ m) = writesRun l + writesRun m := List.countP_append

theorem toolName_plain (t : ToolName) : t.str.toList.all (fun c => decide (c ≠ ':')) = true := by
  cases t <;> rfl

theorem signatureName_callSignature {call : Call} (h : call.name ∈ dispatchableTools) :
    signatureName (callSignature call) = call.name := by
  obtain ⟨tool, -, htool⟩ := List.mem_map.1 h
  have hplain := List.all_eq_true.1 (toolName_plain tool)
  rw [htool] at hplain
  unfold signatureName callSignature
  rw [String.append_assoc, String.toList_append, String.toList_append, List.takeWhile_append_of_pos hplain]
  simp

/-- By their signatures the same calls are writes. -/
theorem writesRun_calls {calls : List Call} (h : ∀ call ∈ calls, call.name ∈ dispatchableTools) :
    writesRun (calls.map callSignature) = calls.countP isWrite := by
  unfold writesRun
  rw [List.countP_map]
  refine List.countP_congr fun call hcall => ?_
  simp [isWrite, signatureName_callSignature (h call hcall)]

/-- The batch about to run stays below the threshold by itself, unless the user approved. -/
def BatchBelow (st : Settings) (c : Conf σ) : Prop :=
  confirmationGiven c.st = false → pending c ≠ [] →
    (((pending c).countP isWrite : Nat) : Int) < st.cfg.writeConfirmThreshold

theorem needsConfirmation_writes {cfg : Config} {calls : List Call} (h : needsConfirmation cfg calls = false) :
    ((calls.countP isWrite : Nat) : Int) < cfg.writeConfirmThreshold := by
  unfold needsConfirmation at h
  split at h
  · cases h
  · rw [List.countP_eq_length_filter]
    exact not_le.mp (of_decide_eq_false h)

theorem batchBelow_superstep {st : Settings} {c : Conf σ} {e : StepEnv σ} (h : BatchBelow st c)
    (hn : RoutedNatively st c e) : BatchBelow st (superstep st c e).1 := by
  obtain ⟨hintent, hprior⟩ := superstep_context st c e
  have hgiven : confirmationGiven (superstep st c e).1.st = confirmationGiven c.st := by
    unfold confirmationGiven; rw [hintent, hprior]
  intro hno hne
  rw [hgiven] at hno
  rcases superstep_cases st c e with ⟨-, hs⟩ | ⟨n, fault, -, -, hs⟩ | ⟨n, u, db, hp, hr, hs⟩
  · rw [hs] at hne ⊢; exact h hno hne
  · rw [hs] at hne; exact absurd rfl hne
  · rw [hs] at hne ⊢
    by_cases hsup : n = .supervisor
    · subst hsup
      rcases supervisor_pending hp hr with ⟨hnone, -⟩ | ⟨decision, calls, hd, hbatch⟩
      · exact absurd hnone hne
      · have hnone : released c e = none := by simp [released, confirming, hno]
        rw [hbatch, batch_native hd hn, hnone] at hne ⊢
        dsimp only at hne ⊢
        cases hprop : proposes st c calls with
        | true => rw [hprop] at hne; exact absurd rfl hne
        | false =>
          rw [if_neg Bool.false_ne_true]
          exact needsConfirmation_writes (by simpa [proposes, confirming, hno] using hprop)
    · exact absurd (worker_records hp hsup hr).2 hne

/-- For every run whose decisions are all the native router's and release no plan: without an
    approval no batch reaches the threshold, and the writes of the whole run stay below it if
    and only if each batch counts the earlier ones in. -/
theorem writes_under_threshold_iff (st : Settings) (t : Turn) (db : σ) (envs : List (StepEnv σ))
    (hnative : Machine.Meets (superstep st) (RoutedNatively st) (start t db) envs)
    (hkept : Machine.Meets (superstep st) (ReleasesNothing st) (start t db) envs)
    (hend : (Machine.final (superstep st) (start t db) envs).place.ended) :
    (∀ ev ∈ Machine.trace (superstep st) (start t db) envs, BatchBelow st ev.pre) ∧
      ((((performed st (start t db) envs).countP isWrite : Nat) : Int) < st.cfg.writeConfirmThreshold ↔
        0 < st.cfg.writeConfirmThreshold ∧
          Machine.Meets (superstep st) (CountsEarlierWrites st) (start t db) envs) := by
  refine ⟨fun ev hev => ?_, ?_⟩
  · obtain ⟨l, m, hops, hpre, -⟩ := (Machine.mem_trace _).mp hev
    rw [hpre]
    rw [hops] at hnative
    exact Machine.final_inv (fun c e h hn => batchBelow_superstep h hn) (fun _ hne => absurd rfl hne)
      ((Machine.meets_append _).mp hnative).1
  have hall := performed_iff (R := fun sigs => ((writesRun sigs : Nat) : Int) < st.cfg.writeConfirmThreshold)
    (C := CountsEarlierWrites st) (H := fun c e => RoutedNatively st c e ∧ ReleasesNothing st c e)
    (J := fun _ => True) ?_ (fun _ _ _ => trivial) ?_ trivial
    (fun ev hev => ⟨hnative ev hev, hkept ev hev⟩) hend
  · rw [show (start t db).st.executedCalls = [] from rfl, List.nil_append,
      writesRun_calls fun call => performed_dispatchable] at hall
    exact hall
  · intro l m h
    rw [writesRun_append] at h
    omega
  · -- one batch, after calls that stay below the threshold
    intro c e _ hH hrun
    obtain ⟨hn, hkeep⟩ := hH
    refine forall_congr' fun decision => forall_congr' fun calls => forall_congr' fun hd => ?_
    have hnone : released c e = none := by
      unfold released
      split
      · rename_i hc; exact hkeep decision calls hd hc
      · rfl
    rw [batch_native hd hn, hnone]
    dsimp only
    cases hp : proposes st c calls with
    | true => simpa using hrun
    | false =>
      have hnames : ∀ call ∈ fresh st c calls, call.name ∈ dispatchableTools := fun call hcall =>
        (native_batch hd hn).1 call (List.mem_of_mem_filter hcall)
      rw [if_neg Bool.false_ne_true, writesRun_append, writesRun_calls hnames]
      exact ⟨fun h _ => h, fun h => h rfl⟩

/-- A message that is no bare affirmation releases nothing. -/
theorem releases_nothing (st : Settings) {t : Turn} (db : σ) (h : isAffirmation t.payload.rawInput = false)
    (envs : List (StepEnv σ)) : Machine.Meets (superstep st) (ReleasesNothing st) (start t db) envs := by
  intro ev hev decision calls _ hc
  obtain ⟨l, m, -, hpre, -⟩ := (Machine.mem_trace _).mp hev
  have hintent : (Machine.final (superstep st) (start t db) l).st.intent = t.payload :=
    Machine.final_inv_of_step (I := fun c => c.st.intent = t.payload)
      (fun c e h => ((superstep_context st c e).1).trans h) rfl l
  rw [hpre] at hc
  simp [confirming, confirmationGiven, hintent, h] at hc

/-- A router that answers natively decides natively. -/
theorem routed_natively {st : Settings} {envs : List (StepEnv σ)} (hst : st.cfg.nativeToolCalling = true)
    (h : ∀ e ∈ envs, ∃ response usage, e.router.native = .ok (.ok response, usage)) (c : Conf σ) :
    Machine.Meets (superstep st) (RoutedNatively st) c envs :=
  Machine.meets_of_ops _ fun e he _ _ _ _ => ⟨hst, h e he⟩

/-- A step whose router answers natively with `response`; everything else works. -/
def calling (response : List Call) : StepEnv (Plans.Key → Plans.Slot (List Call)) :=
  { deciding { nextNode := .localLlm } with
    router := ⟨.ok none, .ok (.ok response, {}), fun _ => .ok (.ok { nextNode := .localLlm }, {})⟩ }

def nativeSettings : Settings := { cfg := { nativeToolCalling := true }, pyd := strict }

/-- A turn whose supervisor steps are answered with these batches, one after the other. -/
def callingTurn (batches : List (List Call)) : List (StepEnv (Plans.Key → Plans.Slot (List Call))) :=
  batches.flatMap (fun response => [calling response, calling []]) ++ List.replicate 3 (calling [])

theorem callingTurn_native {batches : List (List Call)} {e : StepEnv (Plans.Key → Plans.Slot (List Call))}
    (h : e ∈ callingTurn batches) : ∃ response usage, e.router.native = .ok (.ok response, usage) := by
  unfold callingTurn at h
  simp only [List.mem_append, List.mem_flatMap, List.mem_cons, List.not_mem_nil, or_false, List.mem_replicate] at h
  rcases h with ⟨response, -, rfl | rfl⟩ | ⟨-, rfl⟩ <;> exact ⟨_, _, rfl⟩

def newEvent (summary : String) : Call := ⟨"create_calendar_event", [("summary", .str summary)]⟩

def newNote (filename : String) : Call :=
  ⟨"write_user_note", [("filename", .str filename), ("content", .str "bring boots")]⟩

def scheduleRequest : Turn :=
  { payload := { rawInput := "add the games and a packing note", chatId := some "chat" }, userId := "u1" }

/-- Two games in one step, two notes in the next. -/
def spreadWrites : List (StepEnv (Plans.Key → Plans.Slot (List Call))) :=
  callingTurn [[newEvent "Lions", newEvent "Bears"], [newNote "lions.md", newNote "bears.md"]]

theorem writes_under_threshold_iff_spread :
    (∀ ev ∈ Machine.trace (superstep nativeSettings) (start scheduleRequest emptyDb) spreadWrites,
        BatchBelow nativeSettings ev.pre) ∧
      ((((performed nativeSettings (start scheduleRequest emptyDb) spreadWrites).countP isWrite : Nat) : Int) < 3 ↔
        (0 : Int) < 3 ∧ Machine.Meets (superstep nativeSettings) (CountsEarlierWrites nativeSettings)
          (start scheduleRequest emptyDb) spreadWrites) :=
  writes_under_threshold_iff nativeSettings scheduleRequest emptyDb spreadWrites
    (routed_natively rfl (fun _ => callingTurn_native) _) (releases_nothing _ _ (by decide +kernel) _)
    (by rw [show (Machine.final (superstep nativeSettings) (start scheduleRequest emptyDb) spreadWrites).place = .finished
      by decide +kernel]; trivial)

/-- Four writes run in one turn, two a step, and none is shown to the user first. -/
theorem two_batches_reach_the_threshold :
    Machine.Meets (superstep nativeSettings) (RoutedNatively nativeSettings) (start scheduleRequest emptyDb) spreadWrites ∧
      Machine.Meets (superstep nativeSettings) (ReleasesNothing nativeSettings) (start scheduleRequest emptyDb)
        spreadWrites ∧
      (Machine.final (superstep nativeSettings) (start scheduleRequest emptyDb) spreadWrites).place = .finished ∧
      ¬ (((performed nativeSettings (start scheduleRequest emptyDb) spreadWrites).countP isWrite : Nat) : Int) < 3 :=
  ⟨routed_natively rfl (fun _ => callingTurn_native) _, releases_nothing _ _ (by decide +kernel) _, by decide +kernel,
    by decide +kernel⟩

/-! ## Calls that run twice -/

/-- No batch repeats a call inside itself, nor does a plan that is released. -/
def RepeatsNoCall (st : Settings) (c : Conf σ) (e : StepEnv σ) : Prop :=
  ∀ decision calls, Decides st c e decision calls →
    match released c e with
    | some plan => ((plan.filter fun call => dispatchableTools.contains call.name).map callSignature).Nodup
    | none => proposes st c calls = false → ((fresh st c calls).map callSignature).Nodup

def RecordsWhatRan (c : Conf σ) : Prop := .toolExecution ∉ c.st.visited → c.st.executedCalls = []

theorem recordsWhatRan_superstep (st : Settings) (c : Conf σ) (e : StepEnv σ) (h : RecordsWhatRan c) :
    RecordsWhatRan (superstep st c e).1 := by
  rcases superstep_cases st c e with ⟨-, hs⟩ | ⟨n, fault, -, -, hs⟩ | ⟨n, u, db, hp, hr, hs⟩
  · rw [hs]; exact h
  · rw [hs]; exact h
  · rw [hs]
    intro hv
    have hv' : Node.toolExecution ∉ c.st.visited ∧ Node.toolExecution ∉ u.visited := by
      simpa [Conf.after, GraphState.apply] using hv
    show c.st.executedCalls ++ u.executedCalls = []
    rw [h hv'.1, List.nil_append]
    cases n with
    | supervisor => exact supervisor_records hr
    | localLlm => obtain ⟨text, usage, rfl⟩ := localLlm_update (runNode_worker hr).1; rfl
    | toolExecution =>
      obtain ⟨messages, executedCalls, rfl⟩ := toolExecution_update (runNode_worker hr).1
      exact absurd (List.mem_singleton_self _) hv'.2

/-- A run that reaches END has recorded what it performed. -/
theorem executedCalls_finished {st : Settings} {c : Conf σ} {envs : List (StepEnv σ)}
    (hend : (Machine.final (superstep st) c envs).place = .finished) :
    (Machine.final (superstep st) c envs).st.executedCalls =
      c.st.executedCalls ++ (performed st c envs).map callSignature := by
  induction envs generalizing c with
  | nil => simp [performed]
  | cons e envs ih =>
    rw [Machine.final_cons, ih hend, performed_cons, List.map_append, ← List.append_assoc]
    congr 1
    show (superstep st c e).1.st.executedCalls = _
    rcases superstep_cases st c e with ⟨hended, hs⟩ | ⟨n, fault, hp, -, hs⟩ | ⟨n, u, db, hp, hr, hs⟩
    · rw [hs, pending_ended hended]; simp
    · rw [Machine.final_cons, final_ended st (by rw [hs]; trivial), hs] at hend
      cases hend
    · rw [hs]
      by_cases hn : n = .supervisor
      · subst hn
        simp [pending, hp, Conf.after, GraphState.apply, supervisor_records hr]
      · exact (worker_records hp hn hr).1

/-- For every run whose decisions are all the native router's: no call signature is recorded
    twice if and only if no batch repeats a call inside itself. -/
theorem no_call_twice_iff (st : Settings) (t : Turn) (db : σ) (envs : List (StepEnv σ))
    (hnative : Machine.Meets (superstep st) (RoutedNatively st) (start t db) envs)
    (hend : (Machine.final (superstep st) (start t db) envs).place = .finished) :
    (Machine.final (superstep st) (start t db) envs).st.executedCalls.Nodup ↔
      Machine.Meets (superstep st) (RepeatsNoCall st) (start t db) envs := by
  have hall := performed_iff (R := List.Nodup) (C := RepeatsNoCall st) (H := RoutedNatively st) (J := RecordsWhatRan)
    (fun l m h => (List.nodup_append.mp h).1) (recordsWhatRan_superstep st) ?_
    (c := start t db) (fun _ => rfl) hnative (by rw [hend]; trivial)
  · have hfirst : (start t db).st.executedCalls ++ (pending (start t db)).map callSignature = [] := rfl
    rw [executedCalls_finished hend, hall, hfirst]
    exact and_iff_right List.nodup_nil
  · intro c e hran hn hrun
    refine forall_congr' fun decision => forall_congr' fun calls => forall_congr' fun hd => ?_
    rw [batch_native hd hn]
    cases hrel : released c e with
    | some plan =>
      -- an approval is honoured before anything has run
      have hnothing : c.st.executedCalls = [] := by
        refine hran fun hv => ?_
        unfold released confirming toolsRan at hrel
        simp [hv] at hrel
      rw [hnothing, List.nil_append]
    | none =>
      dsimp only
      cases hp : proposes st c calls with
      | true => simpa using hrun
      | false =>
        rw [if_neg Bool.false_ne_true, List.nodup_append]
        refine ⟨fun h _ => h.2.1, fun h => ⟨hrun, h rfl, fun sig hsig sig' hsig' heq => ?_⟩⟩
        -- the repeat-call guard has dropped what ran
        obtain ⟨call, hcall, rfl⟩ := List.mem_map.mp hsig'
        have hkept := (List.mem_filter.mp hcall).2
        rw [heq] at hsig
        simp [hsig] at hkept

theorem no_call_twice_iff_spread :
    (Machine.final (superstep nativeSettings) (start scheduleRequest emptyDb) spreadWrites).st.executedCalls.Nodup ↔
      Machine.Meets (superstep nativeSettings) (RepeatsNoCall nativeSettings) (start scheduleRequest emptyDb) spreadWrites :=
  no_call_twice_iff nativeSettings scheduleRequest emptyDb spreadWrites
    (routed_natively rfl (fun _ => callingTurn_native) _) (by decide +kernel)

/-- The router names the same event twice in one batch, and it is created twice. -/
theorem a_doubled_call_runs_twice :
    Machine.Meets (superstep nativeSettings) (RoutedNatively nativeSettings) (start scheduleRequest emptyDb)
        (callingTurn [[newEvent "Lions", newEvent "Lions"]]) ∧
      (Machine.final (superstep nativeSettings) (start scheduleRequest emptyDb)
        (callingTurn [[newEvent "Lions", newEvent "Lions"]])).place = .finished ∧
      ¬ (Machine.final (superstep nativeSettings) (start scheduleRequest emptyDb)
        (callingTurn [[newEvent "Lions", newEvent "Lions"]])).st.executedCalls.Nodup :=
  ⟨routed_natively rfl (fun _ => callingTurn_native) _, by decide +kernel, by decide +kernel⟩

end CoreHeartbeat.Graph
