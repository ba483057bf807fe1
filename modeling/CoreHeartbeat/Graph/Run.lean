/-
  CoreHeartbeat.Graph.Run — one turn: the compiled graph run from `_initial_state`
  (`build_graph`, `route`, `run`).

  A superstep executes the node the run stands at and applies its update; the supervisor's
  `next` picks the node after it, the workers hand back to the supervisor, `finish` is END. An
  exception that a node lets out ends the run. The run of `n` supersteps is `Machine.final` of
  `superstep` over the environments of its node executions, so an invariant is proved of one
  superstep and holds of every run.

  The step channel counts supervisors and workers alike, and the supervisor's first guard stops
  at `MAX_STEPS`. The graph library has a bound of its own (`RECURSION_LIMIT`), which raises.
  `Phase` is the invariant: by the place of the run, the parity and the bound of its step,
  whether the answer is composed, and whether the step bound cut the turn.

  Proved, whatever the router, the tools and the workers do:
  - `run_bounded`: a run is over after `maxSteps + 3` node executions, counts its steps truly
    and composes at most once; exactly once when it reaches END and every consulted router
    routed to a worker; and the library's bound is never met.
  - `halted_truthful_iff`: the final status tells a cut turn from a finished one in exactly the
    runs that never compose on the last step below the bound.
  - `a_full_turn_reports_halted`: three tool steps and the answer its router chose, and the turn
    reports that the step bound cut it.
-/

import CoreHeartbeat.Graph.Nodes
import CoreHeartbeat.Lib.Machine

namespace CoreHeartbeat.Graph

inductive GraphNode where
  | supervisor
  | localLlm
  | toolExecution
  deriving DecidableEq, Repr

inductive Place where
  | at (n : GraphNode)
  | finished
  | raised (fault : Fault)
  deriving DecidableEq, Repr

structure Turn where
  payload : IntentPayload
  userId : String
  documents : String := ""
  documentImages : List Image := []

structure Conf (σ : Type) where
  place : Place
  st : GraphState
  db : σ
  /-- The nodes executed so far. -/
  executed : List GraphNode

variable {σ : Type}

def start (t : Turn) (db : σ) : Conf σ :=
  ⟨.at .supervisor, initialState t.payload t.userId t.documents t.documentImages, db, []⟩

/-- `route` and the conditional edges. -/
def Place.ofNext : Option Node → Place
  | some .localLlm => .at .localLlm
  | some .toolExecution => .at .toolExecution
  | some .finish => .finished
  | none => .raised "KeyError"

theorem Place.ofNext_worker (n : Option Node) : Place.ofNext n ≠ .at .supervisor := by
  rcases n with _ | _ | _ | _ <;> simp [Place.ofNext]

def runNode (st : Settings) (e : StepEnv σ) (n : GraphNode) (s : GraphState) (db : σ) : Except Fault (Update × σ) :=
  match n with
  | .supervisor => supervisor st e s db
  | .localLlm => (localLlm st e s).map fun u => (u, db)
  | .toolExecution => (toolExecution e s).map fun u => (u, db)

/-- The run after `n` returned `u`. -/
def Conf.after (c : Conf σ) (n : GraphNode) (u : Update) (db : σ) : Conf σ where
  place := if n = .supervisor then Place.ofNext (c.st.apply u).next else .at .supervisor
  st := c.st.apply u
  db := db
  executed := c.executed ++ [n]

def superstep (st : Settings) (c : Conf σ) (e : StepEnv σ) : Conf σ × Option Update :=
  match c.place with
  | .at n =>
    match runNode st e n c.st c.db with
    | .ok (u, db) => (c.after n u db, some u)
    | .error fault => ({ c with place := .raised fault }, none)
  | .finished | .raised _ => (c, none)

inductive Invoked where
  | final (s : GraphState)
  | raised (fault : Fault)
  | recursionError

/-- `graph.ainvoke` with `RECURSION_LIMIT`. -/
def invoke (st : Settings) (c : Conf σ) (envs : List (StepEnv σ)) : Invoked :=
  let c := Machine.final (superstep st) c (envs.take recursionLimit)
  match c.place with
  | .finished => .final c.st
  | .raised fault => .raised fault
  | .at _ => .recursionError

def Place.ended : Place → Prop
  | .at _ => False
  | .finished | .raised _ => True

/-! ## Where a run can stand -/

/-- By place: the parity of the step, its bound, whether the answer is composed, and
    whether the step bound cut the turn. -/
def Phase (c : Conf σ) : Prop :=
  match c.place with
  | .at .supervisor =>
    c.st.step % 2 = 0 ∧
      ((.localLlm ∉ c.st.visited ∧ c.st.truncated = false ∧ c.st.step ≤ maxSteps) ∨
        (.localLlm ∈ c.st.visited ∧ c.st.step ≤ maxSteps + 2 ∧ (c.st.truncated = true ↔ c.st.step = maxSteps + 2)))
  | .at .toolExecution =>
    c.st.step % 2 = 1 ∧ .localLlm ∉ c.st.visited ∧ c.st.truncated = false ∧ c.st.step < maxSteps
  | .at .localLlm =>
    c.st.step % 2 = 1 ∧ .localLlm ∉ c.st.visited ∧ c.st.step ≤ maxSteps + 1 ∧
      (c.st.truncated = true ↔ c.st.step = maxSteps + 1)
  | .finished =>
    c.st.step ≤ maxSteps + 3 ∧
      ((.localLlm ∉ c.st.visited ∧ c.st.truncated = false ∧ c.st.status ≠ some .haltedStepBound) ∨
        (.localLlm ∈ c.st.visited ∧ c.st.truncated = true ∧ c.st.status = some .haltedStepBound ∧
          c.st.step = maxSteps + 3) ∨
        (.localLlm ∈ c.st.visited ∧ c.st.truncated = false ∧
          (c.st.step < maxSteps ∧ c.st.status = some .completed ∨
            c.st.step = maxSteps + 1 ∧ c.st.status = some .haltedStepBound)))
  | .raised _ => c.st.step ≤ maxSteps + 2

structure Inv (c : Conf σ) : Prop where
  counted : c.st.step = c.executed.length
  once : c.executed.count .localLlm = if .localLlm ∈ c.st.visited then 1 else 0
  phase : Phase c

theorem inv_start (t : Turn) (db : σ) : Inv (start t db) where
  counted := rfl
  once := rfl
  phase := ⟨rfl, Or.inl ⟨by simp [start, initialState], rfl, by simp [start, initialState]⟩⟩

theorem Phase.step_le {c : Conf σ} {n : GraphNode} (h : Phase c) (hn : c.place = .at n) : c.st.step ≤ maxSteps + 2 := by
  unfold Phase at h
  rw [hn] at h
  cases n <;> simp only at h <;> omega

theorem Phase.bounded {c : Conf σ} (h : Phase c) : c.st.step ≤ maxSteps + 3 := by
  cases hp : c.place with
  | «at» n => have := h.step_le hp; omega
  | finished => simp only [Phase, hp] at h; exact h.1
  | raised fault => simp only [Phase, hp] at h; omega

/-! ## What one superstep preserves -/

/-- Every way out of the supervisor counts one step and visits nothing. -/
theorem supervisor_counts {st : Settings} {e : StepEnv σ} {s : GraphState} {db db' : σ} {u : Update}
    (h : supervisor st e s db = .ok (u, db')) : u.step = 1 ∧ u.visited = [] := by
  rcases supervisor_cases h with ⟨-, rfl, -⟩ | ⟨-, -, rfl, -⟩ | ⟨-, -, -, failure, usage, -, rfl⟩ |
    ⟨-, -, decision, usage, calls, canned, d, -, -, rfl⟩
  · unfold stepBound
    split <;> exact ⟨rfl, rfl⟩
  all_goals exact ⟨rfl, rfl⟩

theorem phase_supervisor {st : Settings} {e : StepEnv σ} {c : Conf σ} {u : Update} {db : σ} (h : Inv c)
    (hp : c.place = .at .supervisor) (hu : supervisor st e c.st c.db = .ok (u, db)) :
    Phase (c.after .supervisor u db) := by
  have hphase := h.phase
  simp only [Phase, hp, maxSteps] at hphase
  obtain ⟨hpar, hphase⟩ := hphase
  rcases supervisor_cases hu with ⟨hb, rfl, rfl⟩ | ⟨hb, hv, rfl, rfl⟩ | ⟨hb, hv, rfl, failure, usage, -, rfl⟩ |
    ⟨hb, hv, decision, usage, calls, canned, d, -, -, rfl⟩
  · -- the step bound: compose once, then finish
    simp only [maxSteps] at hb
    by_cases hv : Node.localLlm ∈ c.st.visited
    · simp only [hv, not_true_eq_false, false_and, true_and, false_or] at hphase
      simp only [Phase, Conf.after, stepBound, hv, GraphState.apply, Place.ofNext, maxSteps, not_true_eq_false, if_true,
        if_false, Option.some_or, Option.getD_none, List.append_nil, false_and, true_and, false_or, and_true]
      cases ht : c.st.truncated <;> simp only [ht] at hphase ⊢ <;> simp at hphase ⊢ <;> omega
    · simp only [hv, not_false_eq_true, false_and, true_and, or_false] at hphase
      simp only [Phase, Conf.after, stepBound, hv, GraphState.apply, Place.ofNext, maxSteps, not_false_eq_true, if_true,
        Option.some_or, Option.getD_some, List.append_nil, true_and, true_iff]
      omega
  · -- the fast path
    simp only [maxSteps] at hb
    simp only [hv, not_true_eq_false, false_and, true_and, false_or] at hphase
    have ht : c.st.truncated = false := by
      cases ht : c.st.truncated with
      | false => rfl
      | true => have := hphase.2.mp ht; omega
    simp only [Phase, Conf.after, fastPath, hv, ht, GraphState.apply, Place.ofNext, maxSteps, if_true, Option.some_or,
      Option.getD_none, List.append_nil]
    refine ⟨by omega, Or.inr (Or.inr ⟨trivial, trivial, Or.inl ⟨by omega, trivial⟩⟩)⟩
  · -- a routing failure
    simp only [hv, not_false_eq_true, false_and, true_and, or_false] at hphase
    simp only [Phase, Conf.after, degraded, hv, hphase.1, GraphState.apply, Place.ofNext, maxSteps, if_true,
      Option.some_or, Option.getD_none, List.append_nil]
    refine ⟨by omega, Or.inl ⟨not_false, trivial, by simp⟩⟩
  · -- a decision
    simp only [maxSteps] at hb
    simp only [hv, not_false_eq_true, false_and, true_and, or_false] at hphase
    cases hn : d.nxt <;>
      simp only [Phase, Conf.after, draftUpdate, hn, hv, hphase.1, GraphState.apply, Place.ofNext, maxSteps, if_true,
        Option.some_or, Option.getD_none, List.append_nil]
    case localLlm => exact ⟨by omega, not_false, by omega, by simp; omega⟩
    case toolExecution => exact ⟨by omega, not_false, trivial, by omega⟩
    case finish => exact ⟨by omega, Or.inl ⟨not_false, trivial, by simp⟩⟩

theorem inv_supervisor {st : Settings} {e : StepEnv σ} {c : Conf σ} {u : Update} {db : σ} (h : Inv c)
    (hp : c.place = .at .supervisor) (hu : supervisor st e c.st c.db = .ok (u, db)) :
    Inv (c.after .supervisor u db) := by
  obtain ⟨hstep, hvisited⟩ := supervisor_counts hu
  refine ⟨?_, ?_, phase_supervisor h hp hu⟩
  · show c.st.step + u.step = (c.executed ++ [GraphNode.supervisor]).length
    rw [hstep, h.counted, List.length_append]; rfl
  · show (c.executed ++ [GraphNode.supervisor]).count .localLlm = if .localLlm ∈ c.st.visited ++ u.visited then 1 else 0
    rw [hvisited, List.append_nil, ← h.once, List.count_append]; rfl

theorem inv_localLlm {st : Settings} {e : StepEnv σ} {c : Conf σ} {u : Update} {db : σ} (h : Inv c)
    (hp : c.place = .at .localLlm) (hu : localLlm st e c.st = .ok u) : Inv (c.after .localLlm u db) := by
  have hphase := h.phase
  simp only [Phase, hp, maxSteps] at hphase
  obtain ⟨hpar, hv, hle, hcut⟩ := hphase
  obtain ⟨text, usage, rfl⟩ := localLlm_update hu
  have honce := h.once
  rw [if_neg hv] at honce
  refine ⟨?_, ?_, ?_⟩
  · show c.st.step + 1 = (c.executed ++ [GraphNode.localLlm]).length
    rw [h.counted, List.length_append]; rfl
  · show (c.executed ++ [GraphNode.localLlm]).count .localLlm =
        if .localLlm ∈ c.st.visited ++ [Node.localLlm] then 1 else 0
    rw [List.count_append, honce, if_pos (by simp)]; rfl
  · show (c.st.step + 1) % 2 = 0 ∧ _
    refine ⟨by omega, Or.inr ⟨by simp [replied, Conf.after, GraphState.apply], ?_, ?_⟩⟩
    · show c.st.step + 1 ≤ 8 + 2
      omega
    · show c.st.truncated = true ↔ c.st.step + 1 = 8 + 2
      rw [hcut]; omega

theorem inv_toolExecution {e : StepEnv σ} {c : Conf σ} {u : Update} {db : σ} (h : Inv c)
    (hp : c.place = .at .toolExecution) (hu : toolExecution e c.st = .ok u) : Inv (c.after .toolExecution u db) := by
  have hphase := h.phase
  simp only [Phase, hp, maxSteps] at hphase
  obtain ⟨hpar, hv, ht, hlt⟩ := hphase
  obtain ⟨messages, executedCalls, rfl⟩ := toolExecution_update hu
  have hv' : Node.localLlm ∉ c.st.visited ++ [Node.toolExecution] := by simp [hv]
  refine ⟨?_, ?_, ?_⟩
  · show c.st.step + 1 = (c.executed ++ [GraphNode.toolExecution]).length
    rw [h.counted, List.length_append]; rfl
  · show (c.executed ++ [GraphNode.toolExecution]).count .localLlm =
      if .localLlm ∈ c.st.visited ++ [Node.toolExecution] then 1 else 0
    have honce := h.once
    rw [if_neg hv] at honce
    rw [if_neg hv', List.count_append, honce]; rfl
  · show (c.st.step + 1) % 2 = 0 ∧ _
    refine ⟨by omega, Or.inl ⟨hv', ht, ?_⟩⟩
    show c.st.step + 1 ≤ 8
    omega

theorem superstep_cases (st : Settings) (c : Conf σ) (e : StepEnv σ) :
    (c.place.ended ∧ superstep st c e = (c, none)) ∨
    (∃ n fault, c.place = .at n ∧ runNode st e n c.st c.db = .error fault ∧
      superstep st c e = ({ c with place := .raised fault }, none)) ∨
    (∃ n u db, c.place = .at n ∧ runNode st e n c.st c.db = .ok (u, db) ∧
      superstep st c e = (c.after n u db, some u)) := by
  unfold superstep
  cases hp : c.place with
  | finished => exact Or.inl ⟨trivial, rfl⟩
  | raised fault => exact Or.inl ⟨trivial, rfl⟩
  | «at» n =>
    cases hr : runNode st e n c.st c.db with
    | error fault => exact Or.inr (Or.inl ⟨n, fault, rfl, hr, by simp only [hr]⟩)
    | ok r => exact Or.inr (Or.inr ⟨n, r.1, r.2, rfl, hr, by simp only [hr]⟩)

theorem runNode_worker {db db' : σ} {u : Update} {node : Except Fault Update}
    (h : node.map (fun u => (u, db)) = .ok (u, db')) : node = .ok u ∧ db' = db := by
  cases node with
  | error fault => cases h
  | ok v =>
    simp only [Except.map, Except.ok.injEq, Prod.mk.injEq] at h
    exact ⟨by rw [h.1], h.2.symm⟩

theorem inv_superstep (st : Settings) (c : Conf σ) (e : StepEnv σ) (h : Inv c) : Inv (superstep st c e).1 := by
  rcases superstep_cases st c e with ⟨-, hs⟩ | ⟨n, fault, hp, -, hs⟩ | ⟨n, u, db, hp, hr, hs⟩
  · rw [hs]; exact h
  · rw [hs]; exact ⟨h.counted, h.once, h.phase.step_le hp⟩
  · rw [hs]
    cases n with
    | supervisor => exact inv_supervisor h hp hr
    | localLlm => exact inv_localLlm h hp (runNode_worker hr).1
    | toolExecution => exact inv_toolExecution h hp (runNode_worker hr).1

/-! ## Whole runs -/

theorem inv_run (st : Settings) (t : Turn) (db : σ) (envs : List (StepEnv σ)) :
    Inv (Machine.final (superstep st) (start t db) envs) :=
  Machine.final_inv_of_step (inv_superstep st) (inv_start t db) envs

theorem superstep_ended (st : Settings) {c : Conf σ} (h : c.place.ended) (e : StepEnv σ) : (superstep st c e).1 = c := by
  rcases superstep_cases st c e with ⟨-, hs⟩ | ⟨n, fault, hp, -, -⟩ | ⟨n, u, db, hp, -, -⟩
  · rw [hs]
  · rw [hp] at h; exact h.elim
  · rw [hp] at h; exact h.elim

theorem final_ended (st : Settings) {c : Conf σ} (h : c.place.ended) (envs : List (StepEnv σ)) :
    Machine.final (superstep st) c envs = c :=
  Machine.final_of_fixed (superstep_ended st h) envs

/-- A run that is not over has executed one node per superstep. -/
theorem ended_or_executed (st : Settings) (c : Conf σ) (envs : List (StepEnv σ)) :
    (Machine.final (superstep st) c envs).place.ended ∨
      (Machine.final (superstep st) c envs).executed.length = c.executed.length + envs.length := by
  induction envs generalizing c with
  | nil => exact Or.inr rfl
  | cons e envs ih =>
    rw [Machine.final_cons]
    rcases superstep_cases st c e with ⟨hend, hs⟩ | ⟨n, fault, -, -, hs⟩ | ⟨n, u, db, -, -, hs⟩
    · left; rw [hs, final_ended st hend]; exact hend
    · left; rw [hs, final_ended st (c := { c with place := .raised fault }) trivial]; trivial
    · rcases ih (superstep st c e).1 with h | h
      · exact Or.inl h
      · right
        rw [h, hs]
        simp only [Conf.after, List.length_append, List.length_cons, List.length_nil]
        omega

/-- Past `maxSteps + 3` supersteps a run is over. -/
theorem ended_of_length (st : Settings) (t : Turn) (db : σ) {envs : List (StepEnv σ)} (h : maxSteps + 3 ≤ envs.length) :
    (Machine.final (superstep st) (start t db) envs).place.ended := by
  rcases ended_or_executed st (start t db) envs with hend | hexec
  · exact hend
  · have hinv := inv_run st t db envs
    cases hp : (Machine.final (superstep st) (start t db) envs).place with
    | «at» n =>
      have hle := hinv.phase.step_le hp
      have hlen : (start t db).executed.length = 0 := rfl
      rw [hinv.counted, hexec, hlen] at hle
      omega
    | finished => trivial
    | raised fault => trivial

/-- A router that the supervisor consults sends the run to a worker. -/
def RoutesToWorker (st : Settings) (c : Conf σ) (e : StepEnv σ) : Prop :=
  c.place = .at .supervisor → answeredBefore c.st = none →
    ∃ decision usage calls, consult st e.router = .ok (.decided decision usage calls) ∧ decision.nextNode ≠ .finish

/-- The supervisor goes to END after a reply, unless its router says so or fails. -/
theorem supervisor_finishes {st : Settings} {e : StepEnv σ} {c : Conf σ} {u : Update} {db : σ}
    (hu : supervisor st e c.st c.db = .ok (u, db))
    (hroute : answeredBefore c.st = none →
      ∃ decision usage calls, consult st e.router = .ok (.decided decision usage calls) ∧ decision.nextNode ≠ .finish)
    (hfin : (c.after .supervisor u db).place = .finished) : .localLlm ∈ c.st.visited := by
  rcases supervisor_cases hu with ⟨hb, rfl, rfl⟩ | ⟨hb, hv, -⟩ | ⟨hb, hv, rfl, failure, usage, hc, rfl⟩ |
    ⟨hb, hv, decision, usage, calls, canned, d, hc, hd, rfl⟩
  · by_contra hv
    simp [Conf.after, stepBound, hv, GraphState.apply, Place.ofNext] at hfin
  · exact hv
  · obtain ⟨decision, usage', calls, hc', -⟩ := hroute (answeredBefore_eq_none_iff.mpr ⟨hb, hv⟩)
    rw [hc] at hc'; cases hc'
  · obtain ⟨decision', usage', calls', hc', hnext⟩ := hroute (answeredBefore_eq_none_iff.mpr ⟨hb, hv⟩)
    rw [hc] at hc'; cases hc'
    have hnxt : d.nxt = .finish := by
      cases hn : d.nxt <;> simp [Conf.after, draftUpdate, GraphState.apply, Place.ofNext, hn] at hfin ⊢
    exact absurd (writeGate_finish hd hnxt) hnext

/-- If every consulted router routes to a worker, only a composed answer leads to END. -/
theorem composed_of_routed (st : Settings) (t : Turn) (db : σ) {envs : List (StepEnv σ)}
    (hr : Machine.Meets (superstep st) (RoutesToWorker st) (start t db) envs)
    (hend : (Machine.final (superstep st) (start t db) envs).place = .finished) :
    .localLlm ∈ (Machine.final (superstep st) (start t db) envs).st.visited := by
  refine Machine.final_inv (I := fun c => c.place = .finished → .localLlm ∈ c.st.visited) ?_ ?_ hr hend
  · intro c e hc hroute
    rcases superstep_cases st c e with ⟨-, hs⟩ | ⟨n, fault, hp, -, hs⟩ | ⟨n, u, db, hp, hrun, hs⟩
    · rw [hs]; exact hc
    · rw [hs]; intro h; cases h
    · rw [hs]
      intro hfin
      cases n with
      | localLlm => cases hfin
      | toolExecution => cases hfin
      | supervisor => exact List.mem_append_left _ (supervisor_finishes hrun (hroute hp) hfin)
  · intro h; cases h

/-- Termination, the step count and the single composition, over every run. -/
theorem run_bounded (st : Settings) (t : Turn) (db : σ) (envs : List (StepEnv σ)) :
    (maxSteps + 3 ≤ envs.length → (Machine.final (superstep st) (start t db) envs).place.ended) ∧
      (Machine.final (superstep st) (start t db) envs).executed.length ≤ maxSteps + 3 ∧
      (Machine.final (superstep st) (start t db) envs).st.step =
        (Machine.final (superstep st) (start t db) envs).executed.length ∧
      (Machine.final (superstep st) (start t db) envs).executed.count .localLlm ≤ 1 ∧
      ((Machine.final (superstep st) (start t db) envs).place = .finished →
        Machine.Meets (superstep st) (RoutesToWorker st) (start t db) envs →
        (Machine.final (superstep st) (start t db) envs).executed.count .localLlm = 1) ∧
      (recursionLimit ≤ envs.length → invoke st (start t db) envs ≠ .recursionError) := by
  have hinv := inv_run st t db envs
  refine ⟨ended_of_length st t db, ?_, hinv.counted, ?_, fun hend hr => ?_, fun hlen => ?_⟩
  · rw [← hinv.counted]
    exact hinv.phase.bounded
  · rw [hinv.once]
    split <;> omega
  · rw [hinv.once, if_pos (composed_of_routed st t db hr hend)]
  · have hlen' : maxSteps + 3 ≤ (envs.take recursionLimit).length := by
      rw [List.length_take, Nat.min_eq_left hlen]; decide
    have hend := ended_of_length st t db hlen'
    unfold invoke
    cases hp : (Machine.final (superstep st) (start t db) (envs.take recursionLimit)).place with
    | «at» n => rw [hp] at hend; exact hend.elim
    | finished => simp [hp]
    | raised fault => simp [hp]

/-! ## The halted status -/

/-- The final status says "halted" for a turn that the step bound cut, and "completed" for
    one that composed with nothing cut. -/
def HaltedTruthful (s : GraphState) : Prop :=
  (s.status = some .haltedStepBound ↔ s.truncated = true) ∧
    (.localLlm ∈ s.visited → s.truncated = false → s.status = some .completed)

/-- `local_llm` is about to run on the last step below the bound: the supervisor after it
    meets the bound before the fast path. -/
def ComposesAtBound (c : Conf σ) (_ : StepEnv σ) : Prop := c.place = .at .localLlm ∧ c.st.step + 1 = maxSteps

/-- What follows a composition at the bound. -/
def PastBound (c : Conf σ) : Prop :=
  (c.place = .at .localLlm ∧ c.st.step + 1 = maxSteps) ∨
    (c.place = .at .supervisor ∧ c.st.step = maxSteps ∧ .localLlm ∈ c.st.visited) ∨
    (c.place = .finished ∧ c.st.step = maxSteps + 1 ∧ .localLlm ∈ c.st.visited) ∨
    (∃ fault, c.place = .raised fault)

theorem pastBound_superstep (st : Settings) (c : Conf σ) (e : StepEnv σ) (h : PastBound c) :
    PastBound (superstep st c e).1 := by
  rcases superstep_cases st c e with ⟨-, hs⟩ | ⟨n, fault, -, -, hs⟩ | ⟨n, u, db, hp, hrun, hs⟩
  · rw [hs]; exact h
  · rw [hs]; exact Or.inr (Or.inr (Or.inr ⟨fault, rfl⟩))
  · rw [hs]
    rcases h with ⟨hp', hstep⟩ | ⟨hp', hstep, hv⟩ | ⟨hp', -, -⟩ | ⟨fault, hp'⟩ <;> rw [hp] at hp' <;> cases hp'
    · obtain ⟨text, usage, rfl⟩ := localLlm_update (runNode_worker hrun).1
      exact Or.inr (Or.inl ⟨rfl, hstep, List.mem_append_right _ (List.mem_singleton_self _)⟩)
    · rcases supervisor_cases hrun with ⟨-, rfl, -⟩ | ⟨hb, -⟩ | ⟨hb, -⟩ | ⟨hb, -⟩
      · refine Or.inr (Or.inr (Or.inl ⟨?_, ?_, ?_⟩)) <;>
          simp [Conf.after, stepBound, hv, GraphState.apply, Place.ofNext, hstep]
      all_goals omega

/-- The supervisor meets the bound with an uncut answer only after a composition at it. -/
def BeforeBound (c : Conf σ) : Prop :=
  .localLlm ∈ c.st.visited → (c.place = .at .supervisor → c.st.step ≠ maxSteps) ∧
    (c.place = .finished → c.st.step ≠ maxSteps + 1)

theorem beforeBound_superstep (st : Settings) (c : Conf σ) (e : StepEnv σ) (hinv : Inv c) (h : BeforeBound c)
    (hC : ¬ ComposesAtBound c e) : BeforeBound (superstep st c e).1 := by
  rcases superstep_cases st c e with ⟨-, hs⟩ | ⟨n, fault, hp, -, hs⟩ | ⟨n, u, db, hp, hrun, hs⟩
  · rw [hs]; exact h
  · rw [hs]; intro _; exact ⟨nofun, nofun⟩
  · rw [hs]
    intro hv
    have hphase := hinv.phase
    simp only [Phase, hp] at hphase
    cases n with
    | localLlm =>
      obtain ⟨text, usage, rfl⟩ := localLlm_update (runNode_worker hrun).1
      exact ⟨fun _ hstep => hC ⟨hp, hstep⟩, nofun⟩
    | toolExecution =>
      obtain ⟨messages, executedCalls, rfl⟩ := toolExecution_update (runNode_worker hrun).1
      have hv' : Node.localLlm ∈ c.st.visited ++ [Node.toolExecution] := hv
      exact absurd hv' (by simp [hphase.2.1])
    | supervisor =>
      have hu := supervisor_counts hrun
      have hv' : Node.localLlm ∈ c.st.visited := by simpa [Conf.after, GraphState.apply, hu.2] using hv
      refine ⟨fun hp' => ?_, fun _ hstep => ?_⟩
      · exact absurd hp' (Place.ofNext_worker _)
      · have hstep' : c.st.step + u.step = maxSteps + 1 := hstep
        exact (h hv').1 hp (by omega)

/-- A run that reaches END reports its halts truthfully if and only if it never composes on
    the last step below the bound. -/
theorem halted_truthful_iff (st : Settings) (t : Turn) (db : σ) (envs : List (StepEnv σ))
    (hend : (Machine.final (superstep st) (start t db) envs).place = .finished) :
    HaltedTruthful (Machine.final (superstep st) (start t db) envs).st ↔
      Machine.Meets (superstep st) (fun c e => ¬ ComposesAtBound c e) (start t db) envs := by
  have hphase := (inv_run st t db envs).phase
  simp only [Phase, hend] at hphase
  constructor
  · intro htrue ev hev hbound
    obtain ⟨l, m, hops, hpre, -⟩ := (Machine.mem_trace _).mp hev
    have hpast : PastBound (Machine.final (superstep st) (start t db) envs) := by
      rw [hops, Machine.final_append, ← hpre]
      exact Machine.final_inv_of_step (pastBound_superstep st) (Or.inl hbound) _
    rcases hpast with ⟨hp, -⟩ | ⟨hp, -⟩ | ⟨-, hstep, hv⟩ | ⟨fault, hp⟩
    · rw [hend] at hp; cases hp
    · rw [hend] at hp; cases hp
    · rcases hphase.2 with ⟨hv', -⟩ | ⟨-, -, -, h11⟩ | ⟨-, ht, ⟨hlt, -⟩ | ⟨-, hs⟩⟩
      · exact hv' hv
      · omega
      · omega
      · have := htrue.1.mp hs
        rw [ht] at this; cases this
    · rw [hend] at hp; cases hp
  · intro hC
    obtain ⟨-, hbefore⟩ := Machine.final_inv (I := fun c => Inv c ∧ BeforeBound c)
      (fun c e h hCe => ⟨inv_superstep st c e h.1, beforeBound_superstep st c e h.1 h.2 hCe⟩)
      ⟨inv_start t db, by intro hv; cases hv⟩ hC
    rcases hphase.2 with ⟨hv, ht, hs⟩ | ⟨hv, ht, hs, -⟩ | ⟨hv, ht, ⟨-, hs⟩ | ⟨hstep, -⟩⟩
    · exact ⟨by simp [ht, hs], fun hv' => absurd hv' hv⟩
    · exact ⟨by simp [ht, hs], fun _ ht' => by rw [ht] at ht'; cases ht'⟩
    · exact ⟨by simp [ht, hs], fun _ _ => hs⟩
    · exact absurd hstep ((hbefore hv).2 hend)

/-- A step where every structured request answers `decision` and everything else works. -/
def deciding (decision : RoutingDecision) : StepEnv (Plans.Key → Plans.Slot (List Call)) where
  router := ⟨.ok none, .ok (.ok [], {}), fun _ => .ok (.ok decision, {})⟩
  savedRef := fun _ _ => .ok none
  store := pendingPlans 1800 reliableEnv 0
  worker := ⟨.ok (.ok "Nothing on the calendar.", {}), .ok (.ok "", {})⟩
  dispatchTool := fun _ _ => .ok "no events"

def fullTurn : List (StepEnv (Plans.Key → Plans.Slot (List Call))) :=
  List.replicate 6 (deciding { nextNode := .toolExecution, toolName := some .listCalendarEvents }) ++
    List.replicate 3 (deciding { nextNode := .localLlm })

def calendarQuestion : Turn :=
  { payload := { rawInput := "any games this week?", chatId := some "chat" }, userId := "u1" }

theorem halted_truthful_iff_full_turn :
    HaltedTruthful (Machine.final (superstep { pyd := strict }) (start calendarQuestion emptyDb) fullTurn).st ↔
      Machine.Meets (superstep { pyd := strict }) (fun c e => ¬ ComposesAtBound c e) (start calendarQuestion emptyDb)
        fullTurn :=
  halted_truthful_iff { pyd := strict } calendarQuestion emptyDb fullTurn rfl

/-- A turn that makes three tool steps and then composes, as its router chose, reports the
    step bound. -/
theorem a_full_turn_reports_halted :
    (Machine.final (superstep { pyd := strict }) (start calendarQuestion emptyDb) fullTurn).place = .finished ∧
      ¬ HaltedTruthful (Machine.final (superstep { pyd := strict }) (start calendarQuestion emptyDb) fullTurn).st := by
  refine ⟨rfl, fun h => ?_⟩
  have hcut : false = true := h.1.mp rfl
  cases hcut

end CoreHeartbeat.Graph
