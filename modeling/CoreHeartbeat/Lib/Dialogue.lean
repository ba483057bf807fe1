/-
  CoreHeartbeat.Lib.Dialogue — programs that ask the world and go on with its answers, alone and
  many at once.

  A program is a tree: it ends with a value, or asks a request and continues with any answer to
  it. The type of an answer depends on the request. `Py` are the programs that may raise, and
  they are written with `do`, `tryCatch` and `attempt` as the code they stand for is.

  A contract says which requests a program may ask and which answers it may count on, both after
  what was asked and answered before; `Keeps` is that a program asks only what its contract
  allows and ends with a value that satisfies a postcondition, whatever answers of the contract
  it gets. The postcondition sees the history too. `Reaches` is operational: after this history
  the program has come to what is left of it.

  A world serves requests from a state of its own, and moves by itself. A pool is a world with
  any number of programs before it, served one request at a time in any order.

  Rules:
  - `keeps_bind`, `keeps_then`, `keeps_catch`, `keeps_asked`, `keeps_given`: composition, in the
    shape of the code.
  - `keeps_reaches`: what a kept contract says of every history a program can get to;
    `keeps_reached` adds how it got there.
  - `pool_keeps`: where each program keeps its contract and the world answers within it under an
    invariant, every history stays within the contract.
  - `pool_answers`: what every exchange has, with what was served before it.
  - `keeps_left`: a program among requests of another kind.
-/

import Mathlib.Logic.Function.Basic
import Mathlib.Data.List.Basic

namespace Dialogue

variable {ρ : Type}

/-- A program whose request `q` is answered in `π q`. -/
inductive Prog (π : ρ → Type) (α : Type) : Type where
  | done (a : α)
  | ask (q : ρ) (k : π q → Prog π α)

variable {π : ρ → Type} {ε α β : Type}

def Prog.bind : Prog π α → (α → Prog π β) → Prog π β
  | .done a, f => f a
  | .ask q k, f => .ask q fun r => (k r).bind f

instance : Monad (Prog π) where
  pure := .done
  bind := .bind

def request (q : ρ) : Prog π (π q) := .ask q .done

abbrev Py (π : ρ → Type) (ε α : Type) : Type := ExceptT ε (Prog π) α

/-- What a program comes to, its exception caught. -/
def attempt (x : Py π ε α) : Py π ε (Except ε α) := liftM (x.run : Prog π (Except ε α))

/-! ## Contracts -/

structure Exchange (π : ρ → Type) where
  asked : ρ
  answer : π asked

abbrev History (π : ρ → Type) : Type := List (Exchange π)

/-- What may be asked and what may be counted on, after a history. -/
structure Contract (π : ρ → Type) where
  asks : History π → ρ → Prop
  answers : History π → (q : ρ) → π q → Prop

def Contract.free : Contract π := ⟨fun _ _ => True, fun _ _ _ => True⟩

/-- The program keeps the contract from this history on, and ends as `post` says. -/
def Keeps (c : Contract π) (post : History π → α → Prop) : History π → Prog π α → Prop
  | t, .done a => post t a
  | t, .ask q k => c.asks t q ∧ ∀ r, c.answers t q r → Keeps c post (t ++ [⟨q, r⟩]) (k r)

/-- Every exchange of a history is within the contract. -/
def Honoured (c : Contract π) (t : History π) : Prop :=
  ∀ l q r m, t = l ++ ⟨q, r⟩ :: m → c.asks l q ∧ c.answers l q r

section
variable {c : Contract π} {post : History π → α → Prop} {t : History π}

theorem keeps_mono {post' : History π → α → Prop} {p : Prog π α} (h : Keeps c post t p)
    (hpost : ∀ t a, post t a → post' t a) : Keeps c post' t p := by
  induction p generalizing t with
  | done a => exact hpost t a h
  | ask q k ih => exact ⟨h.1, fun r hr => ih r (h.2 r hr)⟩

/-- A contract that allows every request is kept. -/
theorem keeps_any (hasks : ∀ t q, c.asks t q) (p : Prog π α) : Keeps c (fun _ _ => True) t p := by
  induction p generalizing t with
  | done a => trivial
  | ask q k ih => exact ⟨hasks t q, fun r _ => ih r⟩

theorem keeps_bind {post : History π → β → Prop} {p : Prog π α} {f : α → Prog π β}
    (h : Keeps c (fun t a => Keeps c post t (f a)) t p) : Keeps c post t (p >>= f) := by
  induction p generalizing t with
  | done a => exact h
  | ask q k ih => exact ⟨h.1, fun r hr => ih r (h.2 r hr)⟩

end

section
variable {c : Contract π} {t : History π} {post : History π → Except ε β → Prop}

/-- What follows runs when nothing was raised. -/
theorem keeps_then {x : Py π ε α} {f : α → Py π ε β}
    (h : Keeps c (fun t result => match result with
      | .ok a => Keeps c post t (f a).run
      | .error e => post t (.error e)) t x.run) : Keeps c post t (x >>= f).run := by
  refine keeps_bind (keeps_mono h fun t result hresult => ?_)
  cases result with
  | ok a => exact hresult
  | error e => exact hresult

/-- What is caught is handled. -/
theorem keeps_catch {x : Py π ε β} {handler : ε → Py π ε β}
    (h : Keeps c (fun t result => match result with
      | .ok a => post t (.ok a)
      | .error e => Keeps c post t (handler e).run) t x.run) : Keeps c post t (tryCatch x handler).run := by
  refine keeps_bind (keeps_mono h fun t result hresult => ?_)
  cases result with
  | ok a => exact hresult
  | error e => exact hresult

theorem keeps_attempt {x : Py π ε α} {f : Except ε α → Py π ε β}
    (h : Keeps c (fun t result => Keeps c post t (f result).run) t x.run) : Keeps c post t (attempt x >>= f).run := by
  refine keeps_bind (keeps_bind (keeps_mono h fun t result hresult => ?_))
  exact hresult

/-- A request, and what follows its answer. -/
theorem keeps_asked {q : ρ} {f : π q → Py π ε β} (hasks : c.asks t q)
    (h : ∀ r, c.answers t q r → Keeps c post (t ++ [⟨q, r⟩]) (f r).run) :
    Keeps c post t ((liftM (request q) : Py π ε (π q)) >>= f).run := ⟨hasks, h⟩

/-- A computation that asks nothing. -/
theorem keeps_lift {result : Except ε β} (h : post t result) : Keeps c post t (liftM result : Py π ε β).run := by
  cases result with
  | error e => exact h
  | ok b => exact h

/-- A computation that asks nothing, and what follows its value. -/
theorem keeps_given {result : Except ε α} {f : α → Py π ε β} (herror : ∀ e, result = .error e → post t (.error e))
    (hok : ∀ a, result = .ok a → Keeps c post t (f a).run) :
    Keeps c post t ((liftM result : Py π ε α) >>= f).run := by
  cases result with
  | error e => exact herror e rfl
  | ok a => exact hok a rfl

end

/-! ## One program -/

/-- After the history `t` the program has come to `p'`. -/
inductive Reaches (p : Prog π α) : History π → Prog π α → Prop
  | start : Reaches p [] p
  | answered {t : History π} {q : ρ} {k : π q → Prog π α} (r : π q) :
      Reaches p t (.ask q k) → Reaches p (t ++ [⟨q, r⟩]) (k r)

/-- What a program has come to is where it ends. -/
theorem keeps_reached {c : Contract π} {post : History π → α → Prop} {p p' : Prog π α} {t : History π} (h : Keeps c post t p')
    (hr : Reaches p t p') : Keeps c (fun t a => post t a ∧ Reaches p t (.done a)) t p' := by
  induction p' generalizing t with
  | done a => exact ⟨h, hr⟩
  | ask q k ih => exact ⟨h.1, fun r hanswers => ih r (h.2 r hanswers) (.answered r hr)⟩

theorem honoured_nil (c : Contract π) : Honoured c [] := by
  intro l q r m h
  cases l <;> cases h

/-- Where a split of a list with one more item falls. -/
theorem split_snoc {τ : Type} {t l m : List τ} {e e' : τ} (h : t ++ [e] = l ++ e' :: m) :
    m = [] ∧ t = l ∧ e = e' ∨ ∃ m', m = m' ++ [e] ∧ t = l ++ e' :: m' := by
  rcases List.eq_nil_or_concat m with rfl | ⟨m', e'', rfl⟩
  · obtain ⟨rfl, hlast⟩ := List.append_inj' h rfl
    exact Or.inl ⟨rfl, rfl, List.head_eq_of_cons_eq hlast⟩
  · rw [List.concat_eq_append, ← List.cons_append, ← List.append_assoc] at h
    obtain ⟨rfl, hlast⟩ := List.append_inj' h rfl
    exact Or.inr ⟨m', by rw [List.concat_eq_append, List.head_eq_of_cons_eq hlast], rfl⟩

theorem honoured_snoc {c : Contract π} {t : History π} {q : ρ} {r : π q} (h : Honoured c t) (hasks : c.asks t q)
    (hanswers : c.answers t q r) : Honoured c (t ++ [⟨q, r⟩]) := by
  intro l q' r' m hsplit
  rcases split_snoc hsplit with ⟨-, rfl, he⟩ | ⟨m', rfl, hbefore⟩
  · cases he
    exact ⟨hasks, hanswers⟩
  · exact h l q' r' m' hbefore

/-- A program that keeps a contract keeps it in every history whose answers are within it. -/
theorem keeps_within {c : Contract π} {post : History π → α → Prop} {p p' : Prog π α} {t : History π} (h : Keeps c post [] p)
    (hr : Reaches p t p') (hanswers : ∀ l q r m, t = l ++ ⟨q, r⟩ :: m → c.answers l q r) :
    Keeps c post t p' ∧ Honoured c t := by
  induction hr with
  | start => exact ⟨h, honoured_nil c⟩
  | @answered t q _ r _ ih =>
    have hlast : c.answers t q r := hanswers t q r [] rfl
    obtain ⟨⟨hasks, hnext⟩, hhonoured⟩ := ih fun l q' r' m hsplit =>
      hanswers l q' r' (m ++ [⟨q, r⟩]) (by rw [hsplit, List.append_assoc]; rfl)
    exact ⟨hnext r hlast, honoured_snoc hhonoured hasks hlast⟩

/-- A program that keeps a contract for whatever it is answered keeps it in every history. -/
theorem keeps_reaches {c : Contract π} (hany : ∀ t q r, c.answers t q r) {post : History π → α → Prop} {p p' : Prog π α}
    {t : History π} (h : Keeps c post [] p) (hr : Reaches p t p') : Keeps c post t p' ∧ Honoured c t :=
  keeps_within h hr fun l q r _ _ => hany l q r

/-! ## Many programs before one world -/

/-- How a world serves a request, and what it does by itself. -/
structure World (π : ρ → Type) (ω : Type) where
  serves : ω → (q : ρ) → π q → ω → Prop
  moves : ω → ω → Prop

/-- The world, what was served in what order, and each program with what it asked so far. -/
structure Pool (π : ρ → Type) (α ω ι : Type) where
  world : ω
  log : List (ι × Exchange π)
  history : ι → History π
  rest : ι → Prog π α

variable {ω ι : Type} [DecidableEq ι]

def Pool.served (s : Pool π α ω ι) (w : ω) (i : ι) (e : Exchange π) (p : Prog π α) : Pool π α ω ι :=
  ⟨w, s.log ++ [(i, e)], Function.update s.history i (s.history i ++ [e]), Function.update s.rest i p⟩

inductive Step (W : World π ω) : Pool π α ω ι → Pool π α ω ι → Prop
  | moved (s : Pool π α ω ι) {w : ω} : W.moves s.world w → Step W s { s with world := w }
  | served (s : Pool π α ω ι) {i : ι} {q : ρ} {k : π q → Prog π α} {r : π q} {w : ω} :
      s.rest i = .ask q k → W.serves s.world q r w → Step W s (s.served w i ⟨q, r⟩ (k r))

/-- What the pool can get to, from programs that have asked nothing yet. -/
inductive Reachable (W : World π ω) (w : ω) (progs : ι → Prog π α) : Pool π α ω ι → Prop
  | start : Reachable W w progs ⟨w, [], fun _ => [], progs⟩
  | step {s s' : Pool π α ω ι} : Reachable W w progs s → Step W s s' → Reachable W w progs s'

theorem Reachable.serve {W : World π ω} {w : ω} {progs : ι → Prog π α} {s : Pool π α ω ι} (h : Reachable W w progs s)
    (i : ι) (q : ρ) (r : π q) (w' : ω) {k : π q → Prog π α} (hask : s.rest i = .ask q k)
    (hserve : W.serves s.world q r w') : Reachable W w progs (s.served w' i ⟨q, r⟩ (k r)) :=
  h.step (.served s hask hserve)

/-- The invariant rule of a pool. -/
theorem pool_keeps {W : World π ω} {I : ω → Prop} {c : ι → Contract π} {post : ι → History π → α → Prop}
    (hmoves : ∀ w w', I w → W.moves w w' → I w')
    (hserves : ∀ i w t q r w', I w → (c i).asks t q → W.serves w q r w' → I w' ∧ (c i).answers t q r)
    {w : ω} (hw : I w) {progs : ι → Prog π α} (hprogs : ∀ i, Keeps (c i) (post i) [] (progs i)) {s : Pool π α ω ι}
    (h : Reachable W w progs s) :
    I s.world ∧ ∀ i, Keeps (c i) (post i) (s.history i) (s.rest i) ∧ Honoured (c i) (s.history i) := by
  induction h with
  | start => exact ⟨hw, fun i => ⟨hprogs i, honoured_nil _⟩⟩
  | step _ hstep ih =>
    obtain ⟨hI, hthreads⟩ := ih
    cases hstep with
    | moved hmove => exact ⟨hmoves _ _ hI hmove, hthreads⟩
    | served hask hserve =>
      rename_i i q k r w'
      obtain ⟨hkeeps, hhonoured⟩ := hthreads i
      rw [hask] at hkeeps
      obtain ⟨hI', hanswer⟩ := hserves i _ _ q r w' hI hkeeps.1 hserve
      refine ⟨hI', fun j => ?_⟩
      by_cases hj : j = i
      · subst hj
        simp only [Pool.served, Function.update_self]
        exact ⟨hkeeps.2 r hanswer, honoured_snoc hhonoured hkeeps.1 hanswer⟩
      · simp only [Pool.served, Function.update_of_ne hj]
        exact hthreads j

/-- A program's history is its part of the log. -/
theorem pool_history {W : World π ω} {w : ω} {progs : ι → Prog π α} {s : Pool π α ω ι} (h : Reachable W w progs s) (i : ι) :
    s.history i = s.log.filterMap fun e => if e.1 = i then some e.2 else none := by
  induction h with
  | start => rfl
  | step _ hstep ih =>
    cases hstep with
    | moved _ => exact ih
    | served hask hserve =>
      rename_i j q k r w'
      by_cases hj : i = j
      · subst hj
        simp [Pool.served, ih]
      · simp [Pool.served, ih, Function.update_of_ne hj, Ne.symm hj]

/-- What holds between the log and the world. -/
theorem pool_follows {W : World π ω} {w : ω} {progs : ι → Prog π α} {F : List (ι × Exchange π) → ω → Prop}
    (hmoves : ∀ l w w', F l w → W.moves w w' → F l w') (hstart : F [] w)
    (hserves : ∀ l w i q r w', F l w → W.serves w q r w' → F (l ++ [(i, ⟨q, r⟩)]) w') {s : Pool π α ω ι}
    (h : Reachable W w progs s) : F s.log s.world := by
  induction h with
  | start => exact hstart
  | step _ hstep ih =>
    cases hstep with
    | moved hmove => exact hmoves _ _ _ ih hmove
    | served _ hserve => exact hserves _ _ _ _ _ _ ih hserve

/-- What every exchange has, with what was served before it. -/
theorem pool_answers {W : World π ω} {w : ω} {progs : ι → Prog π α} {F : List (ι × Exchange π) → ω → Prop}
    {A : List (ι × Exchange π) → Exchange π → Prop} (hmoves : ∀ l w w', F l w → W.moves w w' → F l w') (hstart : F [] w)
    (hserves : ∀ l w i q r w', F l w → W.serves w q r w' → F (l ++ [(i, ⟨q, r⟩)]) w' ∧ A l ⟨q, r⟩) {s : Pool π α ω ι}
    (h : Reachable W w progs s) : ∀ l i e m, s.log = l ++ (i, e) :: m → A l e := by
  refine (pool_follows (F := fun log w => F log w ∧ ∀ l i e m, log = l ++ (i, e) :: m → A l e)
    (fun l w w' hF hmove => ⟨hmoves l w w' hF.1 hmove, hF.2⟩) ⟨hstart, fun l i e m hsplit => by cases l <;> cases hsplit⟩
    (fun log w i q r w' hF hserve => ?_) h).2
  obtain ⟨hF, hA⟩ := hF
  obtain ⟨hF', hlast⟩ := hserves log w i q r w' hF hserve
  refine ⟨hF', fun l j e m hsplit => ?_⟩
  rcases split_snoc hsplit with ⟨rfl, rfl, he⟩ | ⟨m', rfl, hbefore⟩
  · cases he
    exact hlast
  · exact hA l j e m' hbefore

/-! ## Requests of two kinds -/

section
variable {ρ' : Type} {π' : ρ' → Type}

/-- A program of the first kind, among requests of both. -/
def Prog.left : Prog π α → Prog (Sum.elim π π') α
  | .done a => .done a
  | .ask q k => .ask (.inl q) fun r => (k r).left

def left (x : Py π ε α) : Py (Sum.elim π π') ε α := ExceptT.mk x.run.left

def Exchange.left? : Exchange (Sum.elim π π') → Option (Exchange π)
  | ⟨.inl q, r⟩ => some ⟨q, r⟩
  | ⟨.inr _, _⟩ => none

/-- What of a history is of the first kind. -/
def lefts (t : History (Sum.elim π π')) : History π := t.filterMap Exchange.left?

theorem mem_lefts {t : History (Sum.elim π π')} {q : ρ} {r : π q} :
    (⟨q, r⟩ : Exchange π) ∈ lefts t ↔ (⟨.inl q, r⟩ : Exchange (Sum.elim π π')) ∈ t := by
  rw [lefts, List.mem_filterMap]
  constructor
  · rintro ⟨⟨q' | q', r'⟩, hmem, he⟩
    · cases he
      exact hmem
    · cases he
  · exact fun hmem => ⟨_, hmem, rfl⟩

/-- A contract of the first kind, read among requests of both. -/
theorem keeps_left {c : Contract π} {c' : Contract (Sum.elim π π')} {post : History π → α → Prop}
    (hasks : ∀ t q, c.asks (lefts t) q → c'.asks t (.inl q))
    (hanswers : ∀ t q r, c'.answers t (.inl q) r → c.answers (lefts t) q r) {t : History (Sum.elim π π')} {p : Prog π α}
    (h : Keeps c post (lefts t) p) : Keeps c' (fun t a => post (lefts t) a) t p.left := by
  induction p generalizing t with
  | done a => exact h
  | ask q k ih =>
    refine ⟨hasks t q h.1, fun r hr => ih r ?_⟩
    have hnext := h.2 r (hanswers t q r hr)
    rwa [lefts, List.filterMap_append]

end

end Dialogue
