import Lox.Proofs.Run.ActiveScope
import Lox.Proofs.Run.Guarded
import Lox.Proofs.Run.Reach

/-!
# What code has hold of

At each point of a run code has hold of some things at once: the active scope, the globals, the scopes
in which something is still under way, and the values that it has computed. A `Holding` is a machine
with these. `Holding.Step` is what code can do next with what it can reach from there: evaluate or run
something of whatever form, make a call, use a value, open a scope, go back to one that is still under
way, or serve a request.

A guard of what code has hold of stays one from step to step (`Holding.Within.step`). So code leaves
alone what it cannot reach (`Holding.Step.spares`).
-/

namespace Lox

/-- A machine, and what code has hold of. -/
structure Holding where
  machine : Machine
  /-- The scopes in which something is still under way, besides the active one. -/
  scopes : List Environment
  /-- The values that have been computed. -/
  values : List Value

/-- What code does with the machine. -/
inductive Action where
  | evaluate (e : Expr Place)
  | execute (s : Stmt Place)
  | call (callee : Value) (arguments : List Value) (line : Nat)
  | define (name : String) (v : Value)
  | assign (place : Place) (name : Name) (v : Value)
  | get (object : Value) (property : Name)
  | set (i : Instance) (property : String) (v : Value)
  | make (c : Class)

namespace Action

/-- The values that the code has to have. -/
def uses : Action → List Value
  | evaluate _ | execute _ => []
  | call callee arguments _ => callee :: arguments
  | define _ v | assign _ _ v => [v]
  | get object _ => [object]
  | set i _ v => [.ofInstance i, v]
  | make c => [.callable (.ofClass c)]

/-- The part of a run. A statement gives the value that it returns. -/
def run (fuel : Nat) : Action → Run Value
  | evaluate e => (evaluator fuel).eval e
  | execute s => do
    let completion ← (evaluator fuel).exec s
    return completion.value
  | call callee arguments line => Run.callValue (evaluator fuel) callee arguments line
  | define name v => do
    Run.define name v
    return v
  | assign place name v => do
    Run.assignVariable place name v
    return v
  | get object property => Run.getProperty object property
  | set i property v => do
    Run.setField i property v
    return v
  | make c => do
    let i ← Run.newInstance c
    return .ofInstance i

/-- What holds of all parts of runs holds of what code does. -/
theorem uniform {P : ∀ {α : Type}, Run α → Prop} (u : Uniform P) (a : Action) (fuel : Nat) :
    P (a.run fuel) := by
  cases a with
  | evaluate e => exact (u.evaluator fuel).eval e
  | execute s => exact u.bind ((u.evaluator fuel).exec s) fun _ => u.pure _
  | call callee arguments line => exact u.callValue (u.evaluator fuel) callee arguments line
  | define name v => exact u.bind (u.define name v) fun _ => u.pure v
  | assign place name v => exact u.bind (u.assignVariable place name v) fun _ => u.pure v
  | get object property => exact u.getProperty object property
  | set i property v => exact u.bind (u.setField i property v) fun _ => u.pure v
  | make c => exact u.bind (u.newInstance c) fun _ => u.pure _

/-- What code does with values that it may have stays within the guard. -/
theorem keeps {g : Guard} {m : Machine} (a : Action) (fuel : Nat) (guards : g.Guards m)
    (allowed : ∀ v ∈ a.uses, g.Allows m.store v) :
    g.Keeps m (a.run fuel) fun v m' => g.Allows m'.store v := by
  cases a with
  | evaluate e => exact (evaluator_keeps g fuel).eval e guards
  | execute s =>
    apply ((evaluator_keeps g fuel).exec s guards).bind
    intro completion m' leads result
    exact .pure leads.guards result
  | call callee arguments line =>
    obtain ⟨callee', given⟩ := List.forall_mem_cons.1 allowed
    exact Guard.Keeps.callValue (evaluator_keeps g fuel) guards callee' given line
  | define name v =>
    have held := allowed v List.mem_cons_self
    exact .giving held (.define guards name held)
  | assign place name v =>
    have held := allowed v List.mem_cons_self
    exact .giving held (.assignVariable guards place name held)
  | get object property =>
    exact Guard.Keeps.getProperty guards (allowed object List.mem_cons_self) property
  | set i property v =>
    obtain ⟨inst, allowed⟩ := List.forall_mem_cons.1 allowed
    have held := allowed v List.mem_cons_self
    exact .giving held (.setField guards inst.1 property held)
  | make c =>
    have level : g.Allows m.store (.callable (.ofClass c)) := allowed _ List.mem_cons_self
    apply (Guard.Keeps.newInstance guards level).bind
    intro i m' leads made
    exact .pure leads.guards made

end Action

namespace Session

variable {g : Guard}

theorem perform_leads {α : Type} {m : Machine} {act : Run α}
    (leads : g.Leads m (Run.left (act m))) (nextRef : RefId) :
    g.Leads m (perform ⟨m, nextRef⟩ act).2.machine := by
  unfold perform
  cases result : act m with
  | ok a m | error stop m =>
    rw [result] at leads
    exact leads

/-- Behind a program the sink is flushed, which the guard does not notice. -/
theorem interpret_leads {m : Machine} (guards : g.Guards m) (fuel : Nat) (ss : List (Stmt Place)) :
    g.Leads m (Run.left (Run.interpret fuel ss m)) := by
  have ran := (Guard.Keeps.program (evaluator_keeps g fuel) guards ss).left
  rcases Run.left_interpret fuel ss m with same | flushed
  · rw [same]
    exact ran
  · rw [flushed]
    exact ran.trans (Guard.Keeps.flush ran.guards).left

/-- The answer to a request that is no evaluation is no value. -/
theorem answer_ne_value {α : Type} {result : Except RunError α} {v : Value} :
    result.map (fun _ => none) ≠ .ok (some v) := by
  intro given
  cases result <;> cases given

/-- A request stays within the guard, and so does the value that it gives. -/
theorem serve_leads {s : Session} (guards : g.Guards s.machine) (r : Request) :
    g.Leads s.machine (s.serve r).2.machine ∧
      ∀ v, (s.serve r).1 = .ok (some v) → g.Allows (s.serve r).2.machine.store v := by
  cases r with
  | run fuel source =>
    simp only [serve, run]
    cases checkProgram (readProgram source s.nextRef) with
    | error reports => exact ⟨.refl guards, fun v given => absurd given answer_ne_value⟩
    | ok statements =>
      have leads := interpret_leads guards fuel (runnable statements)
      exact ⟨perform_leads leads _, fun v given => absurd given answer_ne_value⟩
  | evaluate fuel source =>
    simp only [serve, evaluate]
    cases checkExpression (readExpression source s.nextRef) with
    | error reports => exact ⟨.refl guards, fun v given => by cases given⟩
    | ok e =>
      have kept := (evaluator_keeps g fuel).eval (runnableExpr e) guards
      refine ⟨perform_leads kept.left _, fun v given => ?_⟩
      unfold Guard.Keeps at kept
      simp only [perform] at given ⊢
      cases result : (evaluator fuel).eval (runnableExpr e) s.machine with
      | ok u m =>
        rw [result] at kept given
        cases given
        exact kept.2
      | error stop m =>
        rw [result] at given
        cases given
  | check source => exact ⟨.refl guards, fun v given => absurd given answer_ne_value⟩
  | takeOutput | setClock clock =>
    exact ⟨.of_store guards rfl guards.active, fun v given => by cases given⟩

end Session

/-- The machine with a scope opened inside `e` and active. -/
def Machine.opening (e : Environment) (bound : Bindings Value) (m : Machine) : Machine :=
  { m with store := m.store.pushFrame bound, current := ⟨m.store.frames.size, e.path⟩ }

namespace Holding

/-- What code has hold of at once. -/
def Roots (h : Holding) : Item → Prop
  | .scope e => e ∈ h.machine.current :: .globals :: h.scopes
  | .function _ => False
  | .value v => v ∈ h.values

/-- Code can get to the item. -/
def Reaches (h : Holding) (x : Item) : Prop := h.machine.store.Reaches h.Roots x

/-- Code does something with values that it can get to. It may have hold of the result afterwards, and
need not keep all that it has had hold of. -/
structure Does (h : Holding) (a : Action) (fuel : Nat) (h' : Holding) : Prop where
  uses : ∀ v ∈ a.uses, h.Reaches (.value v)
  machine : h'.machine = Run.left (a.run fuel h.machine)
  scopes : h'.scopes = h.scopes
  values : ∀ v ∈ h'.values, v ∈ h.values ∨ a.run fuel h.machine = .ok v h'.machine

/-- What can be next. -/
inductive Step : Holding → Holding → Prop
  | does {h h' : Holding} {a : Action} {fuel : Nat} : h.Does a fuel h' → Step h h'
  /-- A scope is opened inside one that code can get to, as for a block or for the body of a function,
  and becomes the active one. -/
  | opens {h : Holding} {e : Environment} {bound : Bindings Value} : h.Reaches (.scope e) →
    (∀ {name v}, bound.get? name = some v → h.Reaches (.value v)) →
    Step h ⟨h.machine.opening e bound, h.machine.current :: h.scopes, h.values⟩
  /-- One of the scopes under way becomes the active one. -/
  | turns {h : Holding} {e : Environment} {scopes : List Environment} : e ∈ h.scopes →
    scopes ⊆ h.machine.current :: h.scopes → Step h ⟨h.machine.inScope e, scopes, h.values⟩
  /-- A request is served. -/
  | serves {h : Holding} (nextRef : RefId) (r : Request) {values : List Value} :
    (∀ v ∈ values, v ∈ h.values ∨ (Session.serve ⟨h.machine, nextRef⟩ r).1 = .ok (some v)) →
    Step h ⟨(Session.serve ⟨h.machine, nextRef⟩ r).2.machine, h.scopes, values⟩

/-- The second holding comes after the first one, by any number of steps. -/
inductive Later : Holding → Holding → Prop
  | refl {h : Holding} : Later h h
  | step {h h' h'' : Holding} : Later h h' → Step h' h'' → Later h h''

/-- The holding comes about in a session. -/
def Arises (h : Holding) : Prop := ∃ sink clock, Later ⟨.start sink clock, [], []⟩ h

/-- What code cannot get to is as it was. -/
structure Spares (h h' : Holding) : Prop where
  scopes : ∀ id < h.machine.store.frames.size, ¬ h.machine.store.ReachesScope h.Roots id →
    h'.machine.store.frame id = h.machine.store.frame id
  instances : ∀ id < h.machine.store.fields.size, ¬ h.machine.store.ReachesInstance h.Roots id →
    h'.machine.store.fieldsOf id = h.machine.store.fieldsOf id

/-- Code has hold of nothing that the guard does not allow. -/
structure Within (h : Holding) (g : Guard) : Prop where
  guards : g.Guards h.machine
  scopes : ∀ e ∈ h.scopes, g.AllowsScope h.machine.store e
  values : ∀ v ∈ h.values, g.Allows h.machine.store v

variable {g : Guard} {h h' : Holding}

theorem Within.reaches (within : h.Within g) {x : Item} (reached : h.Reaches x) :
    g.AllowsItem h.machine.store x := by
  apply within.guards.reaches _ reached
  intro x root
  cases x with
  | scope e =>
    rcases List.mem_cons.1 root with rfl | root
    · exact within.guards.active
    · rcases List.mem_cons.1 root with rfl | mem
      · exact within.guards.globals
      · exact within.scopes e mem
  | function f => exact root.elim
  | value v => exact within.values v root

/-- What is done next stays within the guard. -/
theorem Within.step (within : h.Within g) (step : h.Step h') :
    h.machine.store.Grows h'.machine.store ∧ h'.Within g := by
  -- scopes and values that are still there are as good as they were
  have scopesLater {m' : Machine} (grows : h.machine.store.Grows m'.store) :
      ∀ e ∈ h.scopes, g.AllowsScope m'.store e := fun e mem => (within.scopes e mem).mono grows
  have valuesLater {m' : Machine} (grows : h.machine.store.Grows m'.store) :
      ∀ v ∈ h.values, g.Allows m'.store v := fun v mem => (within.values v mem).mono grows
  cases step with
  | @does _ a fuel did =>
    have kept := a.keeps fuel within.guards fun v mem => within.reaches (did.uses v mem)
    have leads := kept.left
    rw [← did.machine] at leads
    refine ⟨leads.grows, leads.guards, ?_, fun v mem => ?_⟩
    · rw [did.scopes]
      exact scopesLater leads.grows
    · rcases did.values v mem with old | result
      · exact valuesLater leads.grows v old
      · unfold Guard.Keeps at kept
        rw [result] at kept
        exact kept.2
  | @opens e bound scope values =>
    have opened : g.Leads h.machine { h.machine with store := h.machine.store.pushFrame bound } :=
      .pushFrame within.guards fun found => within.reaches (values found)
    have inside : g.AllowsScope (h.machine.store.pushFrame bound)
        (h.machine.opening e bound).current := by
      intro id mem
      rcases List.mem_cons.1 mem with rfl | mem
      · exact g.scope_new bound within.guards.grown
      · exact g.scope_mono opened.grows (within.reaches scope id mem)
    have entered : g.Leads _ (h.machine.opening e bound) := .of_store opened.guards rfl inside
    refine ⟨opened.grows, entered.guards, ?_, valuesLater opened.grows⟩
    exact List.forall_mem_cons.2
      ⟨within.guards.active.mono opened.grows, scopesLater opened.grows⟩
  | @turns e scopes mem subset =>
    have turned : g.Leads h.machine (h.machine.inScope e) :=
      .of_store within.guards rfl (within.scopes e mem)
    refine ⟨turned.grows, turned.guards, fun outer mem => ?_, within.values⟩
    rcases List.mem_cons.1 (subset mem) with rfl | mem
    · exact within.guards.active
    · exact within.scopes outer mem
  | serves nextRef r values =>
    obtain ⟨leads, given⟩ := Session.serve_leads (s := ⟨h.machine, nextRef⟩) within.guards r
    refine ⟨leads.grows, leads.guards, scopesLater leads.grows, fun v mem => ?_⟩
    rcases values v mem with old | answer
    · exact valuesLater leads.grows v old
    · exact given v answer

theorem Within.later (within : h.Within g) (later : h.Later h') :
    h.machine.store.Grows h'.machine.store ∧ h'.Within g := by
  induction later with
  | refl => exact ⟨.refl _, within⟩
  | step _ step ih =>
    obtain ⟨grows, within⟩ := ih
    obtain ⟨grows', within⟩ := within.step step
    exact ⟨grows.trans grows', within⟩

/-! ## What cannot be reached -/

/-- Code has hold of what it can get to. -/
theorem within_reaching (h : Holding) : h.Within (.reaching h.machine.store h.Roots) where
  guards := Guard.reaching_guards List.mem_cons_self (List.mem_cons_of_mem _ List.mem_cons_self)
  scopes _ mem := Guard.reaching_allowsScope
    (.root (List.mem_cons_of_mem _ (List.mem_cons_of_mem _ mem)))
  values _ mem := Guard.reaching_allows (.root mem)

theorem Within.spares (within : h'.Within (.reaching h.machine.store h.Roots)) : h.Spares h' where
  scopes _ lt unreached := within.guards.shut fun reached => unreached (reached lt)
  instances _ lt unreached := within.guards.shutFields fun reached => unreached (reached lt)

/-- What code cannot get to is spared by what it does next, ... -/
theorem Step.spares (step : h.Step h') : h.Spares h' := (h.within_reaching.step step).2.spares

/-- ... and by all that follows. -/
theorem Later.spares (later : h.Later h') : h.Spares h' := (h.within_reaching.later later).2.spares

/-! ## What arises -/

theorem Later.trans {h'' : Holding} (first : h.Later h') (second : h'.Later h'') : h.Later h'' := by
  induction second with
  | refl => exact first
  | step _ step ih => exact ih.step step

theorem later_after (s : Session) (requests : List Request) :
    Later ⟨s.machine, [], []⟩ ⟨(s.after requests).machine, [], []⟩ := by
  induction requests generalizing s with
  | nil => exact .refl
  | cons r rest ih =>
    have first : Later ⟨s.machine, [], []⟩ ⟨(s.serve r).2.machine, [], []⟩ :=
      Later.refl.step (.serves s.nextRef r fun _ mem => nomatch mem)
    exact first.trans (ih (s.serve r).2)

/-- The machine between two requests of a session comes about. -/
theorem arises_after (sink : Sink) (clock : Clock) (requests : List Request) :
    Arises ⟨((Session.start sink clock).after requests).machine, [], []⟩ :=
  ⟨sink, clock, later_after (.start sink clock) requests⟩

/-- All that code has hold of is there. -/
theorem Arises.within_since (arises : h.Arises) : h.Within (.since h.machine.store) := by
  obtain ⟨sink, clock, later⟩ := arises
  have start : Within ⟨.start sink clock, [], []⟩ (.since (Machine.start sink clock).store) :=
    ⟨Guard.since_start sink clock, nofun, nofun⟩
  obtain ⟨-, within⟩ := start.later later
  exact ⟨within.guards.since, within.scopes, fun v mem => Guard.since_allows (within.values v mem)⟩

end Holding

/-! ## Numbers that code can get to -/

/-- The numbers of the functions and classes that the value gives code. -/
def Value.numbers : Value → List ObjectId
  | .nil | .boolean _ | .number _ | .string _ | .callable (.native _) => []
  | .callable (.function n _) => [n]
  | .callable (.ofClass c) => c.lineage.map ClassLevel.id
  | .ofInstance i => i.ofClass.lineage.map ClassLevel.id

theorem Value.Carries.mem_numbers {v : Value} {n : ObjectId} {f : Closure} (h : v.Carries n f) :
    n ∈ v.numbers := by
  cases h with
  | function | method => exact List.mem_cons_self

/-- All numbers of values in the table are such. -/
def Bindings.HasNumbers (p : ObjectId → Bool) (b : Bindings Value) : Bool :=
  b.entries.all fun entry => entry.2.numbers.all p

theorem Bindings.HasNumbers.of_get? {p : ObjectId → Bool} {b : Bindings Value}
    (h : b.HasNumbers p = true) {name : String} {v : Value} (found : b.get? name = some v) :
    ∀ n ∈ v.numbers, p n = true := by
  obtain ⟨entries⟩ := b
  simp only [HasNumbers, get?] at h found
  induction entries with
  | nil => cases found
  | cons entry rest ih =>
    obtain ⟨key, value⟩ := entry
    rw [List.all_cons, Bool.and_eq_true] at h
    rw [find?] at found
    split at found
    · cases found
      exact List.all_eq_true.1 h.1
    · exact ih h.2 found

/-- All numbers that are at hand or in the store are such. -/
def Holding.HasNumbers (p : ObjectId → Bool) (h : Holding) : Bool :=
  h.machine.store.frames.toList.all (Bindings.HasNumbers p) &&
    h.machine.store.fields.toList.all (Bindings.HasNumbers p) &&
      h.values.all fun v => v.numbers.all p

/-- If the item is a value, all its numbers are such. -/
def Item.HasNumbers (p : ObjectId → Bool) : Item → Prop
  | .scope _ | .function _ => True
  | .value v => ∀ n ∈ v.numbers, p n = true

/-- Code gets only to functions and classes that are at hand or in the store. -/
theorem Holding.HasNumbers.of_reaches {p : ObjectId → Bool} {h : Holding} (all : h.HasNumbers p = true)
    {v : Value} (reached : h.Reaches (.value v)) : ∀ n ∈ v.numbers, p n = true := by
  simp only [HasNumbers, Bool.and_eq_true] at all
  obtain ⟨⟨frames, fields⟩, values⟩ := all
  have table {bs : Array (Bindings Value)} {id : Nat} {name : String} {u : Value}
      (tables : bs.toList.all (Bindings.HasNumbers p) = true)
      (found : (bs.getD id Bindings.empty).get? name = some u) : ∀ n ∈ u.numbers, p n = true := by
    rw [Array.getD_eq_getD_getElem?] at found
    cases there : bs[id]? with
    | none => simp [there] at found
    | some b =>
      rw [there] at found
      have mem : b ∈ bs.toList := Array.mem_toList_iff.2 (Array.mem_of_getElem? there)
      exact Bindings.HasNumbers.of_get? (List.all_eq_true.1 tables b mem) found
  apply Store.Reaches.invariant reached (P := Item.HasNumbers p)
  · intro x root
    cases x with
    | scope | function => trivial
    | value u => exact List.all_eq_true.1 (List.all_eq_true.1 values u root)
  · intro x y before link
    cases link with
    | enclosing | captured | function | method => trivial
    | bound found => exact table frames found
    | superclass => exact fun n mem => before n (List.mem_cons_of_mem _ mem)
    | ofClass => exact before
    | field found => exact table fields found

/-! ## Calls without arguments -/

/-- What a part of a run gives, if it ends well. -/
def Run.results {α : Type} : EStateM.Result Stop Machine α → List α
  | .ok a _ => [a]
  | .error _ _ => []

/-- The holding after a call without arguments, with what it gives. -/
def Holding.called (h : Holding) (fuel : Nat) (callee : Value) : Holding :=
  let ended := Run.callValue (evaluator fuel) callee [] 1 h.machine
  ⟨Run.left ended, h.scopes, Run.results ended⟩

theorem Holding.does_called {h : Holding} (fuel : Nat) {callee : Value}
    (reached : h.Reaches (.value callee)) :
    h.Does (.call callee [] 1) fuel (h.called fuel callee) where
  uses v mem := by
    rw [List.mem_singleton.1 mem]
    exact reached
  machine := rfl
  scopes := rfl
  values v mem := by
    right
    simp only [called] at mem ⊢
    show Run.callValue _ _ _ _ _ = _
    cases ended : Run.callValue (evaluator fuel) callee [] 1 h.machine with
    | ok u m =>
      rw [ended] at mem
      rw [List.mem_singleton.1 mem]
      rfl
    | error stop m =>
      rw [ended] at mem
      cases mem

theorem Holding.reaches_global {h : Holding} {name : String}
    (bound : (h.machine.store.frame 0).contains name = true) :
    h.Reaches (.value (((h.machine.store.frame 0).get? name).getD .nil)) := by
  obtain ⟨v, found⟩ := Option.isSome_iff_exists.1 bound
  rw [found, Option.getD_some]
  have globals : h.Reaches (.scope .globals) := .root (List.mem_cons_of_mem _ List.mem_cons_self)
  exact globals.step (.bound found)

theorem Holding.reaches_head {h : Holding} (some : h.values.isEmpty = false) :
    h.Reaches (.value (h.values.headD .nil)) := by
  apply Store.Reaches.root
  cases values : h.values with
  | nil => simp [values] at some
  | cons v vs => simp [Holding.Roots, values]

end Lox
