import Lox.Proofs.Run.ActiveScope
import Lox.Proofs.Run.Commuting
import Lox.Proofs.Run.FirstFault
import Lox.Proofs.Session.Batches
import Lox.Proofs.Session.Scopes

/-!
# Declarations that fail

A declaration at the top level evaluates its initializer or looks up its superclass, and it binds
its name. Only the former can fail. A variable is bound behind it, so that nothing of the
declaration is left if it fails. A class is bound to `nil` before its superclass is looked up, and
stays so if that fails.
-/

namespace Lox

/-- What a declaration evaluates: its initializer, or the name of its superclass. -/
def Run.prepare (ev : Evaluator) : Stmt Place → Run Unit
  | .declare _ initializer => do
    let _ ← eval? ev initializer
  | .classDecl _ superclass _ => do
    let _ ← readSuperclass superclass
  | _ => return

/-- What a declaration binds among the globals before it evaluates anything. -/
def Stmt.bindEarly (store : Store) : Stmt Place → Store
  | .classDecl name _ _ => store.define .globals name.text .nil
  | _ => store

/-- The superclass, if the statement names one, is another variable among the globals. -/
def Stmt.InheritsGlobally : Stmt Place → Prop
  | .classDecl name (some r) _ => r.mark = .global ∧ r.name.text ≠ name.text
  | _ => True

/-! ## What can fail -/

namespace Run

variable {α β : Type} {ev : Evaluator} {m m' : Machine} {stop : Stop}

/-- A global is the same behind the definition of another one. -/
theorem readSuperclass_define {name : Name} {superclass : Option (Reference Place)} (v : Value)
    (apart : ∀ r ∈ superclass, r.mark = .global ∧ r.name.text ≠ name.text) :
    Commutes (fun m => { m with store := m.store.define .globals name.text v })
      (readSuperclass superclass) := by
  cases superclass with
  | none => exact .pure _
  | some r =>
    obtain ⟨isGlobal, ne⟩ := apart r rfl
    simp only [readSuperclass, isGlobal]
    apply Commutes.bind
    · refine .read fun m => ?_
      have same : (m.store.define .globals name.text v).lookup? Environment.globals.path
          r.name.text = m.store.lookup? Environment.globals.path r.name.text := by
        simp only [Store.lookup?, Environment.path, Environment.globals, List.findSome?_cons,
          Store.define, Store.get?_setVariable, ne, and_false, if_false]
      simp only [Store.get, same]
    · intro value
      split
      · exact .pure _
      · exact .fault _

/-- Looking up a superclass leaves the machine as it is. -/
theorem readSuperclass_left (superclass : Option (Reference Place)) :
    Preserves (fun m => m) (readSuperclass superclass) := by
  cases superclass with
  | none => exact .pure _
  | some r =>
    refine .bind ?_ fun value => ?_
    · cases h : r.mark with
      | global => exact .read _
      | scope hops => exact .read _
    · split
      · exact .pure _
      · exact .fault _

/-- The machine on which a class looks up its superclass. -/
def bindingNil (name : Name) (m : Machine) : Machine :=
  { m with store := m.store.define .globals name.text .nil }

variable {name : Name} {superclass : Option (Reference Place)}
  {methods : List (FunctionDecl Place)} {parent : Option Class}

/-- The scopes of the methods are opened without a change to those that are there. -/
theorem methodEnvironment_eq (parent : Option Class) (m : Machine) :
    ∃ e m', methodEnvironment parent m = .ok e m' ∧ m'.current = m.current ∧
      ∀ id < m.store.frames.size, m'.store.frame id = m.store.frame id := by
  cases parent with
  | none => exact ⟨_, m, rfl, rfl, fun _ _ => rfl⟩
  | some c =>
    refine ⟨_, _, rfl, rfl, fun id lt => ?_⟩
    exact Store.frame_pushFrame_of_lt _ lt

/-- Nothing can fail while a class is made, and the scope that was active is active again. -/
theorem newClass_eq (e : Environment) (name : String) (parent : Option Class)
    (methods : List (FunctionDecl Place)) (m : Machine) :
    ∃ made, withEnvironment e (newClass name parent methods) m =
      .ok made { m with store := m.store.takeObject } :=
  ⟨_, rfl⟩

theorem declareClass_missing (globals : m.current = .globals)
    (missing : readSuperclass superclass (bindingNil name m) = .error stop m') :
    declareClass name superclass methods m = .error stop m' := by
  simp only [bindingNil, ← globals] at missing
  simp only [declareClass, Bind.bind, EStateM.bind, define, missing]

/-- A class is bound before its superclass is looked up, so it can get its value behind that. -/
theorem declareClass_found (globals : m.current = .globals) (rooted : 0 < m.store.frames.size)
    (found : readSuperclass superclass (bindingNil name m) = .ok parent (bindingNil name m)) :
    ∃ m', declareClass name superclass methods m = .ok () m' := by
  have bound : ((bindingNil name m).store.frame 0).contains name.text = true := by
    simp [bindingNil, Store.define, Store.contains_setVariable, Environment.globals, rooted]
  obtain ⟨e, m₂, opened, current, frames⟩ := methodEnvironment_eq parent (bindingNil name m)
  have still : (m₂.store.frame 0).contains name.text = true := by
    rw [frames 0 (Store.lt_of_contains bound)]
    exact bound
  have assigned (made : Value) : m₂.store.takeObject.assign .globals name made =
      .ok (m₂.store.takeObject.setVariable 0 name.text made) :=
    Store.assign_of_contains still made
  obtain ⟨made, makes⟩ := newClass_eq e name.text parent methods m₂
  have isGlobal : m₂.current = .globals := current.trans globals
  have defined : define name.text .nil m = .ok () (bindingNil name m) := by
    simp only [define, bindingNil, globals]
  simp only [declareClass, Bind.bind, EStateM.bind, defined, found, opened, makes, Run.current, assign,
    isGlobal, assigned]
  exact ⟨_, rfl⟩

/-- A class that is declared among the globals can fail only where its superclass is looked up, and
is then bound to `nil`. -/
theorem declareClass_fails (globals : m.current = .globals) (rooted : 0 < m.store.frames.size)
    (apart : ∀ r ∈ superclass, r.mark = .global ∧ r.name.text ≠ name.text)
    (failed : declareClass name superclass methods m = .error stop m') :
    readSuperclass superclass m = .error stop m ∧ m' = bindingNil name m := by
  have same : readSuperclass superclass (bindingNil name m) =
      changed (bindingNil name) (readSuperclass superclass m) := readSuperclass_define .nil apart m
  have still := readSuperclass_left superclass m
  cases result : readSuperclass superclass m with
  | ok parent m₁ =>
    rw [result] at same still
    cases still
    obtain ⟨m₂, declared⟩ := declareClass_found globals rooted same
    rw [declared] at failed
    cases failed
  | error stop' m₁ =>
    rw [result] at same still
    cases still
    rw [declareClass_missing globals same] at failed
    cases failed
    exact ⟨rfl, rfl⟩

/-- A declaration at the top level can fail only in what it evaluates. It has then bound nothing but
what it binds early. -/
theorem exec_fails {fuel : Nat} {d : Stmt Place} {f : Fault} (declares : d.isDeclaration = true)
    (inherits : d.InheritsGlobally) (globals : m.current = .globals)
    (rooted : 0 < m.store.frames.size)
    (failed : (evaluator (fuel + 1)).exec d m = .error (.fault f) m') :
    ∃ m₀, prepare (evaluator fuel) d m = .error (.fault f) m₀ ∧
      m'.store = d.bindEarly m₀.store := by
  have failed : execWith fuel (evaluator fuel) d m = .error (.fault f) m' := failed
  cases d with
  | declare name initializer =>
    simp only [execWith, Bind.bind, EStateM.bind] at failed
    simp only [prepare, Bind.bind, EStateM.bind]
    cases result : eval? (evaluator fuel) initializer m with
    | ok v m₁ =>
      rw [result] at failed
      cases failed
    | error stop m₁ =>
      rw [result] at failed
      cases failed
      exact ⟨m', rfl, rfl⟩
  | function declaration => cases failed
  | classDecl name superclass methods =>
    simp only [execWith, Bind.bind, EStateM.bind] at failed
    cases result : declareClass name superclass methods m with
    | ok _ m₁ =>
      rw [result] at failed
      cases failed
    | error stop m₁ =>
      rw [result] at failed
      cases failed
      have apart : ∀ r ∈ superclass, r.mark = .global ∧ r.name.text ≠ name.text := by
        rintro r rfl
        exact inherits
      obtain ⟨missing, rfl⟩ := declareClass_fails globals rooted apart result
      refine ⟨m, ?_, rfl⟩
      simp only [prepare, Bind.bind, EStateM.bind, missing]
  | expression | print | block | conditional | loop | ret => cases declares

end Run

/-! ## Programs that are accepted -/

/-- A class that is accepted at the top level inherits from another global. -/
theorem Stmt.inheritsGlobally_placed {s : Stmt Unit} (accepted : s.violations .top = []) :
    (s.placed []).InheritsGlobally := by
  cases s with
  | classDecl name superclass methods =>
    cases superclass with
    | none => trivial
    | some r =>
      rw [Stmt.placed_classDecl]
      refine ⟨rfl, fun same => ?_⟩
      have same : r.name.text = name.text := same
      simp [Stmt.violations, selfInheritance, violationIf, same] at accepted
  | conditional condition thenBranch elseBranch =>
    cases elseBranch with
    | none => trivial
    | some e => trivial
  | expression | print | declare | block | loop | function | ret => trivial

theorem Stmt.inheritsGlobally_of_mem {tree : List (Stmt Unit)}
    (accepted : Stmt.violationsAll .top tree = []) {d : Stmt Place}
    (mem : d ∈ Stmt.placedAll [] tree) : d.InheritsGlobally := by
  induction tree with
  | nil => cases mem
  | cons s ss ih =>
    have behind : Context.top.within (s.scopesAfter Context.top.scopes) = .top := by
      rw [show Context.top.scopes = [] from rfl, Stmt.scopesAfter_nil]
      rfl
    obtain ⟨first, rest⟩ := List.append_eq_nil_iff.1 accepted
    rw [behind] at rest
    rw [Stmt.placedAll_cons, Stmt.scopesAfter_nil] at mem
    cases mem with
    | head => exact Stmt.inheritsGlobally_placed first
    | tail _ mem => exact ih rest mem

/-- Some scope is there whatever has been asked of a session: that of the globals. -/
theorem Session.after_rooted (sink : Sink) (clock : Clock) (requests : List Request) :
    0 < ((Session.start sink clock).after requests).machine.store.frames.size := by
  have watched := (WatchedSession.good_after sink clock requests).watch.globals
  have same := (WatchedSession.start sink clock).after_forget requests
  rw [show (WatchedSession.start sink clock).forget = Session.start sink clock from rfl] at same
  rw [← same]
  exact watched

open Run (Completes)

/-- **A declaration that fails leaves the globals as its evaluation left them.** Let a session,
after whatever requests, accept a text; let the statements before a declaration complete normally
and the declaration fail. Then what it evaluates, its initializer or the name of its superclass,
fails by itself on the same machine, and behind the run everything that is bound is bound as that
left it, but for the name of a class, which was bound to `nil` before. -/
theorem failed_declaration_globals (sink : Sink) (clock : Clock) (requests : List Request)
    (fuel : Nat) (source : String) (located : List (Stmt (RefId × Place))) :
    let s := (Session.start sink clock).after requests
    (s.check source).1 = .ok located →
      ∀ before d rest m f m', runnable located = before ++ d :: rest → d.isDeclaration = true →
        Completes (evaluator (fuel + 1)) before s.machine m →
          (evaluator (fuel + 1)).exec d m = .error (.fault f) m' →
            ∃ m₀, Run.prepare (evaluator fuel) d m = .error (.fault f) m₀ ∧
              (s.run (fuel + 1) source).2.machine.store = d.bindEarly m₀.store := by
  intro s accepted before d rest m f m' split declares completes failed
  obtain ⟨tree, isProgram, runs⟩ := isProgram_of_checkProgram (Session.check_eq_ok.1 accepted)
  obtain ⟨_, _, _, _, noViolations⟩ := isProgram
  have ran := Run.program_eq_ok.2 completes
  have inherits : d.InheritsGlobally := by
    apply Stmt.inheritsGlobally_of_mem noViolations
    rw [← runs, split]
    simp
  have globals : m.current = .globals := by
    have same := Run.current_uniform.program (evaluator_restores (fuel + 1)) before s.machine
    rw [ran] at same
    exact same.trans (Session.after_current _ requests)
  have rooted : 0 < m.store.frames.size := by
    have keeps := Run.KeepsScopes.uniform.evaluator (fuel + 1)
    have more := Run.KeepsScopes.uniform.program keeps before s.machine
    rw [ran] at more
    exact Nat.lt_of_lt_of_le (Session.after_rooted sink clock requests) more
  obtain ⟨m₀, prepared, same⟩ := Run.exec_fails declares inherits globals rooted failed
  refine ⟨m₀, prepared, ?_⟩
  have raised : Run.program (evaluator (fuel + 1)) (before ++ d :: rest) s.machine =
      .error (.fault f) m' := (Run.Raises.failed failed).program_eq completes
  have stopped := Run.interpret_of_fault raised
  rw [← split] at stopped
  rw [← same, (Session.run_of_check accepted _).2, stopped]
  rfl

/-- A session in which a variable and a class are there. -/
def redeclaring : Session :=
  (Session.start .reliable (.ticking 0)).after [.run 9 "var a = true; class B \x7b\x7d"]

/-- A variable whose new initializer fails keeps its value. -/
theorem failed_declaration_globals_initializer :
    let nope {ρ : Type} (mark : ρ) : Stmt ρ :=
      .declare ⟨"a", 1⟩ (some (.variable ⟨⟨"nope", 1⟩, mark⟩))
    let m := redeclaring.machine
    let f : Fault := .runtime (.undefinedVariable "nope") 1
    (redeclaring.check "var a = nope;").1 = .ok [nope (0, .global)] ∧
      Completes (evaluator 9) [] m m ∧ (evaluator 9).exec (nope .global) m = .error (.fault f) m ∧
        (∃ m₀, Run.prepare (evaluator 8) (nope .global) m = .error (.fault f) m₀ ∧
          (redeclaring.run 9 "var a = nope;").2.machine.store = m₀.store) ∧
        ((redeclaring.run 9 "var a = nope;").2.machine.store.frame 0).get? "a" =
          some (.boolean true) := by
  intro nope m f
  have accepted : (redeclaring.check "var a = nope;").1 = .ok [nope (0, .global)] := rfl
  have failed : (evaluator 9).exec (nope .global) m = .error (.fault f) m := rfl
  exact ⟨accepted, .none, failed, failed_declaration_globals .reliable (.ticking 0) _ 8 _ _ accepted
    [] _ [] m f m rfl rfl .none failed, rfl⟩

/-- A class whose superclass is no class loses the value that its name had: looking up the
superclass leaves the name bound to the class that was there, but the declaration leaves it bound to
`nil`. -/
theorem failed_class_loses_global :
    let d : Stmt Place := .classDecl ⟨"B", 1⟩ (some ⟨⟨"a", 1⟩, .global⟩) []
    let m := redeclaring.machine
    let f : Fault := .runtime .superclassNotClass 1
    (∃ located, (redeclaring.check "class B < a \x7b\x7d").1 = .ok located ∧
      runnable located = [d]) ∧
      Run.prepare (evaluator 8) d m = .error (.fault f) m ∧
        (∃ c, (m.store.frame 0).get? "B" = some (.callable (.ofClass c))) ∧
          (redeclaring.run 9 "class B < a \x7b\x7d").1 = .error (.stopped f) ∧
            ((redeclaring.run 9 "class B < a \x7b\x7d").2.machine.store.frame 0).get? "B" =
              some .nil := by
  intro d m f
  exact ⟨⟨_, rfl, rfl⟩, rfl, ⟨_, rfl⟩, rfl, rfl⟩

end Lox
