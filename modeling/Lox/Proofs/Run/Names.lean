import Lox.Proofs.Run.Onward
import Lox.Proofs.Scope.Declarations

/-!
# Where names are bound

Only declarations bind names, and only in the scope that they stand in. Whatever is evaluated, the
scopes that there were bind the same names behind it; whatever statement is run, only the active one
may bind further names, those that the statement declares. So a block leaves no name behind.
-/

namespace Lox

/-- The names that a statement binds in the scope that it stands in. A branch or the body of a loop
stands in the same scope. -/
def Stmt.binds {ρ : Type} : Stmt ρ → List String
  | .declare name _ => [name.text]
  | .function d => [d.name.text]
  | .classDecl name _ _ => [name.text]
  | .conditional _ thenBranch none => thenBranch.binds
  | .conditional _ thenBranch (some elseBranch) => thenBranch.binds ++ elseBranch.binds
  | .loop _ body => body.binds
  | .expression _ | .print _ | .block _ | .ret .. => []

/-- A statement that is shaped as parsed ones are binds what it declares itself. -/
theorem Stmt.Shaped.binds_eq {ρ : Type} {allowed : String → Prop} : ∀ {s : Stmt ρ},
    s.Shaped allowed → s.binds = s.declared?.toList
  | .declare .., _ | .function ⟨_, _, _⟩, _ | .classDecl .., _ => rfl
  | .expression _, _ | .print _, _ | .block _, _ | .ret .., _ => rfl
  | .conditional _ thenBranch none, ⟨_, plain, shaped⟩ => by
    rw [binds, Shaped.binds_eq shaped, declared?_of_not_isDeclaration plain]
    rfl
  | .conditional _ thenBranch (some elseBranch), ⟨_, ⟨plain, shaped⟩, plain', shaped'⟩ => by
    rw [binds, Shaped.binds_eq shaped, Shaped.binds_eq shaped',
      declared?_of_not_isDeclaration plain, declared?_of_not_isDeclaration plain']
    rfl
  | .loop _ body, ⟨_, plain, shaped⟩ => by
    rw [binds, Shaped.binds_eq shaped, declared?_of_not_isDeclaration plain]
    rfl

/-- Which names are bound is no matter of marks. -/
theorem Stmt.binds_mapMarks {ρ σ : Type} (f : String → ρ → σ) : ∀ s : Stmt ρ,
    (s.mapMarks f).binds = s.binds
  | .declare .. | .function ⟨_, _, _⟩ | .classDecl .. => rfl
  | .expression _ | .print _ | .block _ | .ret .. => rfl
  | .conditional _ thenBranch none => binds_mapMarks f thenBranch
  | .conditional _ thenBranch (some elseBranch) => by
    rw [mapMarks, binds, binds, binds_mapMarks f thenBranch, binds_mapMarks f elseBranch]
  | .loop _ body => binds_mapMarks f body

namespace Run

variable {α β : Type} {names : List String} {m m' : Machine}

/-- The same scope is active, and the scopes of `m` bind the same names in `m'`; only the active one
may bind some of `names` as well. -/
structure BindsOnly (names : List String) (m m' : Machine) : Prop where
  scopes : m.store.frames.size ≤ m'.store.frames.size
  active : m'.current = m.current
  keeps : ∀ {id : FrameId} {name : String}, (m.store.frame id).contains name = true →
    (m'.store.frame id).contains name = true
  adds : ∀ {id : FrameId} {name : String}, id < m.store.frames.size →
    (m'.store.frame id).contains name = true →
      (m.store.frame id).contains name = true ∨ id = m.current.frame ∧ name ∈ names

namespace BindsOnly

theorem of_frames (names : List String) (m m' : Machine)
    (same : (m'.store.frames, m'.current) = (m.store.frames, m.current)) :
    BindsOnly names m m' := by
  obtain ⟨frames, active⟩ := Prod.mk.inj same
  have frame (target : FrameId) : m'.store.frame target = m.store.frame target := by
    unfold Store.frame
    rw [frames]
  refine ⟨Nat.le_of_eq (by rw [frames]), active, fun {target _} bound => ?_,
    fun {target _} _ bound => ?_⟩
  · rw [frame target]
    exact bound
  · rw [frame target] at bound
    exact .inl bound

theorem trans (names : List String) (m₁ m₂ m₃ : Machine) (first : BindsOnly names m₁ m₂)
    (second : BindsOnly names m₂ m₃) : BindsOnly names m₁ m₃ where
  scopes := Nat.le_trans first.scopes second.scopes
  active := second.active.trans first.active
  keeps bound := second.keeps (first.keeps bound)
  adds lt bound := by
    rcases second.adds (Nat.lt_of_lt_of_le lt first.scopes) bound with before | ⟨active, mem⟩
    · exact first.adds lt before
    · exact .inr ⟨active.trans (congrArg Environment.frame first.active), mem⟩

theorem mono {names' : List String} (h : BindsOnly names m m') (sub : names ⊆ names') :
    BindsOnly names' m m' :=
  ⟨h.scopes, h.active, h.keeps, fun lt bound => (h.adds lt bound).imp_right (And.imp_right (sub ·))⟩

end BindsOnly

/-- However the part of a run ends, it has bound these names at most, and those in the active
scope. -/
abbrev Binds (names : List String) (act : Run α) : Prop := Onward (BindsOnly names) act

namespace Binds

/-! ## Steps -/

theorem of_preserves {act : Run α}
    (same : Preserves (fun m => (m.store.frames, m.current)) act) : Binds names act :=
  Onward.of_preserves same (BindsOnly.of_frames names)

theorem pure (a : α) : Binds names (Pure.pure a : Run α) := of_preserves (.pure a)

theorem fault (f : Fault) : Binds names (Run.fault f : Run α) := of_preserves (.fault f)

theorem outOfFuel : Binds names (Run.outOfFuel : Run α) := of_preserves .outOfFuel

theorem read (f : Machine → Except Fault α) : Binds names (Run.read f) := of_preserves (.read f)

theorem bind {act : Run α} {next : α → Run β} (first : Binds names act)
    (rest : ∀ a, Binds names (next a)) : Binds names (act >>= next) :=
  Onward.bind (BindsOnly.trans names) first rest

theorem mono {names' : List String} {act : Run α} (h : Binds names act) (sub : names ⊆ names') :
    Binds names' act := fun m => (h m).mono sub

theorem anyway {act : Run α} (h : Binds [] act) : Binds names act := h.mono (List.nil_subset _)

theorem define (name : String) (v : Value) : Binds [name] (Run.define name v) := by
  intro m
  refine ⟨Nat.le_of_eq (Store.size_setVariable ..).symm, rfl, fun {target other} bound => ?_,
    fun {target other} _ bound => ?_⟩
  · show ((m.store.setVariable _ _ _).frame target).contains other = true
    rw [Store.contains_setVariable, bound, Bool.or_true]
  · have bound : ((m.store.setVariable _ _ _).frame target).contains other = true := bound
    rw [Store.contains_setVariable, Bool.or_eq_true, decide_eq_true_eq] at bound
    rcases bound with ⟨⟨here, -⟩, same⟩ | before
    · exact .inr ⟨here, same ▸ List.mem_singleton_self _⟩
    · exact .inl before

/-- A variable that is there gets a new value. -/
theorem setVariable {m m' : Machine} {target : FrameId} {name : String} {v : Value}
    (bound : (m.store.frame target).contains name = true)
    (same : m' = { m with store := m.store.setVariable target name v }) : BindsOnly names m m' := by
  subst same
  have keeps (id : FrameId) (other : String) :
      ((m.store.setVariable target name v).frame id).contains other =
        (m.store.frame id).contains other :=
    Store.contains_setVariable_of_contains bound id other
  exact ⟨Nat.le_of_eq (Store.size_setVariable ..).symm, rfl, fun before => (keeps _ _).trans before,
    fun _ after => .inl ((keeps _ _).symm.trans after)⟩

theorem assign (e : Environment) (name : Name) (v : Value) : Binds names (Run.assign e name v) := by
  intro m
  unfold Run.assign Store.assign
  cases found : m.store.binder? e.path name.text with
  | none => exact BindsOnly.of_frames names m m rfl
  | some target => exact setVariable (Store.binder?_contains found) rfl

theorem assignAt (hops : Nat) (name : String) (v : Value) :
    Binds names (Run.assignAt hops name v) := by
  intro m
  unfold Run.assignAt Store.assignAt
  cases found : m.store.binderAt m.current hops name with
  | error f => exact BindsOnly.of_frames names m m rfl
  | ok target => exact setVariable (Store.binderAt_contains found) rfl

theorem write (text : String) : Binds names (Run.write text) := by
  intro m
  unfold Run.write
  cases m.sink.refusal .write m.sink.requests with
  | none => exact BindsOnly.of_frames names m _ rfl
  | some message => exact BindsOnly.of_frames names m _ rfl

theorem newFrame (outer : Environment) (bound : Bindings Value) :
    Binds names (Run.newFrame outer bound) := by
  intro m
  refine ⟨?_, rfl, fun {target name} before => ?_, fun {target name} lt after => .inl ?_⟩
  · show _ ≤ (m.store.pushFrame bound).frames.size
    rw [Store.size_pushFrame]
    exact Nat.le_succ _
  · show ((m.store.pushFrame bound).frame target).contains name = true
    rw [Store.frame_pushFrame_of_lt bound (Store.lt_of_contains before)]
    exact before
  · have after : ((m.store.pushFrame bound).frame target).contains name = true := after
    rw [Store.frame_pushFrame_of_lt bound lt] at after
    exact after

/-- What is bound in a scope that is opened for it is bound in no scope that there was. -/
theorem inNewFrame (outer : Environment) (bound : Bindings Value) {act : Run α}
    (inner : Binds names act) :
    Binds [] (Run.newFrame outer bound >>= fun e => Run.withEnvironment e act) := by
  intro m
  have opened : BindsOnly [] m { m with store := m.store.pushFrame bound } :=
    newFrame outer bound m
  have within := inner { m with
    store := m.store.pushFrame bound
    current := ⟨m.store.frames.size, outer.path⟩ }
  have both : ∀ m', BindsOnly names { m with
        store := m.store.pushFrame bound
        current := ⟨m.store.frames.size, outer.path⟩ } m' →
      BindsOnly [] m { m' with current := m.current } := by
    intro m' h
    refine ⟨Nat.le_trans opened.scopes h.scopes, rfl, fun before => h.keeps (opened.keeps before),
      fun lt after => ?_⟩
    rcases h.adds (Nat.lt_of_lt_of_le lt opened.scopes) after with before | ⟨new, -⟩
    · exact opened.adds lt before
    · exact absurd new (Nat.ne_of_lt lt)
  show BindsOnly [] m (left (Run.withEnvironment _ act { m with store := m.store.pushFrame bound }))
  unfold Run.withEnvironment
  dsimp only
  generalize act _ = r at within ⊢
  cases r with
  | ok a m' => exact both m' within
  | error stop m' => exact both m' within

/-! ## Variables, methods and classes -/

theorem readVariable (place : Place) (name : Name) : Binds names (Run.readVariable place name) := by
  cases place <;> exact read _

theorem assignVariable (place : Place) (name : Name) (v : Value) :
    Binds names (Run.assignVariable place name v) := by
  cases place with
  | scope hops => exact assignAt hops name.text v
  | global => exact assign .globals name v

theorem liftCause (line : Nat) (result : Except RuntimeCause α) :
    Binds names (Run.liftCause line result) := by
  cases result with
  | ok a => exact pure a
  | error cause => exact fault _

theorem newObject : Binds names Run.newObject := of_preserves fun _ => rfl

theorem newFunction (c : Closure) : Binds names (Run.newFunction c) :=
  newObject.bind fun _ => pure _

theorem bindMethod (method : Closure) (i : Instance) : Binds names (Run.bindMethod method i) :=
  (newFrame _ _).bind fun _ => pure _

theorem methodOf (c : Class) (i : Instance) (name : Name) : Binds names (Run.methodOf c i name) := by
  unfold Run.methodOf
  cases c.findMethod? name.text with
  | some method => exact (bindMethod method i).bind fun bound => newFunction bound
  | none => exact fault _

theorem getProperty (object : Value) (name : Name) : Binds names (Run.getProperty object name) := by
  cases object with
  | ofInstance i =>
    apply (read _).bind
    intro field
    cases field with
    | some value => exact pure value
    | none => exact methodOf i.ofClass i name
  | nil | boolean | number | string | callable => exact fault _

theorem superAt (hops : Nat) : Binds names (Run.superAt hops) := by
  apply (read _).bind
  intro value
  split
  · cases hops with
    | zero => exact fault _
    | succ inner =>
      apply (read _).bind
      intro receiver
      split
      · exact pure _
      · exact fault _
  · exact fault _

theorem superMethod (place : Place) (method : Name) : Binds names (Run.superMethod place method) := by
  cases place with
  | global => exact fault _
  | scope hops => exact (superAt hops).bind fun found => methodOf found.1 found.2 method

theorem readSuperclass (superclass : Option (Reference Place)) :
    Binds names (Run.readSuperclass superclass) := by
  cases superclass with
  | none => exact pure none
  | some r =>
    apply (readVariable r.mark r.name).bind
    intro value
    split
    · exact pure _
    · exact fault _

theorem methodEnvironment (parent : Option Class) : Binds names (Run.methodEnvironment parent) := by
  cases parent with
  | none => exact of_preserves fun _ => rfl
  | some c => exact (of_preserves fun _ => rfl).bind fun e => newFrame e _

/-- A class is made without a change to any scope, whichever one it is made in. -/
theorem newClass (e : Environment) (name : String) (superclass : Option Class)
    (methods : List (FunctionDecl Place)) :
    Binds names (Run.withEnvironment e (Run.newClass name superclass methods)) :=
  of_preserves fun _ => rfl

theorem declareClass (name : Name) (superclass : Option (Reference Place))
    (methods : List (FunctionDecl Place)) :
    Binds [name.text] (Run.declareClass name superclass methods) := by
  apply (define name.text .nil).bind
  intro _
  apply (readSuperclass superclass).bind
  intro parent
  apply (methodEnvironment parent).bind
  intro e
  apply (newClass e name.text parent methods).bind
  intro made
  exact (of_preserves fun _ => rfl).bind fun home => assign home name _

end Binds

end Run

/-- Expressions bind no names, and statements those of theirs. -/
structure Evaluator.Binds (ev : Evaluator) : Prop where
  eval : ∀ e, Run.Binds [] (ev.eval e)
  exec : ∀ s, Run.Binds s.binds (ev.exec s)

namespace Run.Binds

variable {α β : Type} {names : List String} {ev : Evaluator} (h : ev.Binds)
include h

/-! ## Calls -/

theorem evalAll (es : List (Expr Place)) : Binds [] (Run.evalAll ev es) := by
  induction es with
  | nil => exact pure []
  | cons e es ih => exact (h.eval e).bind fun v => ih.bind fun vs => pure (v :: vs)

theorem execAll (ss : List (Stmt Place)) : Binds (ss.flatMap Stmt.binds) (Run.execAll ev ss) := by
  induction ss with
  | nil => exact pure _
  | cons s ss ih =>
    rw [List.flatMap_cons]
    apply ((h.exec s).mono (List.subset_append_left ..)).bind
    intro completion
    cases completion with
    | normal => exact ih.mono (List.subset_append_right ..)
    | returned value => exact pure _

theorem callClosure (c : Closure) (arguments : List Value) :
    Binds [] (Run.callClosure ev c arguments) := by
  have body := inNewFrame c.environment (parameters c.declaration.params arguments)
    (execAll h c.declaration.body)
  exact body.bind fun completion => by
    split
    · exact read _
    · exact pure _

theorem instantiate (c : Class) (arguments : List Value) :
    Binds [] (Run.instantiate ev c arguments) := by
  apply (of_preserves fun _ => rfl : Binds [] (newInstance c)).bind
  intro i
  cases c.findMethod? initializerName with
  | none => exact pure _
  | some method =>
    exact (bindMethod method i).bind fun bound => (callClosure h bound arguments).bind fun _ => pure _

theorem callValue (callee : Value) (arguments : List Value) (line : Nat) :
    Binds [] (Run.callValue ev callee arguments line) := by
  cases callee with
  | callable c =>
    unfold Run.callValue
    dsimp only
    split
    · cases c with
      | native f => exact of_preserves fun _ => rfl
      | function id c => exact callClosure h c arguments
      | ofClass c => exact instantiate h c arguments
    · exact fault _
  | nil | boolean | number | string | ofInstance => exact fault _

/-! ## Expressions and statements -/

theorem setProperty (object : Value) (name : Name) (value : Expr Place) :
    Binds [] (Run.setProperty ev object name value) := by
  cases object with
  | ofInstance i =>
    exact (h.eval value).bind fun v => (of_preserves fun _ => rfl).bind fun _ => pure v
  | nil | boolean | number | string | callable => exact fault _

theorem evalWith (e : Expr Place) : Binds [] (Run.evalWith ev e) := by
  cases e with
  | literal value => exact pure _
  | grouping inner => exact h.eval inner
  | unary op line operand => exact (h.eval operand).bind fun v => liftCause line _
  | binary op line left right =>
    exact (h.eval left).bind fun l => (h.eval right).bind fun r => liftCause line _
  | logical op left right =>
    apply (h.eval left).bind
    intro l
    split
    · exact pure l
    · exact h.eval right
  | «variable» target => exact readVariable target.mark target.name
  | assign target value =>
    exact (h.eval value).bind fun v =>
      (assignVariable target.mark target.name v).bind fun _ => pure v
  | call callee line arguments =>
    exact (h.eval callee).bind fun f => (evalAll h arguments).bind fun vs => callValue h f vs line
  | get object property => exact (h.eval object).bind fun o => getProperty o property
  | set object property value =>
    exact (h.eval object).bind fun o => setProperty h o property value
  | this line mark => exact readVariable mark _
  | super line mark method => exact superMethod mark method

theorem eval? (value : Option (Expr Place)) : Binds [] (Run.eval? ev value) := by
  cases value with
  | none => exact pure _
  | some e => exact h.eval e

theorem loop (n : Nat) (condition : Expr Place) (body : Stmt Place) :
    Binds body.binds (Run.loop ev n condition body) := by
  induction n with
  | zero => exact outOfFuel
  | succ n ih =>
    apply (h.eval condition).anyway.bind
    intro holds
    split
    · apply (h.exec body).bind
      intro completion
      cases completion with
      | normal => exact ih
      | returned value => exact pure _
    · exact pure _

theorem choose (e : Expr Place) (condition : Value) (thenBranch : Stmt Place)
    (elseBranch : Option (Stmt Place)) :
    Binds (Stmt.conditional e thenBranch elseBranch).binds
      (Run.choose ev condition thenBranch elseBranch) := by
  cases elseBranch with
  | none =>
    unfold Run.choose
    dsimp only
    split
    · exact h.exec thenBranch
    · exact pure _
  | some other =>
    unfold Run.choose
    dsimp only
    split
    · exact (h.exec thenBranch).mono (List.subset_append_left ..)
    · exact (h.exec other).mono (List.subset_append_right ..)

theorem execWith (n : Nat) (s : Stmt Place) : Binds s.binds (Run.execWith n ev s) := by
  cases s with
  | expression value => exact (h.eval value).bind fun _ => pure _
  | print value => exact (h.eval value).bind fun v => (write _).bind fun _ => pure _
  | declare name initializer =>
    exact (eval? h initializer).anyway.bind fun v => (define _ v).bind fun _ => pure _
  | block body =>
    apply (of_preserves fun _ => rfl : Binds [] current).bind
    intro e
    exact inNewFrame e Bindings.empty (execAll h body)
  | conditional condition thenBranch elseBranch =>
    exact (h.eval condition).anyway.bind fun v => choose h condition v thenBranch elseBranch
  | loop condition body => exact loop h n condition body
  | function declaration =>
    apply (of_preserves fun _ => rfl : Binds _ current).bind
    intro e
    apply (newFunction _).bind
    intro f
    exact (define _ f).bind fun _ => pure _
  | ret line value => exact (eval? h value).bind fun v => pure _
  | classDecl name superclass methods =>
    exact (declareClass name superclass methods).bind fun _ => pure _

end Run.Binds

/-- **Only declarations bind names.** -/
theorem evaluator_binds (n : Nat) : (evaluator n).Binds := by
  induction n with
  | zero => exact ⟨fun _ => .outOfFuel, fun _ => .outOfFuel⟩
  | succ n ih => exact ⟨fun e => Run.Binds.evalWith ih e, fun s => Run.Binds.execWith ih n s⟩

end Lox
