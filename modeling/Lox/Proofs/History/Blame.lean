import Lox.Proofs.History.Sessions
import Lox.Proofs.Scope.Origins
import Lox.Proofs.Store.Chains

/-!
# Where a run fails

A part of a program can fail by itself on few lines, its `ownLines`; else it fails where one of its
own parts does. `Blames lines t` says of a part `t` of a chronicled run, of whatever program, that a
runtime error in it is on one of the `lines` or on a line of a part that has been reached by then.
So with any fuel a runtime error is on a line of a part that has been reached
(`chronicler_blames`), and in a program made of tokens it is on the line of one of them
(`Chronicled.interpret_fails_on`).
-/

namespace Lox

/-! ## Lines of a part -/

/-- The lines on which the expression may fail when its operands have not. -/
def Expr.ownLines {ρ : Type} : Expr ρ → List Nat
  | .literal _ | .grouping _ | .logical .. => []
  | .unary _ line _ | .binary _ line _ _ | .call _ line _ | .this line _ => [line]
  | .variable target | .assign target _ => [target.name.line]
  | .get _ property | .set _ property _ => [property.line]
  | .super _ _ method => [method.line]

/-- The lines on which the statement may fail when its parts have not. -/
def Stmt.ownLines {ρ : Type} : Stmt ρ → List Nat
  | .classDecl name superclass _ => name.line :: superclass.toList.map (·.name.line)
  | .expression _ | .print _ | .declare .. | .block _ | .conditional .. | .loop .. | .function _
  | .ret .. => []

/-- The lines on which the part of a program may fail when its own parts have not. -/
def Node.ownLines : Node → List Nat
  | .expression e => e.ownLines
  | .statement s => s.ownLines
  | .statements _ => []

section

variable {ok : Token → Prop} {ρ : Type} {line : Nat}

theorem Expr.From.ownLine {e : Expr ρ} (h : e.From ok) (mem : line ∈ e.ownLines) :
    LineFrom ok line := by
  cases e with
  | literal | grouping | logical => cases mem
  | unary | binary => exact List.mem_singleton.1 mem ▸ h.1
  | call => exact List.mem_singleton.1 mem ▸ h.2.1
  | this => exact List.mem_singleton.1 mem ▸ h
  | «variable» => exact List.mem_singleton.1 mem ▸ Name.From.line h
  | assign => exact List.mem_singleton.1 mem ▸ h.1.line
  | get => exact List.mem_singleton.1 mem ▸ h.2.line
  | set => exact List.mem_singleton.1 mem ▸ h.2.1.line
  | super => exact List.mem_singleton.1 mem ▸ h.2.line

/-- A part made of tokens fails by itself on the line of one of them. -/
theorem Node.From.ownLine {n : Node} (h : n.From ok) (mem : line ∈ n.ownLines) :
    LineFrom ok line := by
  cases n with
  | expression e => exact Expr.From.ownLine h mem
  | statements ss => cases mem
  | statement s =>
    cases s with
    | classDecl name superclass methods =>
      obtain ⟨named, parent, -⟩ := h
      rcases List.mem_cons.1 mem with rfl | mem
      · exact named.line
      · obtain ⟨r, isParent, rfl⟩ := List.mem_map.1 mem
        exact (parent r (Option.mem_toList.1 isParent)).line
    | expression | print | declare | block | conditional | loop | function | ret => cases mem

end

/-! ## Plain steps -/

/-- A runtime error in the part of a run is on one of the lines. -/
def Run.FailsAt {α : Type} (lines : Nat → Prop) (act : Run α) : Prop :=
  ∀ m cause line m', act m = .error (.fault (.runtime cause line)) m' → lines line

namespace Run.FailsAt

variable {lines : Nat → Prop} {α β : Type}

theorem pure (a : α) : FailsAt lines (Pure.pure a) := nofun

theorem bind {act : Run α} {next : α → Run β} (first : FailsAt lines act)
    (rest : ∀ a, FailsAt lines (next a)) : FailsAt lines (act >>= next) := by
  intro m cause line m' failed
  simp only [Bind.bind, EStateM.bind] at failed
  cases result : act m with
  | ok a m₁ =>
    rw [result] at failed
    exact rest a m₁ cause line m' failed
  | error stop m₁ =>
    rw [result] at failed
    cases failed
    exact first m cause line _ result

theorem failWith {line : Nat} (h : lines line) (cause : RuntimeCause) :
    FailsAt lines (Run.failWith cause line : Run α) := by
  intro m cause line m' failed
  cases failed
  exact h

theorem mismatch (cause : ScopeMismatch) : FailsAt lines (Run.mismatch cause : Run α) := nofun

theorem outOfFuel : FailsAt lines (Run.outOfFuel : Run α) := nofun

theorem current : FailsAt lines Run.current := nofun

theorem newFrame (outer : Environment) (bound : Bindings Value) :
    FailsAt lines (Run.newFrame outer bound) := nofun

theorem newFunction (f : Closure) : FailsAt lines (Run.newFunction f) := nofun

theorem define (name : String) (v : Value) : FailsAt lines (Run.define name v) := nofun

theorem callNative (f : Native) : FailsAt lines (Run.callNative f) := by
  cases f with
  | clock => exact nofun

theorem read {f : Machine → Except Fault α}
    (fails : ∀ {m cause line}, f m = .error (.runtime cause line) → lines line) :
    FailsAt lines (Run.read f) := by
  intro m cause line m' failed
  unfold Run.read at failed
  split at failed
  · cases failed
  · next f fault =>
    cases failed
    exact fails fault

theorem getAt {f : Machine → Environment} {hops : Nat} {name : String} :
    FailsAt lines (Run.read fun m => m.store.getAt (f m) hops name) := by
  refine read fun {m cause line} failed => ?_
  by_cases bound : m.store.BindsAt (f m) name hops
  · obtain ⟨v, found⟩ := Store.getAt_isOk.2 bound
    rw [found] at failed
    cases failed
  · rw [Store.getAt_eq_error bound] at failed
    cases failed

theorem readVariable (place : Place) {name : Name} (h : lines name.line) :
    FailsAt lines (Run.readVariable place name) := by
  cases place with
  | scope hops => exact getAt
  | global =>
    refine read fun {m cause line} failed => ?_
    unfold Store.get at failed
    split at failed
    · cases failed
    · cases failed
      exact h

theorem assign (e : Environment) {name : Name} (h : lines name.line) (v : Value) :
    FailsAt lines (Run.assign e name v) := by
  intro m cause line m' failed
  unfold Run.assign Store.assign at failed
  split at failed
  · cases failed
  · next f fault =>
    split at fault
    · cases fault
    · cases fault
      cases failed
      exact h

theorem assignVariable (place : Place) {name : Name} (h : lines name.line) (v : Value) :
    FailsAt lines (Run.assignVariable place name v) := by
  cases place with
  | global => exact assign .globals h v
  | scope hops =>
    intro m cause line m' failed
    by_cases bound : m.store.BindsAt m.current name.text hops
    · obtain ⟨s, assigned⟩ := (Store.assignAt_isOk (v := v)).2 bound
      simp only [Run.assignVariable, Run.assignAt, assigned] at failed
      cases failed
    · simp only [Run.assignVariable, Run.assignAt, Store.assignAt_eq_error bound] at failed
      cases failed

theorem write (text : String) : FailsAt lines (Run.write text) := by
  intro m cause line m' failed
  unfold Run.write at failed
  split at failed <;> cases failed

theorem flush : FailsAt lines Run.flush := by
  intro m cause line m' failed
  unfold Run.flush at failed
  split at failed <;> cases failed

theorem liftCause {line : Nat} (h : lines line) (result : Except RuntimeCause α) :
    FailsAt lines (Run.liftCause line result) := by
  cases result with
  | ok a => exact pure a
  | error cause => exact failWith h cause

theorem superAt (hops : Nat) : FailsAt lines (Run.superAt hops) := by
  refine bind getAt fun value => ?_
  split
  · cases hops with
    | zero => exact mismatch _
    | succ inner =>
      refine bind getAt fun receiver => ?_
      split
      · exact pure _
      · exact mismatch _
  · exact mismatch _

theorem readSuperclass {superclass : Option (Reference Place)}
    (h : ∀ r ∈ superclass, lines r.name.line) : FailsAt lines (Run.readSuperclass superclass) := by
  cases superclass with
  | none => exact pure none
  | some r =>
    refine bind (readVariable r.mark (h r rfl)) fun value => ?_
    split
    · exact pure _
    · exact failWith (h r rfl) _

theorem methodEnvironment (parent : Option Class) :
    FailsAt lines (Run.methodEnvironment parent) := by
  cases parent with
  | none => exact current
  | some c => exact bind current fun e => newFrame e _

end Run.FailsAt

/-! ## Parts of a chronicled run -/

/-- The run has reached a part of a program that may fail by itself on the line. -/
def Chronicle.HasReached (w : Chronicle) (line : Nat) : Prop :=
  ∃ part, Did w.past (.reaches part) ∧ line ∈ part.ownLines

theorem Chronicle.HasReached.mono {w w' : Chronicle} {line : Nat} (h : w.HasReached line)
    (suffix : w.past <:+ w'.past) : w'.HasReached line := by
  obtain ⟨part, did, own⟩ := h
  exact ⟨part, did.mono suffix, own⟩

/-- A runtime error in the part of a run is on one of the lines, or on that of a part of the program
that has been reached by then. -/
def Blames {α : Type} (lines : Nat → Prop) (t : Chronicled α) : Prop :=
  ∀ w, match t w with
    | .ok _ w' => w.past <:+ w'.past
    | .error stop w' => w.past <:+ w'.past ∧
      ∀ cause line, stop = .fault (.runtime cause line) → lines line ∨ w'.HasReached line

/-- A runtime error in a part of a program is on the line of one that has been reached. -/
structure Chronicler.Blames (t : Chronicler) : Prop where
  eval : ∀ {lines} e, Lox.Blames lines (t.eval e)
  exec : ∀ {lines} s, Lox.Blames lines (t.exec s)

namespace Blames

variable {lines : Nat → Prop} {α β : Type}

theorem pure (a : α) : Blames lines (Pure.pure a : Chronicled α) := fun _ => List.suffix_refl _

theorem bind {t : Chronicled α} {next : α → Chronicled β} (first : Blames lines t)
    (rest : ∀ a, Blames lines (next a)) : Blames lines (t >>= next) := by
  intro w
  have first := first w
  simp only [Bind.bind, EStateM.bind]
  cases result : t w with
  | error stop w' =>
    rw [result] at first
    exact first
  | ok a w' =>
    rw [result] at first
    have second := rest a w'
    dsimp only
    cases result' : next a w' with
    | ok b w'' =>
      rw [result'] at second
      exact first.trans second
    | error stop w'' =>
      rw [result'] at second
      exact ⟨first.trans second.1, second.2⟩

theorem withEnvironment (e : Environment) {t : Chronicled α} (inner : Blames lines t) :
    Blames lines (Chronicled.withEnvironment e t) := by
  intro w
  have result := inner { w with machine := { w.machine with current := e } }
  unfold Chronicled.withEnvironment
  dsimp only
  cases ended : t { w with machine := { w.machine with current := e } } with
  | ok a w' | error stop w' =>
    rw [ended] at result
    exact result

/-- A step that is not written down. -/
theorem plain {act : Run α} (fails : Run.FailsAt lines act) :
    Blames lines (Chronicled.plain act) := by
  intro w
  unfold Chronicled.plain
  cases result : act w.machine with
  | ok a m => exact List.suffix_refl _
  | error stop m =>
    refine ⟨List.suffix_refl _, fun cause line same => .inl ?_⟩
    subst same
    exact fails _ _ _ _ result

theorem note (deed : Deed) : Blames lines (Chronicled.note deed) := fun _ => List.suffix_cons _ _

theorem newInstance (c : Class) : Blames lines (Chronicled.newInstance c) :=
  fun _ => List.suffix_cons _ _

theorem bindMethod (method : Closure) (i : Instance) :
    Blames lines (Chronicled.bindMethod method i) := fun _ => List.suffix_cons _ _

theorem setField (i : Instance) (property : String) (v : Value) :
    Blames lines (Chronicled.setField i property v) := fun _ => List.suffix_cons _ _

theorem newClass (name : String) (superclass : Option Class) (methods : List (FunctionDecl Place)) :
    Blames lines (Chronicled.newClass name superclass methods) := fun _ => List.suffix_cons _ _

/-- A part that has been reached may fail on its own lines. -/
theorem reaching (part : Node) {t : Chronicled α} (h : Blames (· ∈ part.ownLines) t) :
    Blames lines (do Chronicled.note (.reaches part); t) := by
  intro w
  have result := h ⟨w.machine, ⟨.reaches part, w.machine⟩ :: w.past⟩
  have noted : w.past <:+ ⟨.reaches part, w.machine⟩ :: w.past := List.suffix_cons _ _
  simp only [Bind.bind, EStateM.bind, Chronicled.note]
  revert result
  cases t ⟨w.machine, ⟨.reaches part, w.machine⟩ :: w.past⟩ with
  | ok a w' => exact noted.trans
  | error stop w' =>
    intro ⟨suffix, fails⟩
    refine ⟨noted.trans suffix, fun cause line same => .inr ?_⟩
    rcases fails cause line same with own | reached
    · exact ⟨part, ⟨w.machine, suffix.subset List.mem_cons_self⟩, own⟩
    · exact reached

theorem suffix {t : Chronicled α} (h : Blames lines t) {w w' : Chronicle} {a : α}
    (ended : t w = .ok a w') : w.past <:+ w'.past := by
  have result := h w
  rw [ended] at result
  exact result

theorem hasReached {t : Chronicled α} (h : Blames (fun _ => False) t) {w w' : Chronicle}
    {cause : RuntimeCause} {line : Nat} (failed : t w = .error (.fault (.runtime cause line)) w') :
    w'.HasReached line := by
  have result := h w
  rw [failed] at result
  exact (result.2 cause line rfl).resolve_left id

/-! ## Methods and properties -/

theorem methodOf (c : Class) (i : Instance) {name : Name} (h : lines name.line) :
    Blames lines (Chronicled.methodOf c i name) := by
  unfold Chronicled.methodOf
  cases c.findMethod? name.text with
  | none => exact plain (.failWith h _)
  | some method => exact (bindMethod method i).bind fun bound => plain (.newFunction bound)

theorem getProperty (object : Value) {name : Name} (h : lines name.line) :
    Blames lines (Chronicled.getProperty object name) := by
  cases object with
  | ofInstance i =>
    refine (note _).bind fun _ => (plain (.read nofun)).bind fun field => ?_
    cases field with
    | some value => exact pure value
    | none => exact methodOf i.ofClass i h
  | nil | boolean | number | string | callable => exact plain (.failWith h _)

theorem superMethod (place : Place) {method : Name} (h : lines method.line) :
    Blames lines (Chronicled.superMethod place method) := by
  cases place with
  | global => exact plain (.mismatch _)
  | scope hops => exact (plain (.superAt hops)).bind fun found => methodOf found.1 found.2 h

theorem declareClass {name : Name} {superclass : Option (Reference Place)}
    (methods : List (FunctionDecl Place)) (named : lines name.line)
    (parent : ∀ r ∈ superclass, lines r.name.line) :
    Blames lines (Chronicled.declareClass name superclass methods) :=
  (plain (.define _ _)).bind fun _ => (plain (.readSuperclass parent)).bind fun _ =>
    (plain (.methodEnvironment _)).bind fun e => (withEnvironment e (newClass _ _ _)).bind fun _ =>
      (plain .current).bind fun _ => plain (.assign _ named _)

/-! ## Calls -/

variable {t : Chronicler} (h : t.Blames)
include h

theorem evalAll (es : List (Expr Place)) : Blames lines (Chronicled.evalAll t es) := by
  induction es with
  | nil => exact pure []
  | cons e es ih => exact (h.eval e).bind fun v => ih.bind fun vs => pure (v :: vs)

theorem execAll (ss : List (Stmt Place)) : Blames lines (Chronicled.execAll t ss) := by
  induction ss with
  | nil => exact pure _
  | cons s ss ih =>
    refine (h.exec s).bind fun completion => ?_
    cases completion with
    | normal => exact ih
    | returned v => exact pure _

theorem callClosure (f : Closure) (arguments : List Value) :
    Blames lines (Chronicled.callClosure t f arguments) := by
  refine (note _).bind fun _ => (plain (.newFrame _ _)).bind fun e => ?_
  refine (withEnvironment e (execAll h f.declaration.body)).bind fun completion => ?_
  cases f.isInitializer with
  | true => exact plain .getAt
  | false => exact pure _

theorem instantiate (c : Class) (arguments : List Value) :
    Blames lines (Chronicled.instantiate t c arguments) := by
  refine (newInstance c).bind fun i => ?_
  cases c.findMethod? initializerName with
  | none => exact pure _
  | some method =>
    exact (bindMethod method i).bind fun bound =>
      (callClosure h bound arguments).bind fun _ => pure _

theorem callValue (callee : Value) (arguments : List Value) {line : Nat} (own : lines line) :
    Blames lines (Chronicled.callValue t callee arguments line) := by
  refine (note _).bind fun _ => ?_
  cases callee with
  | callable c =>
    dsimp only
    split
    · cases c with
      | native f => exact plain (.callNative f)
      | function id f => exact callClosure h f arguments
      | ofClass c => exact instantiate h c arguments
    · exact plain (.failWith own _)
  | nil | boolean | number | string | ofInstance => exact plain (.failWith own _)

/-! ## Expressions and statements -/

theorem setProperty (object : Value) {name : Name} (own : lines name.line) (value : Expr Place) :
    Blames lines (Chronicled.setProperty t object name value) := by
  cases object with
  | ofInstance i =>
    exact (h.eval value).bind fun v => (setField i name.text v).bind fun _ => pure v
  | nil | boolean | number | string | callable => exact plain (.failWith own _)

/-- An expression fails by itself on its own lines only. -/
theorem evalWith (e : Expr Place) : Blames (· ∈ e.ownLines) (Chronicled.evalWith t e) := by
  cases e with
  | literal value => exact pure _
  | grouping inner => exact h.eval inner
  | unary op line operand =>
    exact (h.eval operand).bind fun _ => plain (.liftCause List.mem_cons_self _)
  | binary op line left right =>
    exact (h.eval left).bind fun _ => (h.eval right).bind fun _ =>
      plain (.liftCause List.mem_cons_self _)
  | logical op left right =>
    refine (h.eval left).bind fun v => ?_
    split
    · exact pure v
    · exact h.eval right
  | «variable» target => exact plain (.readVariable _ List.mem_cons_self)
  | assign target value =>
    exact (h.eval value).bind fun v =>
      (plain (.assignVariable _ List.mem_cons_self v)).bind fun _ => pure v
  | call callee line arguments =>
    exact (h.eval callee).bind fun f => (evalAll h arguments).bind fun vs =>
      callValue h f vs List.mem_cons_self
  | get object property => exact (h.eval object).bind fun o => getProperty o List.mem_cons_self
  | set object property value =>
    exact (h.eval object).bind fun o => setProperty h o List.mem_cons_self value
  | this line mark => exact plain (.readVariable mark List.mem_cons_self)
  | super line mark method => exact superMethod mark List.mem_cons_self

theorem eval? (value : Option (Expr Place)) : Blames lines (Chronicled.eval? t value) := by
  cases value with
  | none => exact pure _
  | some e => exact h.eval e

theorem loop (n : Nat) (condition : Expr Place) (body : Stmt Place) :
    Blames lines (Chronicled.loop t n condition body) := by
  induction n with
  | zero => exact plain .outOfFuel
  | succ n ih =>
    refine (h.eval condition).bind fun holds => ?_
    split
    · refine (h.exec body).bind fun completion => ?_
      cases completion with
      | normal => exact ih
      | returned v => exact pure _
    · exact pure _

theorem choose (condition : Value) (thenBranch : Stmt Place) (elseBranch : Option (Stmt Place)) :
    Blames lines (Chronicled.choose t condition thenBranch elseBranch) := by
  unfold Chronicled.choose
  cases elseBranch with
  | none =>
    dsimp only
    split
    · exact h.exec thenBranch
    · exact pure _
  | some other =>
    dsimp only
    split
    · exact h.exec thenBranch
    · exact h.exec other

/-- A statement fails by itself on its own lines only. -/
theorem execWith (n : Nat) (s : Stmt Place) :
    Blames (· ∈ s.ownLines) (Chronicled.execWith n t s) := by
  cases s with
  | expression value => exact (h.eval value).bind fun _ => pure _
  | print value =>
    exact (h.eval value).bind fun _ => (plain (.write _)).bind fun _ => pure _
  | declare name initializer =>
    exact (eval? h initializer).bind fun v => (plain (.define _ v)).bind fun _ => pure _
  | block body =>
    exact (plain (.bind .current fun e => .newFrame e _)).bind fun e =>
      withEnvironment e (execAll h body)
  | conditional condition thenBranch elseBranch =>
    exact (h.eval condition).bind fun v => choose h v thenBranch elseBranch
  | loop condition body => exact loop h n condition body
  | function declaration =>
    exact (plain (.bind .current fun e => .bind (.newFunction _) fun f => .define _ f)).bind
      fun _ => pure _
  | ret line value => exact (eval? h value).bind fun v => pure _
  | classDecl name superclass methods =>
    refine (declareClass methods List.mem_cons_self fun r isParent => ?_).bind fun _ => pure _
    exact List.mem_cons_of_mem _ (List.mem_map_of_mem (Option.mem_toList.2 isParent))

theorem program (ss : List (Stmt Place)) : Blames lines (Chronicled.program t ss) := by
  induction ss with
  | nil => exact pure ()
  | cons s ss ih =>
    refine (h.exec s).bind fun completion => ?_
    cases completion with
    | normal => exact ih
    | returned v => exact plain (.mismatch _)

end Blames

/-- **With any fuel, a runtime error is on a line of a part that has been reached.** -/
theorem chronicler_blames (n : Nat) : (chronicler n).Blames := by
  induction n with
  | zero => exact ⟨fun _ => .plain .outOfFuel, fun _ => .plain .outOfFuel⟩
  | succ n ih =>
    exact ⟨fun e => .reaching (.expression e) (.evalWith ih e),
      fun s => .reaching (.statement s) (.execWith ih n s)⟩

/-- A runtime error that stops a program is on a line of a part that has been reached; to flush the
sink does not fail with one. -/
theorem Chronicled.interpret_blames {fuel : Nat} {ss : List (Stmt Place)} {w w' : Chronicle}
    {cause : RuntimeCause} {line : Nat}
    (failed : interpret fuel ss w = .error (.fault (.runtime cause line)) w') :
    w'.HasReached line := by
  have ran : Blames (fun _ => False) (program (chronicler fuel) ss) :=
    .program (chronicler_blames fuel) ss
  have flushed : Blames (fun _ => False) (plain Run.flush) := .plain .flush
  unfold interpret at failed
  cases result : program (chronicler fuel) ss w with
  | ok a w₁ =>
    rw [result] at failed
    exact flushed.hasReached failed
  | error stop w₁ =>
    rw [result] at failed
    cases stop with
    | outOfFuel => cases failed
    | fault f =>
      dsimp only at failed
      cases result' : plain Run.flush w₁ with
      | ok a w₂ =>
        rw [result'] at failed
        cases failed
        exact (ran.hasReached result).mono (flushed.suffix result')
      | error stop w₂ =>
        rw [result'] at failed
        cases failed
        exact flushed.hasReached result'

/-- **A program made of tokens fails on the line of one of them**, also in the functions and methods
that it calls. -/
theorem Chronicled.interpret_fails_on {code : Node → Prop} {ok : Token → Prop}
    (rooted : ∀ n, code n → n.Scoped .top) (made : ∀ n, code n → n.From ok) {fuel : Nat}
    {ss : List (Stmt Place)} {w w' : Chronicle} (sound : w.Sound code)
    (inCode : InCode code (.statements ss)) {cause : RuntimeCause} {line : Nat}
    (failed : interpret fuel ss w = .error (.fault (.runtime cause line)) w') :
    LineFrom ok line := by
  have leads := interpret_leads rooted sound inCode fuel
  rw [failed] at leads
  obtain ⟨part, did, own⟩ := interpret_blames failed
  obtain ⟨m, earlier, -, ⟨c, stands⟩, -⟩ := leads.sound.fit.of_did did
  exact (stands.isFrom made).ownLine own

end Lox
