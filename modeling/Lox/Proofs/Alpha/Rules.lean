import Lox.Proofs.Alpha.Steps
import Lox.Eval.Evaluator

/-!
# Runs that differ in the names of variables

`Evaluator.Alike` says that alpha-equivalent parts of a program are alike when they run. There is one
lemma for each rule of evaluation, and `evaluator_alike` puts them together.
-/

namespace Lox

open Renaming (nameMap declared identity ofScope along)

/-- The statements end alike. -/
inductive Completion.Alpha (p : Renaming → Prop) (all : List Renaming) :
    Completion → Completion → Prop
  | normal : Completion.Alpha p all .normal .normal
  | returned {v v' : Value} : v.Alpha p all v' → Completion.Alpha p all (.returned v) (.returned v')

/-- Alpha-equivalent parts of a program are alike. -/
structure Evaluator.Alike (p : Renaming → Prop) (ev : Evaluator) : Prop where
  eval : ∀ {all rs : List Renaming} {m m' : Machine}, m.Alpha p all rs m' → ∀ e : Expr Place,
    Lox.Alike p all rs m m' (ev.eval e) (ev.eval (e.mapNames (nameMap rs))) (Value.Alpha p)
  exec : ∀ {all rs : List Renaming} {m m' : Machine}, m.Alpha p all rs m' → ∀ {s s' : Stmt Place},
    s.Alpha p rs s' → Lox.Alike p all rs m m' (ev.exec s) (ev.exec s') (Completion.Alpha p)

variable {p : Renaming → Prop} {all rs : List Renaming} {m m' : Machine}

theorem Completion.Alpha.value_alpha {c c' : Completion} (h : c.Alpha p all c') :
    c.value.Alpha p all c'.value := by
  cases h with
  | normal => exact .nil
  | returned alike => exact alike

/-- Another scope is active. -/
theorem Machine.Alpha.inScope (h : m.Alpha p all rs m') {e : Environment}
    (inside : ∀ id ∈ e.path, id < all.length) :
    Machine.Alpha p all (along all e.path) { m with current := e } { m' with current := e } :=
  { h with current := rfl, inside := inside, active := rfl }

namespace Alike

/-! ## Variables and methods -/

theorem readAt (h : m.Alpha p all rs m') (hops : Nat) (name : String) :
    Alike p all rs m m' (Run.read fun m => m.store.getAt m.current hops name)
      (Run.read fun m => m.store.getAt m.current hops (nameMap rs (.scope hops) name))
      (Value.Alpha p) := by
  apply read h
  have outcome := h.store.getAt m.current hops name
  rw [h.active] at outcome
  rw [h.current]
  exact outcome

theorem readVariable (h : m.Alpha p all rs m') (place : Place) (name : Name) :
    Alike p all rs m m' (Run.readVariable place name)
      (Run.readVariable place ⟨nameMap rs place name.text, name.line⟩) (Value.Alpha p) := by
  cases place with
  | scope hops => exact readAt h hops name.text
  | global => exact read h (h.store.getGlobal name)

theorem assignVariable (h : m.Alpha p all rs m') (place : Place) (name : Name) {v v' : Value}
    (alike : v.Alpha p all v') :
    Alike p all rs m m' (Run.assignVariable place name v)
      (Run.assignVariable place ⟨nameMap rs place name.text, name.line⟩ v') fun _ _ _ => True := by
  cases place with
  | scope hops => exact assignAt h alike hops name.text
  | global => exact assign h (h.store.assignGlobal alike name)

theorem liftCause (h : m.Alpha p all rs m') (line : Nat) {result : Except RuntimeCause Value}
    (isScalar : ∀ v, result = .ok v → v.IsScalar) :
    Alike p all rs m m' (Run.liftCause line result) (Run.liftCause line result) (Value.Alpha p) := by
  cases result with
  | ok v => exact pure h (isScalar v rfl).alpha
  | error cause => exact fault h _

theorem bindMethod (h : m.Alpha p all rs m') {f f' : Closure} (alike : f.Alpha p all [identity] f')
    {i i' : Instance} (same : i.Alpha p all i') :
    Alike p all rs m m' (Run.bindMethod f i) (Run.bindMethod f' i')
      fun more => Closure.Alpha p more [] := by
  have holds : (Bindings.empty.insert thisName (.ofInstance i)).Alpha p all identity
      (Bindings.empty.insert thisName (.ofInstance i')) :=
    (Bindings.Alpha.empty identity).insert (.ofInstance same) thisName
  unfold Run.bindMethod
  rw [alike.environment]
  apply (newFrame h alike.inside identity holds).bind
  rintro more m₁ m₁' _ e leads ⟨rfl, inside, renamed⟩
  apply pure leads.alpha
  refine ⟨rfl, alike.isInitializer, inside, ?_⟩
  have declaration : f.declaration.Alpha p (identity :: along all f.environment.path) f'.declaration :=
    alike.declaration
  rw [← renamed] at declaration
  exact declaration

theorem methodOf (h : m.Alpha p all rs m') {c c' : Class} (alike : c.Alpha p all c')
    {i i' : Instance} (same : i.Alpha p all i') (name : Name) :
    Alike p all rs m m' (Run.methodOf c i name) (Run.methodOf c' i' name) (Value.Alpha p) := by
  unfold Run.methodOf
  rcases (alike.findMethod? name.text).none_or_some with
    ⟨unbound, unbound'⟩ | ⟨f, f', found, found', method⟩
  · rw [unbound, unbound']
    exact fault h _
  · rw [found, found']
    exact (bindMethod h method same).bind fun leads bound => newFunction leads.alpha bound

theorem propertyOf (h : m.Alpha p all rs m') {i i' : Instance} (same : i.Alpha p all i')
    (name : Name) :
    Alike p all rs m m' (Run.propertyOf i name) (Run.propertyOf i' name) (Value.Alpha p) := by
  have field : Alike p all rs m m' (Run.read fun m => .ok ((m.store.fieldsOf i.id).get? name.text))
      (Run.read fun m => .ok ((m.store.fieldsOf i'.id).get? name.text))
      fun more => Option.Rel (Value.Alpha p more) := by
    apply read h
    rw [same.id]
    exact .ok (h.store.properties i.id name.text)
  apply field.bind
  intro more m₁ m₁' value value' leads alike
  cases alike with
  | some alike => exact pure leads.alpha alike
  | none => exact methodOf leads.alpha (same.mono leads.later).ofClass (same.mono leads.later) name

theorem getProperty (h : m.Alpha p all rs m') {object object' : Value}
    (alike : object.Alpha p all object') (name : Name) :
    Alike p all rs m m' (Run.getProperty object name) (Run.getProperty object' name)
      (Value.Alpha p) := by
  cases alike with
  | ofInstance same => exact propertyOf h same name
  | nil | boolean | number | string | native | function | ofClass => exact fault h _

/-! ## Superclasses -/

theorem superAt (h : m.Alpha p all rs m') (hops : Nat) :
    Alike p all rs m m' (Run.superAt hops) (Run.superAt hops) fun more found found' =>
      found.1.Alpha p more found'.1 ∧ found.2.Alpha p more found'.2 := by
  have superHere := readAt h hops superName
  rw [Renaming.nameMap_super] at superHere
  apply superHere.bind
  intro more m₁ m₁' v v' leads alike
  cases alike with
  | nil | boolean | number | string | native | function | ofInstance => exact fault leads.alpha _
  | @ofClass c c' superclass =>
    cases hops with
    | zero => exact fault leads.alpha _
    | succ inner =>
      have thisHere := readAt leads.alpha inner thisName
      rw [Renaming.nameMap_this] at thisHere
      apply thisHere.bind
      intro last m₂ m₂' o o' leads' receiver
      cases receiver with
      | ofInstance same => exact pure leads'.alpha ⟨superclass.mono leads'.later, same⟩
      | nil | boolean | number | string | native | function | ofClass => exact fault leads'.alpha _

theorem superMethod (h : m.Alpha p all rs m') (place : Place) (method : Name) :
    Alike p all rs m m' (Run.superMethod place method) (Run.superMethod place method)
      (Value.Alpha p) := by
  cases place with
  | global => exact fault h _
  | scope hops =>
    exact (superAt h hops).bind fun leads found => methodOf leads.alpha found.1 found.2 method

/-- A name that a superclass has stands for a class on both sides or on neither. -/
theorem readSuperclass (h : m.Alpha p all rs m') (superclass : Option (Reference Place)) :
    Alike p all rs m m' (Run.readSuperclass superclass)
      (Run.readSuperclass (superclass.map (·.mapName (nameMap rs)))) fun more c? c?' =>
        Option.Rel (Class.Alpha p more) c? c?' ∧ c?.isSome = superclass.isSome := by
  cases superclass with
  | none => exact pure h ⟨.none, rfl⟩
  | some r =>
    apply (readVariable h r.mark r.name).bind
    intro more m₁ m₁' v v' leads alike
    cases alike with
    | ofClass c => exact pure leads.alpha ⟨.some c, rfl⟩
    | nil | boolean | number | string | native | function | ofInstance => exact fault leads.alpha _

/-- The scopes around the methods of a class. -/
theorem methodEnvironment (h : m.Alpha p all rs m') {c? c?' : Option Class}
    (alike : Option.Rel (Class.Alpha p all) c? c?') {superclass : Option (Reference Place)}
    (same : c?.isSome = superclass.isSome) :
    Alike p all rs m m' (Run.methodEnvironment c?) (Run.methodEnvironment c?') fun more e e' =>
      e' = e ∧ (∀ id ∈ e.path, id < more.length) ∧
        identity :: along more e.path = Renaming.enterClass rs superclass := by
  cases alike with
  | none =>
    cases superclass with
    | some r => cases same
    | none =>
      have here : Run.current m' = .ok m.current m' := by
        rw [← h.current]
        rfl
      exact ok rfl here (.refl h) ⟨rfl, h.inside, congrArg (identity :: ·) h.active⟩
  | some superAlike =>
    cases superclass with
    | none => cases same
    | some r =>
      have holds := (Bindings.Alpha.empty identity).insert (.ofClass superAlike) superName
      apply current h
      have opened := newFrame h h.inside identity holds
      rw [h.active] at opened
      exact opened.mono fun more e e' found =>
        ⟨found.1, found.2.1, congrArg (identity :: ·) found.2.2⟩

/-- The tables of the methods of two classes. -/
theorem methodTable {e : Environment} (inside : ∀ id ∈ e.path, id < all.length)
    {methods methods' : List (FunctionDecl Place)}
    (alpha : FunctionDecl.AlphaAll p (identity :: along all e.path) methods methods') (name : String) :
    Option.Rel (Closure.Alpha p all [identity]) ((Run.methodTable e methods).get? name)
      ((Run.methodTable e methods').get? name) := by
  let entry (d : FunctionDecl Place) : String × Closure := (d.name.text, ⟨d, e, d.isInitializer⟩)
  have fold : ∀ {methods methods' : List (FunctionDecl Place)},
      FunctionDecl.AlphaAll p (identity :: along all e.path) methods methods' →
      ∀ {b b' : Bindings Closure},
        (∀ name, Option.Rel (Closure.Alpha p all [identity]) (b.get? name) (b'.get? name)) →
        Option.Rel (Closure.Alpha p all [identity])
          (((methods.map entry).foldl (fun b e => b.insert e.1 e.2) b).get? name)
          (((methods'.map entry).foldl (fun b e => b.insert e.1 e.2) b').get? name) := by
    intro methods
    induction methods with
    | nil =>
      intro methods' alpha b b' alike
      cases alpha
      exact alike name
    | cons d methods ih =>
      intro methods' alpha b b' alike
      cases alpha with
      | cons head tail =>
        apply ih tail
        intro other
        rw [Bindings.get?_insert, Bindings.get?_insert]
        simp only [entry, head.name_eq]
        split
        · exact .some ⟨rfl, head.isInitializer_eq, inside, head⟩
        · exact alike other
  exact fold alpha fun _ => .none

/-- Two classes that are made of declarations. -/
theorem makeClass (id : ObjectId) (name : String) {methods methods' : Bindings Closure}
    (table : ∀ name, Option.Rel (Closure.Alpha p all [identity]) (methods.get? name)
      (methods'.get? name))
    {c? c?' : Option Class} (alike : Option.Rel (Class.Alpha p all) c? c?') :
    Class.Alpha p all (Run.makeClass id name methods c?) (Run.makeClass id name methods' c?') := by
  cases alike with
  | none => exact .cons ⟨rfl, rfl, table⟩ .nil
  | some superclass => exact .cons ⟨rfl, rfl, table⟩ superclass

/-- Two classes that are made in the same scope. -/
theorem newClass (h : m.Alpha p all rs m') (name : String)
    {methods methods' : List (FunctionDecl Place)}
    (alpha : FunctionDecl.AlphaAll p (identity :: rs) methods methods') {c? c?' : Option Class}
    (alike : Option.Rel (Class.Alpha p all) c? c?') :
    Alike p all rs m m' (Run.newClass name c? methods) (Run.newClass name c?' methods')
      (Class.Alpha p) := by
  apply current h
  apply (newObject h).bind
  rintro more m₁ m₁' _ id leads rfl
  have inside := Renaming.inside_of_extends leads.later h.inside
  rw [← h.active, ← Renaming.along_of_extends leads.later h.inside] at alpha
  exact pure leads.alpha
    (makeClass id name (methodTable inside alpha) (alike.imp fun _ _ c => c.mono leads.later))

theorem declareClass (h : m.Alpha p all rs m') {name : Name}
    (stays : declared rs name.text = name.text) (superclass : Option (Reference Place))
    {methods methods' : List (FunctionDecl Place)}
    (alpha : FunctionDecl.AlphaAll p (Renaming.enterClass rs superclass) methods methods') :
    Alike p all rs m m' (Run.declareClass name superclass methods)
      (Run.declareClass name (superclass.map (·.mapName (nameMap rs))) methods')
      fun _ _ _ => True := by
  have opened := defined h (.nil : Value.Alpha p all .nil .nil) name.text
  rw [stays] at opened
  have here (m : Machine) : Run.define name.text .nil m =
      .ok () { m with store := m.store.define m.current name.text .nil } := rfl
  apply after (here m) (here m') opened
  -- from here on, the scope that is active binds the name of the class
  have lt : m.current.frame < m.store.frames.size := by
    rw [← h.store.renamed]
    exact h.inside _ List.mem_cons_self
  have bound : ((m.store.define m.current name.text .nil).frame m.current.frame).contains name.text =
      true := by
    rw [Store.define, Store.contains_setVariable]
    simp [lt]
  apply (readSuperclass opened.alpha superclass).bind
  rintro more m₁ m₁' c? c?' leads ⟨alike, same⟩
  apply (methodEnvironment leads.alpha alike same).bind
  rintro more₂ m₂ m₂' _ e leads₂ ⟨rfl, inside, renamed⟩
  rw [← renamed] at alpha
  have alike := alike.imp fun _ _ c => c.mono leads₂.later
  have made := newClass (leads₂.alpha.inScope inside) name.text alpha alike
  apply (withEnvironment leads₂.alpha made).bind
  intro last m₃ m₃' made made' leads₃ alikeMade
  apply current leads₃.alpha
  have bound := leads₃.bound (leads₂.bound (leads.bound bound))
  have stays : (ofScope last m₃.current.frame).perm name.text = name.text := by
    rw [← leads₃.alpha.active] at stays
    exact stays
  exact assign leads₃.alpha (leads₃.alpha.store.assignHere (.ofClass alikeMade) stays bound)

/-! ## Calls -/

variable {ev : Evaluator} (step : ev.Alike p)
include step

theorem evalAll (h : m.Alpha p all rs m') (es : List (Expr Place)) :
    Alike p all rs m m' (Run.evalAll ev es) (Run.evalAll ev (Expr.mapNamesAll (nameMap rs) es))
      fun more => List.Forall₂ (Value.Alpha p more) := by
  induction es generalizing all m m' with
  | nil => exact pure h .nil
  | cons e es ih =>
    apply (step.eval h e).bind
    intro more m₁ m₁' v v' leads alike
    apply (ih leads.alpha).bind
    intro last m₂ m₂' vs vs' leads' alikeAll
    exact pure leads'.alpha (.cons (alike.mono leads'.later) alikeAll)

theorem execAll (h : m.Alpha p all rs m') {ss ss' : List (Stmt Place)}
    (alpha : Stmt.AlphaAll p rs ss ss') :
    Alike p all rs m m' (Run.execAll ev ss) (Run.execAll ev ss') (Completion.Alpha p) := by
  induction ss generalizing all m m' ss' with
  | nil =>
    cases alpha
    exact pure h .normal
  | cons s ss ih =>
    cases alpha with
    | cons head tail =>
      apply (step.exec h head).bind
      intro more m₁ m₁' c c' leads completion
      cases completion with
      | normal => exact ih leads.alpha tail
      | returned alike => exact pure leads.alpha (.returned alike)

/-- Statements run in a scope of their own. -/
theorem execIn (h : m.Alpha p all rs m') {e : Environment} (inside : ∀ id ∈ e.path, id < all.length)
    {ss ss' : List (Stmt Place)} (alpha : Stmt.AlphaAll p (along all e.path) ss ss') :
    Alike p all rs m m' (Run.execIn ev e ss) (Run.execIn ev e ss') (Completion.Alpha p) :=
  withEnvironment h (execAll step (h.inScope inside) alpha)

theorem callClosure (h : m.Alpha p all rs m') {c c' : Closure} (alike : c.Alpha p all [] c')
    {vs vs' : List Value} (arguments : List.Forall₂ (Value.Alpha p all) vs vs') :
    Alike p all rs m m' (Run.callClosure ev c vs) (Run.callClosure ev c' vs') (Value.Alpha p) := by
  obtain ⟨d, e, isInitializer⟩ := c
  obtain ⟨d', e', isInitializer'⟩ := c'
  obtain ⟨rfl, rfl, inside, declaration⟩ := alike
  cases declaration with
  | @mk _ _ params _ _ r _ body =>
    unfold Run.callClosure
    apply (newFrame h inside r (.parameters r params arguments)).bind
    rintro more m₁ m₁' _ inner leads ⟨rfl, inside₁, renamed⟩
    dsimp only at renamed body ⊢
    rw [List.nil_append, ← renamed] at body
    apply (execIn step leads.alpha inside₁ body).bind
    intro last m₂ m₂' c c' leads' completion
    cases isInitializer' with
    | false => exact pure leads'.alpha completion.value_alpha
    | true =>
      apply read leads'.alpha
      have outcome := leads'.alpha.store.getAt e' 0 thisName
      rw [Renaming.nameMap_this] at outcome
      exact outcome

theorem instantiate (h : m.Alpha p all rs m') {c c' : Class} (alike : c.Alpha p all c')
    {vs vs' : List Value} (arguments : List.Forall₂ (Value.Alpha p all) vs vs') :
    Alike p all rs m m' (Run.instantiate ev c vs) (Run.instantiate ev c' vs') (Value.Alpha p) := by
  apply (newInstance h alike).bind
  intro more m₁ m₁' i i' leads same
  rcases ((alike.mono leads.later).findMethod? initializerName).none_or_some with
    ⟨unbound, unbound'⟩ | ⟨f, f', found, found', method⟩
  · rw [unbound, unbound']
    exact pure leads.alpha (.ofInstance same)
  · rw [found, found']
    apply (bindMethod leads.alpha method same).bind
    intro more₂ m₂ m₂' g g' leads₂ bound
    have arguments := arguments.imp fun _ _ alike => alike.mono (leads.later.trans leads₂.later)
    apply (callClosure step leads₂.alpha bound arguments).bind
    intro last m₃ m₃' _ _ leads₃ _
    exact pure leads₃.alpha (.ofInstance (same.mono (leads₂.later.trans leads₃.later)))

theorem callValue (h : m.Alpha p all rs m') {callee callee' : Value}
    (alike : callee.Alpha p all callee') {vs vs' : List Value}
    (arguments : List.Forall₂ (Value.Alpha p all) vs vs') (line : Nat) :
    Alike p all rs m m' (Run.callValue ev callee vs line) (Run.callValue ev callee' vs' line)
      (Value.Alpha p) := by
  have length : vs'.length = vs.length := arguments.length_eq.symm
  cases alike with
  | nil | boolean | number | string | ofInstance => exact fault h _
  | native f =>
    simp only [Run.callValue, length]
    split
    · cases f
      apply (readClock h).bind
      intro more m₁ m₁' n n' leads same
      rw [same]
      exact pure leads.alpha (.number n)
    · exact fault h _
  | function id c =>
    have arity : Callable.arity (.function id _) = Callable.arity (.function id _) :=
      c.declaration.arity_eq
    simp only [Run.callValue, length, arity]
    split
    · exact callClosure step h c arguments
    · exact fault h _
  | ofClass c =>
    have arity : Callable.arity (.ofClass _) = Callable.arity (.ofClass _) := c.arity_eq
    simp only [Run.callValue, length, arity]
    split
    · exact instantiate step h c arguments
    · exact fault h _

/-! ## Expressions -/

theorem setProperty (h : m.Alpha p all rs m') {object object' : Value}
    (alike : object.Alpha p all object') (name : Name) (value : Expr Place) :
    Alike p all rs m m' (Run.setProperty ev object name value)
      (Run.setProperty ev object' name (value.mapNames (nameMap rs))) (Value.Alpha p) := by
  cases alike with
  | ofInstance same =>
    apply (step.eval h value).bind
    intro more m₁ m₁' v v' leads alike
    apply (setField leads.alpha same.id alike name.text).bind
    intro last m₂ m₂' _ _ leads' _
    exact pure leads'.alpha (alike.mono leads'.later)
  | nil | boolean | number | string | native | function | ofClass => exact fault h _

theorem evalWith (h : m.Alpha p all rs m') (e : Expr Place) :
    Alike p all rs m m' (Run.evalWith ev e) (Run.evalWith ev (e.mapNames (nameMap rs)))
      (Value.Alpha p) := by
  cases e with
  | literal value =>
    apply pure h
    cases value with
    | number x => exact .number x
    | string text => exact .string text
    | boolean b => exact .boolean b
    | nil => exact .nil
  | grouping inner => exact step.eval h inner
  | unary op line operand =>
    apply (step.eval h operand).bind
    intro more m₁ m₁' v v' leads alike
    rw [op.apply_alpha alike]
    exact liftCause leads.alpha line fun _ => UnaryOp.apply_isScalar
  | binary op line left right =>
    apply (step.eval h left).bind
    intro more m₁ m₁' l l' leads alike
    apply (step.eval leads.alpha right).bind
    intro last m₂ m₂' r r' leads' alike'
    rw [op.apply_alpha (alike.mono leads'.later) alike']
    exact liftCause leads'.alpha line fun _ => BinaryOp.apply_isScalar
  | logical op left right =>
    apply (step.eval h left).bind
    intro more m₁ m₁' l l' leads alike
    rw [op.isDecidedBy_alpha alike]
    split
    · exact pure leads.alpha alike
    · exact step.eval leads.alpha right
  | «variable» target => exact readVariable h target.mark target.name
  | assign target value =>
    apply (step.eval h value).bind
    intro more m₁ m₁' v v' leads alike
    apply (assignVariable leads.alpha target.mark target.name alike).bind
    intro last m₂ m₂' _ _ leads' _
    exact pure leads'.alpha (alike.mono leads'.later)
  | call callee line arguments =>
    apply (step.eval h callee).bind
    intro more m₁ m₁' f f' leads alike
    apply (evalAll step leads.alpha arguments).bind
    intro last m₂ m₂' vs vs' leads' alikeAll
    exact callValue step leads'.alpha (alike.mono leads'.later) alikeAll line
  | get object property =>
    apply (step.eval h object).bind
    intro more m₁ m₁' o o' leads alike
    exact getProperty leads.alpha alike property
  | set object property value =>
    apply (step.eval h object).bind
    intro more m₁ m₁' o o' leads alike
    exact setProperty step leads.alpha alike property value
  | this line mark =>
    have here := readVariable h mark ⟨thisName, line⟩
    rw [Renaming.nameMap_this] at here
    exact here
  | super line mark method => exact superMethod h mark method

/-! ## Statements -/

theorem eval? (h : m.Alpha p all rs m') (e? : Option (Expr Place)) :
    Alike p all rs m m' (Run.eval? ev e?) (Run.eval? ev (e?.map (·.mapNames (nameMap rs))))
      (Value.Alpha p) := by
  cases e? with
  | none => exact pure h .nil
  | some e => exact step.eval h e

theorem loop (h : m.Alpha p all rs m') (n : Nat) (condition : Expr Place) {body body' : Stmt Place}
    (alpha : body.Alpha p rs body') :
    Alike p all rs m m' (Run.loop ev n condition body)
      (Run.loop ev n (condition.mapNames (nameMap rs)) body') (Completion.Alpha p) := by
  induction n generalizing all m m' with
  | zero => exact outOfFuel h
  | succ n ih =>
    apply (step.eval h condition).bind
    intro more m₁ m₁' v v' leads alike
    rw [alike.isTruthy_eq]
    split
    · apply (step.exec leads.alpha alpha).bind
      intro last m₂ m₂' c c' leads' completion
      cases completion with
      | normal => exact ih leads'.alpha
      | returned alike => exact pure leads'.alpha (.returned alike)
    · exact pure leads.alpha .normal

theorem execWith (h : m.Alpha p all rs m') (n : Nat) {s s' : Stmt Place} (alpha : s.Alpha p rs s') :
    Alike p all rs m m' (Run.execWith n ev s) (Run.execWith n ev s') (Completion.Alpha p) := by
  cases alpha with
  | @expression _ value =>
    apply (step.eval h value).bind
    intro more m₁ m₁' _ _ leads _
    exact pure leads.alpha .normal
  | @print _ value =>
    apply (step.eval h value).bind
    intro more m₁ m₁' v v' leads alike
    rw [alike.text_eq]
    apply (write leads.alpha _).bind
    intro last m₂ m₂' _ _ leads' _
    exact pure leads'.alpha .normal
  | @declare _ name initializer =>
    apply (eval? step h initializer).bind
    intro more m₁ m₁' v v' leads alike
    apply (define leads.alpha alike name.text).bind
    intro last m₂ m₂' _ _ leads' _
    exact pure leads'.alpha .normal
  | block r isAllowed body =>
    apply current h
    apply (newFrame h h.inside r (.empty r)).bind
    rintro more m₁ m₁' _ e leads ⟨rfl, inside, renamed⟩
    rw [h.active] at renamed
    rw [← renamed] at body
    exact execIn step leads.alpha inside body
  | @ifThen _ condition _ _ thenBranch =>
    apply (step.eval h condition).bind
    intro more m₁ m₁' v v' leads alike
    simp only [Run.choose, alike.isTruthy_eq]
    split
    · exact step.exec leads.alpha thenBranch
    · exact pure leads.alpha .normal
  | @ifElse _ condition _ _ _ _ thenBranch elseBranch =>
    apply (step.eval h condition).bind
    intro more m₁ m₁' v v' leads alike
    simp only [Run.choose, alike.isTruthy_eq]
    split
    · exact step.exec leads.alpha thenBranch
    · exact step.exec leads.alpha elseBranch
  | @loop _ condition _ _ body => exact loop step h n condition body
  | @function _ d d' stays declaration =>
    apply current h
    have closure : Closure.Alpha p all [] ⟨d, m.current, false⟩ ⟨d', m.current, false⟩ := by
      refine ⟨rfl, rfl, h.inside, ?_⟩
      rw [h.active]
      exact declaration
    apply (newFunction h closure).bind
    intro more m₁ m₁' v v' leads alike
    have defined := define leads.alpha alike d.name.text
    rw [stays] at defined
    rw [declaration.name_eq]
    apply defined.bind
    intro last m₂ m₂' _ _ leads' _
    exact pure leads'.alpha .normal
  | @ret _ line value =>
    apply (eval? step h value).bind
    intro more m₁ m₁' v v' leads alike
    exact pure leads.alpha (.returned alike)
  | @classDecl _ name superclass _ _ stays methods =>
    apply (declareClass h stays superclass methods).bind
    intro more m₁ m₁' _ _ leads _
    exact pure leads.alpha .normal

/-! ## Programs -/

theorem program (h : m.Alpha p all rs m') {ss ss' : List (Stmt Place)}
    (alpha : Stmt.AlphaAll p rs ss ss') :
    Alike p all rs m m' (Run.program ev ss) (Run.program ev ss') fun _ _ _ => True := by
  induction ss generalizing all m m' ss' with
  | nil =>
    cases alpha
    exact pure h trivial
  | cons s ss ih =>
    cases alpha with
    | cons head tail =>
      apply (step.exec h head).bind
      intro more m₁ m₁' c c' leads completion
      cases completion with
      | normal => exact ih leads.alpha tail
      | returned alike => exact fault leads.alpha _

end Alike

/-- **What is evaluated or run is alike if the code is alpha-equivalent.** -/
theorem evaluator_alike (p : Renaming → Prop) (n : Nat) : (evaluator n).Alike p := by
  induction n with
  | zero => exact ⟨fun h _ => .outOfFuel h, fun h _ _ _ => .outOfFuel h⟩
  | succ n ih => exact ⟨fun h e => .evalWith ih h e, fun h _ _ alpha => .execWith ih h n alpha⟩

end Lox
