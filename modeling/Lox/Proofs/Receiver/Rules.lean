import Lox.Proofs.Receiver.Steps
import Lox.Proofs.Run.ExpressionRules

/-!
# Evaluation leaves a watch settled

One lemma for each rule of a watched run, and `watcher_proceeds` puts them together: with any fuel,
all parts of well-scoped code run in the scopes that they are nested in, and leave all scopes of
their sorts.
-/

namespace Lox

/-- The evaluation of each part of the code leaves the watch settled. -/
structure Watcher.Proceeds (code : Node → Prop) (t : Watcher) : Prop where
  eval : ∀ {w : Watch} {e : Expr Place} (p : Spot), w.Settled code → w.At code (.expression e) →
    Lox.Proceeds code w (t.eval p e) fun v w' => w'.Knows code v
  exec : ∀ {w : Watch} {s : Stmt Place} (p : Spot), w.Settled code → w.At code (.statement s) →
    Lox.Proceeds code w (t.exec p s) fun completion w' => w'.Knows code completion.value

variable {code : Node → Prop} {w : Watch}

theorem Value.IsScalar.knows {v : Value} (h : v.IsScalar) : w.Knows code v := by
  cases v with
  | nil | boolean | number | string => trivial
  | callable | ofInstance => exact h.elim

namespace Proceeds

/-! ## Methods -/

theorem methodSpot (settled : w.Settled code) (c : Class) (name : String) :
    Proceeds code w (Watched.methodSpot c name) fun _ w' => w' = w := by
  unfold Proceeds Watched.methodSpot
  cases c.definer? name with
  | none => exact ⟨.refl settled, rfl⟩
  | some level => exact ⟨.refl settled, rfl⟩

/-- A method that is bound has its instance in a scope of its own. -/
theorem bindMethod (rooted : ∀ n, code n → n.Scoped .top) (settled : w.Settled code) {f : Closure}
    {i : Instance} (houses : w.HousesMethod code f) (known : w.Knows code (.ofInstance i)) :
    Proceeds code w (Watched.plain (Run.bindMethod f i)) fun bound w' => w'.Houses code bound := by
  let binding : Bindings Value := Bindings.empty.insert thisName (.ofInstance i)
  let own := w.machine.store.frames.size
  have holds : (w.machine.store.pushFrame binding).HoldsThis own i :=
    Store.frame_pushFrame_self _ _
  have allKnown : ∀ name v, binding.get? name = some v → w.Knows code v := by
    intro name v found
    obtain ⟨-, rfl⟩ := Bindings.get?_insert_empty.1 found
    exact known
  unfold Run.bindMethod
  rw [Watched.plain_bind]
  apply (newFrame settled f.environment (.inr (.inl ⟨i, holds⟩)) allKnown).bind
  rintro e w' leads ⟨rfl, store⟩
  obtain ⟨o, path, c, name, superclass, methods, parent, nested, mem, scopes⟩ :=
    houses.extends leads.toExtends
  rw [← store] at holds
  have isScoped := (nested.stands.scoped rooted).1
  have named := (FunctionDecl.scopedAll_iff.1 isScoped.2.2 _ mem).named
  exact pure leads.settled
    ⟨named, some ⟨i, parent⟩, _, fun id => nested.method id mem scopes holds⟩

/-- A method that is read off an instance is a function of its own. -/
theorem methodOf (rooted : ∀ n, code n → n.Scoped .top) (settled : w.Settled code) {c : Class}
    {i : Instance} (knownClass : w.KnowsClass code c) (known : w.Knows code (.ofInstance i))
    (name : Name) :
    Proceeds code w (Watched.methodOf c i name) fun v w' => w'.Knows code v := by
  unfold Watched.methodOf
  cases found : c.findMethod? name.text with
  | none => exact fault settled _
  | some f =>
    apply (methodSpot settled c name.text).bind
    rintro p w' - rfl
    apply (bindMethod rooted settled (knownClass.method found) known).bind
    intro bound w' leads houses
    exact newFunction leads.settled p houses

/-! ## Calls -/

variable {t : Watcher} (h : t.Proceeds code)
include h

theorem evalAll (settled : w.Settled code) (p : Spot) {es : List (Expr Place)}
    (isAt : ∀ e ∈ es, w.At code (.expression e)) :
    Proceeds code w (Watched.evalAll t p es) fun vs w' => ∀ v ∈ vs, w'.Knows code v := by
  induction es generalizing w with
  | nil => exact pure settled (fun v mem => by cases mem)
  | cons e es ih =>
    apply (h.eval p settled (isAt e List.mem_cons_self)).bind
    intro v w₁ leads₁ known
    have rest : ∀ e ∈ es, w₁.At code (.expression e) :=
      fun e mem => (isAt e (List.mem_cons_of_mem _ mem)).leads leads₁
    apply (ih leads₁.settled rest).bind
    intro vs w₂ leads₂ allKnown
    apply pure leads₂.settled
    intro x mem
    rcases List.mem_cons.1 mem with rfl | mem
    · exact known.extends leads₂.toExtends
    · exact allKnown x mem

theorem execAll (settled : w.Settled code) (p : Spot) {ss : List (Stmt Place)}
    (isAt : w.At code (.statements ss)) :
    Proceeds code w (Watched.execAll t p ss) fun completion w' =>
      w'.Knows code completion.value := by
  induction ss generalizing w p with
  | nil => exact pure settled trivial
  | cons s ss ih =>
    apply (h.exec p settled isAt.head).bind
    intro completion w' leads known
    cases completion with
    | normal => exact ih leads.settled _ (isAt.tail.leads leads)
    | returned v => exact pure leads.settled known

/-- Statements in a scope that has just been opened for variables. -/
theorem execIn (settled : w.Settled code) (p : Spot) {e : Environment} {ss : List (Stmt Place)}
    (nested : ∃ o c, Nested code w.machine.store w.moments o e.path c (.statements ss))
    (plain : w.machine.store.IsPlain e.frame) :
    Proceeds code w (Watched.execIn t p e ss) fun completion w' =>
      w'.Knows code completion.value := by
  apply withEnvironment settled e
  · intro entered
    exact execAll h entered p ⟨nested, plain⟩
  · intro completion w' w'' later known
    exact Watch.Knows.extends known later

theorem callClosure (settled : w.Settled code) (p : Spot) {f : Closure}
    (houses : w.Houses code f) {arguments : List Value}
    (known : ∀ v ∈ arguments, w.Knows code v) :
    Proceeds code w (Watched.callClosure t p f arguments) fun v w' => w'.Knows code v := by
  let binding := Run.parameters f.declaration.params arguments
  have bound {name : String} {v : Value} (found : binding.get? name = some v) :
      (∃ x ∈ f.declaration.params, x.text = name) ∧ v ∈ arguments := by
    obtain ⟨isParam, isArgument⟩ := List.of_mem_zip (Bindings.mem_of_get?_ofList found)
    exact ⟨List.mem_map.1 isParam, isArgument⟩
  have named : ∀ name, binding.contains name = true → IsVariable name := by
    intro name here
    obtain ⟨v, found⟩ := Option.isSome_iff_exists.1 here
    obtain ⟨⟨x, mem, rfl⟩, -⟩ := bound found
    exact houses.named x mem
  have plain := Store.isPlain_pushFrame (s := w.machine.store) named
  apply (newFrame settled f.environment (.inl plain) fun _ v found => known v (bound found).2).bind
  rintro e w' leads ⟨rfl, store⟩
  rw [← store] at plain
  obtain ⟨o, c, nested⟩ := (houses.extends leads.toExtends).body
  let e : Environment := ⟨w.machine.store.frames.size, f.environment.path⟩
  have inside : Nested code w'.machine.store w'.moments o e.path c
      (.statements f.declaration.body) := nested e.frame
  apply (execIn h leads.settled (p.inBody f) ⟨o, c, inside⟩ plain).bind
  intro completion w'' leads' result
  cases f.isInitializer with
  | true => exact getAt leads'.settled rfl
  | false => exact pure leads'.settled result

theorem instantiate (rooted : ∀ n, code n → n.Scoped .top) (settled : w.Settled code) {c : Class}
    (knownClass : w.KnowsClass code c) {arguments : List Value}
    (known : ∀ v ∈ arguments, w.Knows code v) :
    Proceeds code w (Watched.instantiate t c arguments) fun v w' => w'.Knows code v := by
  apply (newInstance settled knownClass).bind
  rintro i w₁ leads₁ ⟨rfl, knownInstance⟩
  cases found : i.ofClass.findMethod? initializerName with
  | none => exact pure leads₁.settled knownInstance
  | some f =>
    apply (methodSpot leads₁.settled i.ofClass initializerName).bind
    rintro p w₁ - rfl
    have houses := knownClass.method found |>.extends leads₁.toExtends
    apply (bindMethod rooted leads₁.settled houses knownInstance).bind
    intro bound w₂ leads₂ houses
    have later := leads₁.trans leads₂
    apply (callClosure h leads₂.settled p houses fun v mem =>
      (known v mem).extends later.toExtends).bind
    intro _ w₃ leads₃ _
    exact pure leads₃.settled (knownInstance.extends (leads₂.trans leads₃).toExtends)

theorem callValue (rooted : ∀ n, code n → n.Scoped .top) (settled : w.Settled code)
    {callee : Value} (knownCallee : w.Knows code callee) {arguments : List Value}
    (known : ∀ v ∈ arguments, w.Knows code v) (line : Nat) :
    Proceeds code w (Watched.callValue t callee arguments line) fun v w' => w'.Knows code v := by
  unfold Watched.callValue
  cases callee with
  | callable c =>
    dsimp only
    split
    · cases c with
      | native f => exact callNative settled f
      | ofClass c => exact instantiate h rooted settled knownCallee known
      | function id f => exact callClosure h settled (w.spots id) knownCallee known
    · exact fault settled _
  | nil | boolean | number | string | ofInstance => exact fault settled _

omit h

/-! ## Expressions -/

theorem propertyOf (rooted : ∀ n, code n → n.Scoped .top) (settled : w.Settled code) {i : Instance}
    (known : w.Knows code (.ofInstance i)) (name : Name) :
    Proceeds code w (Watched.propertyOf i name) fun v w' => w'.Knows code v := by
  have field : Proceeds code w
      (Watched.plain (Run.read fun m => .ok ((m.store.fieldsOf i.id).get? name.text)))
      fun value w' => w' = w ∧ ∀ v, value = some v → w.Knows code v :=
    plain_ok rfl (.refl settled) ⟨rfl, fun v found => settled.fields i.id name.text v found⟩
  apply field.bind
  rintro value w' leads ⟨rfl, field⟩
  cases value with
  | some v => exact pure settled (field v rfl)
  | none => exact methodOf rooted settled known known name

theorem getProperty (rooted : ∀ n, code n → n.Scoped .top) (settled : w.Settled code)
    {object : Value} (known : w.Knows code object) (name : Name) :
    Proceeds code w (Watched.getProperty object name) fun v w' => w'.Knows code v := by
  unfold Watched.getProperty
  cases object with
  | ofInstance i => exact propertyOf rooted settled known name
  | nil | boolean | number | string | callable => exact fault settled _

theorem superAt (settled : w.Settled code) (hops : Nat) :
    Proceeds code w (Watched.plain (Run.superAt hops)) fun found w' =>
      w'.KnowsClass code found.1 ∧ w'.Knows code (.ofInstance found.2) := by
  unfold Run.superAt
  rw [Watched.plain_bind]
  apply (getAt settled rfl).bind
  intro superclass w₁ leads₁ knownClass
  match superclass with
  | .callable (.ofClass c) =>
    cases hops with
    | zero => exact fault leads₁.settled _
    | succ inner =>
      dsimp only
      rw [Watched.plain_bind]
      apply (getAt leads₁.settled rfl).bind
      intro receiver w₂ leads₂ known
      match receiver with
      | .ofInstance i =>
        exact pure leads₂.settled ⟨Watch.KnowsClass.extends knownClass leads₂.toExtends, known⟩
      | .nil | .boolean _ | .number _ | .string _ | .callable _ => exact fault leads₂.settled _
  | .nil | .boolean _ | .number _ | .string _ | .callable (.native _) | .callable (.function _ _)
  | .ofInstance _ => exact fault leads₁.settled _

theorem superMethod (rooted : ∀ n, code n → n.Scoped .top) (settled : w.Settled code)
    (place : Place) (method : Name) :
    Proceeds code w (Watched.superMethod place method) fun v w' => w'.Knows code v := by
  cases place with
  | global => exact fault settled _
  | scope hops =>
    apply (superAt settled hops).bind
    rintro ⟨c, i⟩ w' leads ⟨knownClass, known⟩
    exact methodOf rooted leads.settled knownClass known method

include h

theorem setProperty (settled : w.Settled code) (p : Spot) (object : Value) (name : Name)
    {value : Expr Place} (isAt : w.At code (.expression value)) :
    Proceeds code w (Watched.setProperty t p object name value) fun v w' => w'.Knows code v := by
  unfold Watched.setProperty
  cases object with
  | ofInstance i =>
    apply (h.eval p settled isAt).bind
    intro v w₁ leads₁ known
    apply (setField leads₁.settled i name.text known).bind
    intro _ w₂ leads₂ _
    exact pure leads₂.settled (known.extends leads₂.toExtends)
  | nil | boolean | number | string | callable => exact fault settled _

theorem evalWith (rooted : ∀ n, code n → n.Scoped .top) (settled : w.Settled code) (p : Spot)
    {e : Expr Place} (isAt : w.At code (.expression e)) :
    Proceeds code w (Watched.evalWith t p e) fun v w' => w'.Knows code v := by
  cases e with
  | literal value =>
    apply pure settled
    cases value <;> trivial
  | grouping inner => exact h.eval p settled (isAt.operand List.mem_cons_self)
  | unary op line operand =>
    apply (h.eval p settled (isAt.operand List.mem_cons_self)).bind
    intro v w' leads _
    exact liftCause leads.settled line fun r result => (UnaryOp.apply_isScalar result).knows
  | binary op line left right =>
    apply (h.eval p settled (isAt.operand List.mem_cons_self)).bind
    intro a w₁ leads₁ _
    have atRight : w.At code (.expression right) := isAt.operand (by simp [Expr.operands])
    apply (h.eval p leads₁.settled (atRight.leads leads₁)).bind
    intro b w₂ leads₂ _
    exact liftCause leads₂.settled line fun r result => (BinaryOp.apply_isScalar result).knows
  | logical op left right =>
    apply (h.eval p settled (isAt.operand List.mem_cons_self)).bind
    intro a w₁ leads₁ known
    apply ite
    · exact pure leads₁.settled known
    · have atRight : w.At code (.expression right) := isAt.operand (by simp [Expr.operands])
      exact h.eval p leads₁.settled (atRight.leads leads₁)
  | «variable» target =>
    apply (readVariable settled target.mark target.name).mono
    rintro v w' - ⟨rfl, -, known⟩
    exact known
  | assign target value =>
    obtain ⟨c, -, named, -⟩ := isAt.isScoped rooted
    apply (h.eval p settled (isAt.operand List.mem_cons_self)).bind
    intro v w₁ leads₁ known
    apply (note leads₁.settled p (.store target) fun _ same => by cases same).bind
    rintro - w₂ leads₂ -
    have known := known.extends leads₂.toExtends
    apply (assignVariable leads₂.settled target.mark named known).bind
    intro _ w₃ leads₃ _
    exact pure leads₃.settled (known.extends leads₃.toExtends)
  | call callee line arguments =>
    apply (h.eval p settled (isAt.operand List.mem_cons_self)).bind
    intro f w₁ leads₁ knownCallee
    have atArguments : ∀ e ∈ arguments, w₁.At code (.expression e) :=
      fun e mem => (isAt.operand (List.mem_cons_of_mem _ mem)).leads leads₁
    apply (evalAll h leads₁.settled p atArguments).bind
    intro vs w₂ leads₂ known
    exact callValue h rooted leads₂.settled (knownCallee.extends leads₂.toExtends) known line
  | get object property =>
    apply (h.eval p settled (isAt.operand List.mem_cons_self)).bind
    intro v w₁ leads₁ known
    exact getProperty rooted leads₁.settled known property
  | set object property value =>
    apply (h.eval p settled (isAt.operand List.mem_cons_self)).bind
    intro v w₁ leads₁ _
    have atValue : w.At code (.expression value) := isAt.operand (by simp [Expr.operands])
    exact setProperty h leads₁.settled p v property (atValue.leads leads₁)
  | this line mark =>
    apply (readVariable settled mark ⟨thisName, line⟩).mono
    rintro v w' - ⟨rfl, -, known⟩
    exact known
  | super line mark method => exact superMethod rooted settled mark method

end Proceeds

/-! ## Classes -/

/-- The class has been found that the superclass name stands for in the active scope. -/
def Watch.Inherits (code : Node → Prop) (w : Watch) : Option (Reference Place) → Option Class → Prop
  | none, none => True
  | some r, some c => w.KnowsClass code c ∧
    Denoted w.moments r w.machine.current.path w.machine.store.frames.size c
  | some _, none | none, some _ => False

/-- A class is known if its own methods carry their scopes and its superclass is known. -/
theorem Watch.KnowsClass.made {id : ObjectId} {name : String} {table : Bindings Closure}
    {parent : Option Class}
    (own : ∀ method f, table.get? method = some f → w.HousesMethod code f)
    (inherited : ∀ c ∈ parent, w.KnowsClass code c) :
    w.KnowsClass code (Run.makeClass id name table parent) := by
  intro level mem
  rcases List.mem_cons.1 mem with rfl | mem
  · exact own
  · cases parent with
    | none => cases mem
    | some c => exact inherited c rfl level mem

namespace Proceeds

/-- The class that a superclass name stands for is on record. -/
theorem readSuperclass (settled : w.Settled code) (p : Spot)
    (superclass : Option (Reference Place)) :
    Proceeds code w (Watched.readSuperclass p superclass) fun parent w' =>
      w'.Inherits code superclass parent := by
  cases superclass with
  | none => exact pure settled trivial
  | some r =>
    let m : Moment := ⟨.superclass r, p, w.machine⟩
    apply (note settled p (.superclass r) fun _ same => by cases same).bind
    rintro - noted leads rfl
    rw [Run.readSuperclass, Watched.plain_bind]
    apply (readVariable leads.settled r.mark r.name).bind
    rintro v w' - ⟨rfl, read, known⟩
    match v with
    | .callable (.ofClass c) =>
      have result : Run.readSuperclass (some r) w.machine = .ok (some c) w.machine := by
        simp only [Run.readSuperclass, Bind.bind, EStateM.bind]
        rw [show Run.readVariable r.mark r.name w.machine = _ from read]
        rfl
      have denoted : Denoted (m :: w.moments) r w.machine.current.path
          w.machine.store.frames.size c :=
        ⟨m, List.mem_cons_self, rfl, rfl, rfl, result⟩
      exact pure leads.settled ⟨known, denoted⟩
    | .nil | .boolean _ | .number _ | .string _ | .callable (.native _)
    | .callable (.function _ _) | .ofInstance _ => exact fault leads.settled _

/-- Around the methods of a class are the scopes around the class, with one for its superclass. -/
theorem methodEnvironment (settled : w.Settled code) {superclass : Option (Reference Place)}
    {parent : Option Class} (inherits : w.Inherits code superclass parent) :
    Proceeds code w (Watched.plain (Run.methodEnvironment parent)) fun e w' =>
      ClassScopes w'.machine.store w'.moments w.machine.current.path superclass parent e.path ∧
        ∀ c ∈ parent, w'.KnowsClass code c := by
  match superclass, parent, inherits with
  | none, none, _ =>
    apply (current settled).mono
    rintro e w' - ⟨rfl, rfl⟩
    exact ⟨.base, fun c mem => by cases mem⟩
  | some r, some c, ⟨known, denoted⟩ =>
    let binding : Bindings Value := Bindings.empty.insert superName (.callable (.ofClass c))
    let outer := w.machine.store.frames.size
    have holds : (w.machine.store.pushFrame binding).HoldsSuper outer c :=
      Store.frame_pushFrame_self _ _
    have allKnown : ∀ name v, binding.get? name = some v → w.Knows code v := by
      intro name v found
      obtain ⟨-, rfl⟩ := Bindings.get?_insert_empty.1 found
      exact known
    rw [Run.methodEnvironment, Watched.plain_bind]
    apply (current settled).bind
    rintro e w' - ⟨rfl, rfl⟩
    apply (newFrame settled w'.machine.current (.inr (.inr ⟨c, holds⟩)) allKnown).mono
    rintro e w₁ leads ⟨rfl, store⟩
    rw [← store] at holds
    constructor
    · exact .derived (denoted.mono leads.moments) holds
    · intro c' mem
      cases mem
      exact known.extends leads.toExtends

/-- A class is known that is made in the scopes of its methods. -/
theorem newClass (settled : w.Settled code) (p : Spot) {name : Name}
    {superclass : Option (Reference Place)} {methods : List (FunctionDecl Place)} {o : Option Receiver}
    {path : List FrameId} {c : Context} {parent : Option Class}
    (nested : Nested code w.machine.store w.moments o path c
      (.statement (.classDecl name superclass methods)))
    (scopes : ClassScopes w.machine.store w.moments path superclass parent w.machine.current.path)
    (known : ∀ c ∈ parent, w.KnowsClass code c) :
    Proceeds code w (Watched.newClass p name.text parent methods) fun made w' =>
      w'.KnowsClass code made := by
  apply (current settled).bind
  rintro - w - ⟨rfl, rfl⟩
  apply (newObject settled p).bind
  intro id w' leads _
  have own : ∀ method f, (Run.methodTable w.machine.current methods).get? method = some f →
      w'.HousesMethod code f := by
    intro method f found
    obtain ⟨d, mem, same⟩ := List.mem_map.1 (Bindings.mem_of_get?_ofList found)
    cases same
    exact ⟨o, path, c, name, superclass, methods, parent, nested.mono leads.settles leads.moments,
      mem, scopes.mono leads.settles leads.moments⟩
  have inherited : ∀ c ∈ parent, w'.KnowsClass code c :=
    fun c mem => (known c mem).extends leads.toExtends
  exact pure leads.settled (Watch.KnowsClass.made own inherited)

theorem declareClass (rooted : ∀ n, code n → n.Scoped .top) (settled : w.Settled code) (p : Spot)
    {name : Name} {superclass : Option (Reference Place)} {methods : List (FunctionDecl Place)}
    (isAt : w.At code (.statement (.classDecl name superclass methods))) :
    Proceeds code w (Watched.declareClass p name superclass methods) fun _ _ => True := by
  obtain ⟨c, named, -⟩ := isAt.isScoped rooted
  apply (define (v := .nil) settled isAt.plain named trivial).bind
  intro _ w₁ leads₁ _
  apply (readSuperclass leads₁.settled _ superclass).bind
  intro parent w₂ leads₂ inherits
  apply (current leads₂.settled).bind
  rintro - w₂ - ⟨rfl, rfl⟩
  apply (methodEnvironment leads₂.settled inherits).bind
  rintro e w₃ leads₃ ⟨scopes, known⟩
  -- the methods carry the scopes that the class has been declared in
  obtain ⟨⟨o, c, nested⟩, -⟩ := isAt.leads ((leads₁.trans leads₂).trans leads₃)
  rw [leads₃.current] at nested
  have makes : Proceeds code w₃
      (Watched.withEnvironment e (Watched.newClass
        (p.atClass name.text superclass w₂.machine.current) name.text parent methods))
      fun made w' => w'.KnowsClass code made := by
    apply withEnvironment leads₃.settled e
    · intro entered
      exact newClass entered _ nested scopes known
    · intro made w' w'' later known
      exact known.extends later
  apply makes.bind
  intro made w₄ leads₄ known
  apply (current leads₄.settled).bind
  rintro - w₄ - ⟨rfl, rfl⟩
  exact assign leads₄.settled _ named known

/-! ## Statements -/

variable {t : Watcher} (h : t.Proceeds code)
include h

theorem eval? (settled : w.Settled code) (p : Spot) {value : Option (Expr Place)}
    (isAt : ∀ e ∈ value, w.At code (.expression e)) :
    Proceeds code w (Watched.eval? t p value) fun v w' => w'.Knows code v := by
  cases value with
  | none => exact pure settled trivial
  | some e => exact h.eval p settled (isAt e rfl)

theorem loop (p : Spot) {condition : Expr Place} {body : Stmt Place} (n : Nat)
    (settled : w.Settled code) (isAt : w.At code (.statement (.loop condition body))) :
    Proceeds code w (Watched.loop t p n condition body) fun completion w' =>
      w'.Knows code completion.value := by
  induction n generalizing w with
  | zero => exact outOfFuel settled
  | succ n ih =>
    have atCondition := isAt.part rfl fun c => ⟨c, List.mem_cons_self⟩
    apply (h.eval p settled atCondition).bind
    intro holds w₁ leads₁ _
    apply ite
    · have again := isAt.leads leads₁
      have atBody := again.part rfl fun c => ⟨c, List.mem_cons_of_mem _ List.mem_cons_self⟩
      apply (h.exec p leads₁.settled atBody).bind
      intro completion w₂ leads₂ known
      cases completion with
      | normal => exact ih leads₂.settled (again.leads leads₂)
      | returned v => exact pure leads₂.settled known
    · exact pure leads₁.settled trivial

theorem choose (settled : w.Settled code) (p : Spot) (condition : Value) {thenBranch : Stmt Place}
    {elseBranch : Option (Stmt Place)} (atThen : w.At code (.statement thenBranch))
    (atElse : ∀ s ∈ elseBranch, w.At code (.statement s)) :
    Proceeds code w (Watched.choose t p condition thenBranch elseBranch) fun completion w' =>
      w'.Knows code completion.value := by
  cases elseBranch with
  | none =>
    apply ite
    · exact h.exec p settled atThen
    · exact pure settled trivial
  | some s =>
    apply ite
    · exact h.exec p settled atThen
    · exact h.exec p settled (atElse s rfl)

/-- A block opens a scope for its variables. -/
theorem block (settled : w.Settled code) (p : Spot) {body : List (Stmt Place)}
    (isAt : w.At code (.statement (.block body))) :
    Proceeds code w (Watched.execWith 0 t p (.block body)) fun completion w' =>
      w'.Knows code completion.value := by
  apply (current settled).bind
  rintro e w' - ⟨rfl, rfl⟩
  have plain : (w'.machine.store.pushFrame Bindings.empty).IsPlain w'.machine.store.frames.size :=
    Store.isPlain_pushFrame fun name bound => by cases bound
  apply (newFrame settled w'.machine.current (.inl plain) fun name v found => by cases found).bind
  rintro e w₁ leads ⟨rfl, store⟩
  rw [← store] at plain
  obtain ⟨⟨o, c, nested⟩, -⟩ := isAt.leads leads
  rw [leads.current] at nested
  exact execIn h leads.settled _ ⟨o, _, nested.block _⟩ plain

theorem execWith (rooted : ∀ n, code n → n.Scoped .top) (n : Nat) (settled : w.Settled code)
    (p : Spot) {s : Stmt Place} (isAt : w.At code (.statement s)) :
    Proceeds code w (Watched.execWith n t p s) fun completion w' =>
      w'.Knows code completion.value := by
  cases s with
  | expression value =>
    apply (h.eval p settled (isAt.part rfl fun c => ⟨c, List.mem_cons_self⟩)).bind
    intro _ w' leads _
    exact pure leads.settled trivial
  | print value =>
    apply (h.eval p settled (isAt.part rfl fun c => ⟨c, List.mem_cons_self⟩)).bind
    intro v w₁ leads₁ _
    apply (write leads₁.settled _).bind
    intro _ w₂ leads₂ _
    exact pure leads₂.settled trivial
  | declare name initializer =>
    obtain ⟨c, named, -⟩ := isAt.isScoped rooted
    have atInitializer : ∀ e ∈ initializer, w.At code (.expression e) := by
      intro e mem
      cases mem
      exact isAt.part rfl fun c => ⟨_, List.mem_cons_self⟩
    apply (eval? h settled _ atInitializer).bind
    intro v w₁ leads₁ known
    apply (define leads₁.settled (isAt.leads leads₁).plain named known).bind
    intro _ w₂ leads₂ _
    exact pure leads₂.settled trivial
  | block body => exact block h settled p isAt
  | conditional condition thenBranch elseBranch =>
    apply (h.eval p settled (isAt.part rfl fun c => ⟨c, List.mem_cons_self⟩)).bind
    intro v w₁ leads₁ _
    have again := isAt.leads leads₁
    apply choose h leads₁.settled
    · exact again.part rfl fun c => ⟨c, List.mem_cons_of_mem _ List.mem_cons_self⟩
    · intro s mem
      cases mem
      exact again.part rfl fun c =>
        ⟨_, List.mem_cons_of_mem _ (List.mem_cons_of_mem _ List.mem_cons_self)⟩
  | loop condition body => exact loop h p n settled isAt
  | function declaration =>
    obtain ⟨name, params, body⟩ := declaration
    obtain ⟨c, named, namedParams, -⟩ := isAt.isScoped rooted
    apply (current settled).bind
    rintro e w - ⟨rfl, rfl⟩
    obtain ⟨o, c, nested⟩ := isAt.nested
    have houses : w.Houses code ⟨⟨name, params, body⟩, w.machine.current, false⟩ :=
      ⟨namedParams, o, _, fun id => nested.function id⟩
    apply (newFunction settled _ houses).bind
    intro v w₁ leads₁ known
    apply (define leads₁.settled (isAt.leads leads₁).plain named known).bind
    intro _ w₂ leads₂ _
    exact pure leads₂.settled trivial
  | ret line value =>
    have atValue : ∀ e ∈ value, w.At code (.expression e) := by
      intro e mem
      cases mem
      exact isAt.part rfl fun c => ⟨c, List.mem_cons_self⟩
    apply (eval? h settled p atValue).bind
    intro v w' leads known
    exact pure leads.settled known
  | classDecl name superclass methods =>
    apply (declareClass rooted settled p isAt).bind
    intro _ w' leads _
    exact pure leads.settled trivial

end Proceeds

/-- **With any fuel, all parts of well-scoped code leave a watch settled.** -/
theorem watcher_proceeds (rooted : ∀ n, code n → n.Scoped .top) (n : Nat) :
    (watcher n).Proceeds code := by
  induction n with
  | zero => exact ⟨fun _ settled _ => .outOfFuel settled, fun _ settled _ => .outOfFuel settled⟩
  | succ n ih =>
    constructor
    · intro w e p settled isAt
      apply (Proceeds.note settled p (.evaluate e) fun _ same => by cases same; exact isAt).bind
      rintro - w' leads -
      exact Proceeds.evalWith ih rooted leads.settled p (isAt.leads leads)
    · intro w s p settled isAt
      apply (Proceeds.note settled p (.execute s) fun _ same => by cases same).bind
      rintro - w' leads -
      exact Proceeds.execWith ih rooted n leads.settled p (isAt.leads leads)

/-- The statements of a program leave a watch settled. -/
theorem Proceeds.program {t : Watcher} (h : t.Proceeds code) (settled : w.Settled code) (p : Spot)
    {ss : List (Stmt Place)} (isAt : w.At code (.statements ss)) :
    Proceeds code w (Watched.program t p ss) fun _ _ => True := by
  induction ss generalizing w p with
  | nil => exact pure settled trivial
  | cons s ss ih =>
    apply (h.exec p settled isAt.head).bind
    intro completion w' leads _
    cases completion with
    | normal => exact ih leads.settled _ (isAt.tail.leads leads)
    | returned v => exact fault leads.settled _

end Lox
