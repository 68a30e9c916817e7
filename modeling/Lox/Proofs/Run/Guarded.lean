import Lox.Proofs.Run.ExpressionRules
import Lox.Proofs.Run.Guard

/-!
# What runs stays within its guard

`g.Keeps m act Q` says of a part of a run that begins on the machine `m`: however it ends, the guard
holds of the machine it leaves, and if it ends well, `Q` holds of what it gives. What evaluation gives
is a value that the guard allows. There is one lemma for each way to put parts together, one for each
step and one for each rule of evaluation, and `evaluator_keeps` puts them together.
-/

namespace Lox

/-- The part of a run stays within the guard and establishes `Q`. -/
def Guard.Keeps {α : Type} (g : Guard) (m : Machine) (act : Run α) (Q : α → Machine → Prop) : Prop :=
  match act m with
  | .ok a m' => g.Leads m m' ∧ Q a m'
  | .error _ m' => g.Leads m m'

/-- Whatever is evaluated stays within the guard. -/
structure Evaluator.Keeps (ev : Evaluator) (g : Guard) : Prop where
  eval : ∀ {m : Machine} (e : Expr Place), g.Guards m →
    g.Keeps m (ev.eval e) fun v m' => g.Allows m'.store v
  exec : ∀ {m : Machine} (s : Stmt Place), g.Guards m →
    g.Keeps m (ev.exec s) fun completion m' => g.Allows m'.store completion.value

variable {g : Guard} {m m' : Machine}

/-- What is no function, class or instance leads nowhere. -/
theorem Value.IsScalar.allowed {s : Store} {v : Value} (h : v.IsScalar) : g.Allows s v := by
  cases v with
  | nil | boolean | number | string => trivial
  | callable | ofInstance => exact h.elim

namespace Guard.Keeps

variable {α β : Type} {Q : α → Machine → Prop} {R : β → Machine → Prop}

/-! ## Parts -/

theorem pure (guards : g.Guards m) {a : α} (h : Q a m) : g.Keeps m (Pure.pure a) Q :=
  ⟨.refl guards, h⟩

theorem bind {act : Run α} {next : α → Run β} (first : g.Keeps m act Q)
    (rest : ∀ a m', g.Leads m m' → Q a m' → g.Keeps m' (next a) R) :
    g.Keeps m (act >>= next) R := by
  unfold Keeps at first ⊢
  simp only [Bind.bind, EStateM.bind]
  cases result : act m with
  | error stop m' =>
    rw [result] at first
    exact first
  | ok a m' =>
    rw [result] at first
    have second := rest a m' first.1 first.2
    unfold Keeps at second
    dsimp only
    cases result' : next a m' with
    | error stop m'' =>
      rw [result'] at second
      exact first.1.trans second
    | ok b m'' =>
      rw [result'] at second
      exact ⟨first.1.trans second.1, second.2⟩

theorem ite {b : Bool} {act act' : Run α} (yes : g.Keeps m act Q) (no : g.Keeps m act' Q) :
    g.Keeps m (if b = true then act else act') Q := by
  cases b with
  | true => exact yes
  | false => exact no

/-- A value that the part of a run leaves as it was. -/
theorem giving {act : Run Unit} {v : Value} (allowed : g.Allows m.store v)
    (kept : g.Keeps m act fun _ _ => True) :
    g.Keeps m (act >>= fun _ => Pure.pure v) fun v m' => g.Allows m'.store v := by
  apply kept.bind
  intro _ m' leads _
  exact pure leads.guards (allowed.mono leads.grows)

/-- A step that gives a result. -/
theorem ok {act : Run α} {a : α} {n : Machine} (result : act m = .ok a n) (leads : g.Leads m n)
    (h : Q a n) : g.Keeps m act Q := by
  simp only [Keeps, result]
  exact ⟨leads, h⟩

/-- A step that stops the run. -/
theorem error {act : Run α} {stop : Stop} {n : Machine} (result : act m = .error stop n)
    (leads : g.Leads m n) : g.Keeps m act Q := by
  simp only [Keeps, result]
  exact leads

/-- Whatever runs in another scope that is allowed. -/
theorem withEnvironment (guards : g.Guards m) {e : Environment} (allowed : g.AllowsScope m.store e)
    {act : Run α} {Q : α → Store → Prop}
    (inner : ∀ {m'}, g.Leads m m' → g.Keeps m' act fun a m'' => Q a m''.store) :
    g.Keeps m (Run.withEnvironment e act) fun a m' => Q a m'.store := by
  have entered : g.Leads m { m with current := e } := .of_store guards rfl allowed
  have result := inner entered
  have back {m' : Machine} (leads : g.Leads { m with current := e } m') :
      g.Leads m { m' with current := m.current } := by
    have grows := leads.grows
    exact (entered.trans leads).trans (.of_store leads.guards rfl (guards.active.mono grows))
  unfold Keeps at result
  unfold Keeps Run.withEnvironment
  dsimp only
  cases ended : act { m with current := e } with
  | ok a m' =>
    rw [ended] at result
    exact ⟨back result.1, result.2⟩
  | error stop m' =>
    rw [ended] at result
    exact back result

/-- The machine that the part of the run leaves, however it ends. -/
theorem left {act : Run α} (h : g.Keeps m act Q) : g.Leads m (Run.left (act m)) := by
  unfold Keeps at h
  cases result : act m with
  | ok a m' =>
    rw [result] at h
    exact h.1
  | error stop m' =>
    rw [result] at h
    exact h

/-! ## Steps -/

theorem fault (guards : g.Guards m) (f : Fault) : g.Keeps m (Run.fault (α := α) f) Q :=
  .error rfl (.refl guards)

theorem outOfFuel (guards : g.Guards m) : g.Keeps m (Run.outOfFuel (α := α)) Q :=
  .error rfl (.refl guards)

theorem read (guards : g.Guards m) {f : Machine → Except Fault α}
    (h : ∀ a, f m = .ok a → Q a m) : g.Keeps m (Run.read f) Q := by
  cases result : f m with
  | ok a => exact .ok (by rw [Run.read, result]) (.refl guards) (h a result)
  | error fault => exact .error (by rw [Run.read, result]) (.refl guards)

theorem current (guards : g.Guards m) :
    g.Keeps m Run.current fun e m' => g.AllowsScope m'.store e :=
  .ok rfl (.refl guards) guards.active

theorem liftCause (guards : g.Guards m) (line : Nat) {result : Except RuntimeCause α}
    (h : ∀ a, result = .ok a → Q a m) : g.Keeps m (Run.liftCause line result) Q := by
  cases result with
  | ok a => exact pure guards (h a rfl)
  | error cause => exact fault guards _

theorem write (guards : g.Guards m) (text : String) : g.Keeps m (Run.write text) fun _ _ => True := by
  cases refused : m.sink.refusal .write m.sink.requests with
  | some message =>
    apply error (n := { m with sink := m.sink.asked })
    · simp only [Run.write, refused]
      rfl
    · exact .of_store guards rfl guards.active
  | none =>
    apply ok (a := ()) (n := { m with sink := m.sink.take text })
    · simp [Run.write, refused]
    · exact .of_store guards rfl guards.active
    · trivial

theorem flush (guards : g.Guards m) : g.Keeps m Run.flush fun _ _ => True := by
  cases refused : m.sink.refusal .flush m.sink.requests with
  | some message =>
    apply error (n := { m with sink := m.sink.asked })
    · simp only [Run.flush, refused]
      rfl
    · exact .of_store guards rfl guards.active
  | none =>
    apply ok (a := ()) (n := { m with sink := m.sink.asked })
    · simp only [Run.flush, refused]
    · exact .of_store guards rfl guards.active
    · trivial

theorem callNative (guards : g.Guards m) (f : Native) :
    g.Keeps m (Run.callNative f) fun v m' => g.Allows m'.store v := by
  cases f with
  | clock => exact .ok rfl (.of_store guards rfl guards.active) trivial

/-- A scope that is opened inside an allowed one. -/
theorem newFrame (guards : g.Guards m) {outer : Environment} (allowed : g.AllowsScope m.store outer)
    {bound : Bindings Value} (values : ∀ {name v}, bound.get? name = some v → g.Allows m.store v) :
    g.Keeps m (Run.newFrame outer bound) fun e m' => g.AllowsScope m'.store e := by
  have leads := Leads.pushFrame guards values
  have scope : g.AllowsScope (m.store.pushFrame bound) ⟨m.store.frames.size, outer.path⟩ := by
    intro id mem
    rcases List.mem_cons.1 mem with rfl | mem
    · exact g.scope_new bound guards.grown
    · exact g.scope_mono leads.grows (allowed id mem)
  exact ok rfl leads scope

theorem newInstance (guards : g.Guards m) {c : Class} (allowed : g.AllowsClass m.store c) :
    g.Keeps m (Run.newInstance c) fun i m' => g.Allows m'.store (.ofInstance i) := by
  have leads := Leads.pushInstance guards
  exact .ok rfl leads ⟨g.inst_new guards.grown, allowed.mono leads.grows⟩

theorem newFunction (guards : g.Guards m) {f : Closure}
    (allowed : g.AllowsScope m.store f.environment) :
    g.Keeps m (Run.newFunction f) fun v m' => g.Allows m'.store v := by
  have leads := Leads.takeObject guards
  exact .ok rfl leads ⟨allowed.mono leads.grows, g.object_new f.environment guards.grown⟩

theorem define (guards : g.Guards m) (name : String) {v : Value} (allowed : g.Allows m.store v) :
    g.Keeps m (Run.define name v) fun _ _ => True :=
  .ok rfl (.setVariable guards (guards.active _ List.mem_cons_self) allowed) trivial

theorem assign (guards : g.Guards m) {e : Environment} (scope : g.AllowsScope m.store e)
    (name : Name) {v : Value} (allowed : g.Allows m.store v) :
    g.Keeps m (Run.assign e name v) fun _ _ => True := by
  cases found : m.store.binder? e.path name.text with
  | none =>
    apply error (n := m)
    · simp only [Run.assign, Store.assign, found]
      rfl
    · exact .refl guards
  | some id =>
    apply ok (a := ()) (n := { m with store := m.store.setVariable id name.text v })
    · simp only [Run.assign, Store.assign, found]
    · exact .setVariable guards (scope id (List.mem_of_find?_eq_some found)) allowed
    · trivial

theorem assignVariable (guards : g.Guards m) (place : Place) (name : Name) {v : Value}
    (allowed : g.Allows m.store v) : g.Keeps m (Run.assignVariable place name v) fun _ _ => True := by
  cases place with
  | global => exact assign guards guards.globals name allowed
  | scope hops =>
    cases found : m.store.binderAt m.current hops name.text with
    | error f =>
      apply error (n := m)
      · simp only [Run.assignVariable, Run.assignAt, Store.assignAt, found]
        rfl
      · exact .refl guards
    | ok id =>
      apply ok (a := ()) (n := { m with store := m.store.setVariable id name.text v })
      · simp only [Run.assignVariable, Run.assignAt, Store.assignAt, found]
      · have mem := List.mem_of_getElem? (Store.path_of_binderAt found)
        exact .setVariable guards (guards.active id mem) allowed
      · trivial

/-- A variable of an allowed scope has an allowed value. -/
theorem getAt (guards : g.Guards m) {f : Machine → Except Fault Value} {e : Environment}
    {hops : Nat} {name : String} (same : f m = m.store.getAt e hops name)
    (scope : g.AllowsScope m.store e) :
    g.Keeps m (Run.read f) fun v m' => g.Allows m'.store v := by
  apply read guards
  intro v found
  rw [same] at found
  obtain ⟨id, mem, here⟩ := Store.mem_path_of_getAt found
  exact guards.bound (scope id mem) here

theorem readVariable (guards : g.Guards m) (place : Place) (name : Name) :
    g.Keeps m (Run.readVariable place name) fun v m' => g.Allows m'.store v := by
  cases place with
  | scope hops => exact getAt guards rfl guards.active
  | global =>
    apply read guards
    intro v found
    obtain ⟨id, mem, here⟩ := Store.mem_path_of_get found
    exact guards.bound (guards.globals id mem) here

theorem setField (guards : g.Guards m) {i : Instance} (inst : g.inst m.store i.id)
    (name : String) {v : Value} (allowed : g.Allows m.store v) :
    g.Keeps m (Run.setField i name v) fun _ _ => True :=
  .ok rfl (.setField guards inst allowed) trivial

/-! ## Methods -/

theorem bindMethod (guards : g.Guards m) {method : Closure}
    (allowed : g.AllowsScope m.store method.environment) {i : Instance}
    (holds : g.Allows m.store (.ofInstance i)) :
    g.Keeps m (Run.bindMethod method i) fun bound m' => g.AllowsScope m'.store bound.environment := by
  have receiver {name : String} {v : Value}
      (found : (Bindings.empty.insert thisName (.ofInstance i)).get? name = some v) :
      g.Allows m.store v := by
    obtain ⟨-, rfl⟩ := Bindings.get?_insert_empty.1 found
    exact holds
  apply (newFrame guards allowed receiver).bind
  intro e m' leads scope
  exact pure leads.guards scope

theorem methodOf (guards : g.Guards m) {c : Class} (allowed : g.AllowsClass m.store c)
    {i : Instance} (holds : g.Allows m.store (.ofInstance i)) (name : Name) :
    g.Keeps m (Run.methodOf c i name) fun v m' => g.Allows m'.store v := by
  unfold Run.methodOf
  cases found : c.findMethod? name.text with
  | none => exact fault guards _
  | some method =>
    apply (bindMethod guards (allowed.method found) holds).bind
    intro bound m' leads scope
    exact newFunction leads.guards scope

theorem getProperty (guards : g.Guards m) {object : Value} (allowed : g.Allows m.store object)
    (name : Name) : g.Keeps m (Run.getProperty object name) fun v m' => g.Allows m'.store v := by
  cases object with
  | ofInstance i =>
    apply bind (Q := fun value m' => g.Guards m' ∧ g.Allows m'.store (.ofInstance i) ∧
      ∀ v ∈ value, g.Allows m'.store v)
    · apply read guards
      intro value found
      cases found
      exact ⟨guards, allowed, fun v stored => guards.fields allowed.1 stored⟩
    · rintro value m' - ⟨guards, allowed, stored⟩
      cases value with
      | some v => exact pure guards (stored v rfl)
      | none => exact methodOf guards allowed.2 allowed name
  | nil | boolean | number | string | callable =>
    exact fault guards (.runtime .propertyOfOther name.line)

theorem superAt (guards : g.Guards m) (hops : Nat) :
    g.Keeps m (Run.superAt hops) fun found m' =>
      g.AllowsClass m'.store found.1 ∧ g.Allows m'.store (.ofInstance found.2) := by
  unfold Run.superAt
  apply (getAt guards rfl guards.active).bind
  intro superclass m₁ leads₁ allowed
  match superclass with
  | .callable (.ofClass c) =>
    cases hops with
    | zero => exact fault leads₁.guards _
    | succ inner =>
      dsimp only
      apply (getAt leads₁.guards rfl leads₁.guards.active).bind
      intro receiver m₂ leads₂ holds
      match receiver with
      | .ofInstance i => exact pure leads₂.guards ⟨AllowsClass.mono leads₂.grows allowed, holds⟩
      | .nil | .boolean _ | .number _ | .string _ | .callable _ => exact fault leads₂.guards _
  | .nil | .boolean _ | .number _ | .string _ | .callable (.native _) | .callable (.function _ _)
  | .ofInstance _ => exact fault leads₁.guards _

theorem superMethod (guards : g.Guards m) (place : Place) (method : Name) :
    g.Keeps m (Run.superMethod place method) fun v m' => g.Allows m'.store v := by
  cases place with
  | global => exact fault guards (.mismatch .superUnresolved)
  | scope hops =>
    apply (superAt guards hops).bind
    rintro ⟨c, i⟩ m' leads ⟨allowed, holds⟩
    exact methodOf leads.guards allowed holds method

/-! ## Classes -/

theorem readSuperclass (guards : g.Guards m) (superclass : Option (Reference Place)) :
    g.Keeps m (Run.readSuperclass superclass) fun parent m' =>
      ∀ c ∈ parent, g.AllowsClass m'.store c := by
  cases superclass with
  | none => exact pure guards nofun
  | some r =>
    apply (readVariable guards r.mark r.name).bind
    intro v m' leads allowed
    match v with
    | .callable (.ofClass c) =>
      apply pure leads.guards
      intro c' mem
      cases mem
      exact allowed
    | .nil | .boolean _ | .number _ | .string _ | .callable (.native _)
    | .callable (.function _ _) | .ofInstance _ => exact fault leads.guards _

theorem methodEnvironment (guards : g.Guards m) {parent : Option Class}
    (allowed : ∀ c ∈ parent, g.AllowsClass m.store c) :
    g.Keeps m (Run.methodEnvironment parent) fun e m' => g.AllowsScope m'.store e := by
  cases parent with
  | none => exact current guards
  | some c =>
    apply (current guards).bind
    intro e m' leads scope
    apply newFrame leads.guards scope
    intro name v found
    obtain ⟨-, rfl⟩ := Bindings.get?_insert_empty.1 found
    exact (allowed c rfl).mono leads.grows

/-- The methods of a class that is made have captured the scopes that are active. -/
theorem newClass (guards : g.Guards m) (name : String) (methods : List (FunctionDecl Place))
    {parent : Option Class} (allowed : ∀ c ∈ parent, g.AllowsClass m.store c) :
    g.Keeps m (Run.newClass name parent methods) fun made m' => g.AllowsClass m'.store made := by
  have leads := Leads.takeObject guards
  have made : g.AllowsClass m.store.takeObject
      (Run.makeClass m.store.nextObject name (Run.methodTable m.current methods) parent) := by
    intro level mem method f found
    rcases List.mem_cons.1 mem with rfl | mem
    · obtain ⟨d, -, same⟩ := List.mem_map.1 (Bindings.mem_of_get?_ofList found)
      cases same
      exact ⟨guards.active.mono leads.grows, g.object_new m.current guards.grown⟩
    · cases parent with
      | none => cases mem
      | some c => exact (allowed c rfl).mono leads.grows level mem method f found
  exact ok rfl leads made

theorem declareClass (guards : g.Guards m) (name : Name) (superclass : Option (Reference Place))
    (methods : List (FunctionDecl Place)) :
    g.Keeps m (Run.declareClass name superclass methods) fun _ _ => True := by
  apply (define (v := .nil) guards name.text trivial).bind
  intro _ m₁ leads₁ _
  apply (readSuperclass leads₁.guards superclass).bind
  intro parent m₂ leads₂ allowed
  apply (methodEnvironment leads₂.guards allowed).bind
  intro e m₃ leads₃ scope
  have makes : g.Keeps m₃ (Run.withEnvironment e (Run.newClass name.text parent methods))
      fun made m' => g.AllowsClass m'.store made := by
    apply withEnvironment (Q := fun made s => g.AllowsClass s made) leads₃.guards scope
    intro m' entered
    apply newClass entered.guards name.text methods
    intro c mem
    exact (allowed c mem).mono (leads₃.trans entered).grows
  apply makes.bind
  intro made m₄ leads₄ allowed
  apply (current leads₄.guards).bind
  intro home m₅ leads₅ scope
  exact assign leads₅.guards scope name (allowed.mono leads₅.grows)

/-! ## Calls -/

variable {ev : Evaluator} (h : ev.Keeps g)
include h

theorem evalAll (guards : g.Guards m) (es : List (Expr Place)) :
    g.Keeps m (Run.evalAll ev es) fun vs m' => ∀ v ∈ vs, g.Allows m'.store v := by
  induction es generalizing m with
  | nil => exact pure guards nofun
  | cons e es ih =>
    apply (h.eval e guards).bind
    intro v m₁ leads₁ allowed
    apply (ih leads₁.guards).bind
    intro vs m₂ leads₂ allAllowed
    apply pure leads₂.guards
    intro x mem
    rcases List.mem_cons.1 mem with rfl | mem
    · exact allowed.mono leads₂.grows
    · exact allAllowed x mem

theorem execAll (guards : g.Guards m) (ss : List (Stmt Place)) :
    g.Keeps m (Run.execAll ev ss) fun completion m' => g.Allows m'.store completion.value := by
  induction ss generalizing m with
  | nil => exact pure guards trivial
  | cons s ss ih =>
    apply (h.exec s guards).bind
    intro completion m' leads allowed
    cases completion with
    | normal => exact ih leads.guards
    | returned v => exact pure leads.guards allowed

theorem execIn (guards : g.Guards m) {e : Environment} (scope : g.AllowsScope m.store e)
    (body : List (Stmt Place)) :
    g.Keeps m (Run.execIn ev e body) fun completion m' => g.Allows m'.store completion.value :=
  withEnvironment (Q := fun completion s => g.Allows s (Completion.value completion)) guards scope
    fun entered => execAll h entered.guards body

theorem callClosure (guards : g.Guards m) {f : Closure}
    (allowed : g.AllowsScope m.store f.environment) {arguments : List Value}
    (given : ∀ v ∈ arguments, g.Allows m.store v) :
    g.Keeps m (Run.callClosure ev f arguments) fun v m' => g.Allows m'.store v := by
  have bound {name : String} {v : Value}
      (found : (Run.parameters f.declaration.params arguments).get? name = some v) :
      g.Allows m.store v :=
    given v (List.of_mem_zip (Bindings.mem_of_get?_ofList found)).2
  apply (newFrame guards allowed bound).bind
  intro e m₁ leads₁ scope
  apply (execIn h leads₁.guards scope f.declaration.body).bind
  intro completion m₂ leads₂ result
  cases f.isInitializer with
  | false => exact pure leads₂.guards result
  | true => exact getAt leads₂.guards rfl (allowed.mono (leads₁.grows.trans leads₂.grows))

theorem instantiate (guards : g.Guards m) {c : Class} (allowed : g.AllowsClass m.store c)
    {arguments : List Value} (given : ∀ v ∈ arguments, g.Allows m.store v) :
    g.Keeps m (Run.instantiate ev c arguments) fun v m' => g.Allows m'.store v := by
  apply (newInstance guards allowed).bind
  intro i m₁ leads₁ made
  cases found : c.findMethod? initializerName with
  | none => exact pure leads₁.guards made
  | some method =>
    apply (bindMethod leads₁.guards ((allowed.method found).mono leads₁.grows) made).bind
    intro bound m₂ leads₂ scope
    have later := leads₁.grows.trans leads₂.grows
    apply (callClosure h leads₂.guards scope fun v mem => (given v mem).mono later).bind
    intro _ m₃ leads₃ _
    exact pure leads₃.guards (made.mono (leads₂.grows.trans leads₃.grows))

theorem callValue (guards : g.Guards m) {callee : Value} (allowed : g.Allows m.store callee)
    {arguments : List Value} (given : ∀ v ∈ arguments, g.Allows m.store v) (line : Nat) :
    g.Keeps m (Run.callValue ev callee arguments line) fun v m' => g.Allows m'.store v := by
  cases callee with
  | callable c =>
    unfold Run.callValue
    dsimp only
    split
    · cases c with
      | native f => exact callNative guards f
      | function id f => exact callClosure h guards allowed.1 given
      | ofClass c => exact instantiate h guards allowed given
    · exact fault guards _
  | nil | boolean | number | string | ofInstance => exact fault guards (.runtime .notCallable line)

/-! ## Expressions -/

theorem setProperty (guards : g.Guards m) {object : Value} (allowed : g.Allows m.store object)
    (name : Name) (value : Expr Place) :
    g.Keeps m (Run.setProperty ev object name value) fun v m' => g.Allows m'.store v := by
  cases object with
  | ofInstance i =>
    apply (h.eval value guards).bind
    intro v m₁ leads₁ result
    exact giving result
      (setField leads₁.guards (g.inst_mono leads₁.grows allowed.1) name.text result)
  | nil | boolean | number | string | callable =>
    exact fault guards (.runtime .fieldOfOther name.line)

theorem evalWith (guards : g.Guards m) (e : Expr Place) :
    g.Keeps m (Run.evalWith ev e) fun v m' => g.Allows m'.store v := by
  cases e with
  | literal value =>
    apply pure guards
    cases value <;> trivial
  | grouping inner => exact h.eval inner guards
  | unary op line operand =>
    apply (h.eval operand guards).bind
    intro v m' leads _
    exact liftCause leads.guards line fun r result => (UnaryOp.apply_isScalar result).allowed
  | binary op line left right =>
    apply (h.eval left guards).bind
    intro a m₁ leads₁ _
    apply (h.eval right leads₁.guards).bind
    intro b m₂ leads₂ _
    exact liftCause leads₂.guards line fun r result => (BinaryOp.apply_isScalar result).allowed
  | logical op left right =>
    apply (h.eval left guards).bind
    intro a m₁ leads₁ allowed
    apply ite
    · exact pure leads₁.guards allowed
    · exact h.eval right leads₁.guards
  | «variable» target => exact readVariable guards target.mark target.name
  | assign target value =>
    apply (h.eval value guards).bind
    intro v m₁ leads₁ allowed
    exact giving allowed (assignVariable leads₁.guards target.mark target.name allowed)
  | call callee line arguments =>
    apply (h.eval callee guards).bind
    intro f m₁ leads₁ allowed
    apply (evalAll h leads₁.guards arguments).bind
    intro vs m₂ leads₂ given
    exact callValue h leads₂.guards (allowed.mono leads₂.grows) given line
  | get object property =>
    apply (h.eval object guards).bind
    intro v m₁ leads₁ allowed
    exact getProperty leads₁.guards allowed property
  | set object property value =>
    apply (h.eval object guards).bind
    intro v m₁ leads₁ allowed
    exact setProperty h leads₁.guards allowed property value
  | this line mark => exact readVariable guards mark ⟨thisName, line⟩
  | super line mark method => exact superMethod guards mark method

/-! ## Statements -/

theorem eval? (guards : g.Guards m) (value : Option (Expr Place)) :
    g.Keeps m (Run.eval? ev value) fun v m' => g.Allows m'.store v := by
  cases value with
  | none => exact pure guards trivial
  | some e => exact h.eval e guards

theorem loop (n : Nat) (guards : g.Guards m) (condition : Expr Place) (body : Stmt Place) :
    g.Keeps m (Run.loop ev n condition body) fun completion m' =>
      g.Allows m'.store completion.value := by
  induction n generalizing m with
  | zero => exact outOfFuel guards
  | succ n ih =>
    apply (h.eval condition guards).bind
    intro holds m₁ leads₁ _
    apply ite
    · apply (h.exec body leads₁.guards).bind
      intro completion m₂ leads₂ allowed
      cases completion with
      | normal => exact ih leads₂.guards
      | returned v => exact pure leads₂.guards allowed
    · exact pure leads₁.guards trivial

theorem choose (guards : g.Guards m) (condition : Value) (thenBranch : Stmt Place)
    (elseBranch : Option (Stmt Place)) :
    g.Keeps m (Run.choose ev condition thenBranch elseBranch) fun completion m' =>
      g.Allows m'.store completion.value := by
  cases elseBranch with
  | none =>
    apply ite
    · exact h.exec thenBranch guards
    · exact pure guards trivial
  | some other =>
    apply ite
    · exact h.exec thenBranch guards
    · exact h.exec other guards

theorem execWith (n : Nat) (guards : g.Guards m) (s : Stmt Place) :
    g.Keeps m (Run.execWith n ev s) fun completion m' => g.Allows m'.store completion.value := by
  cases s with
  | expression value =>
    apply (h.eval value guards).bind
    intro _ m' leads _
    exact pure leads.guards trivial
  | print value =>
    apply (h.eval value guards).bind
    intro v m₁ leads₁ _
    apply (write leads₁.guards _).bind
    intro _ m₂ leads₂ _
    exact pure leads₂.guards trivial
  | declare name initializer =>
    apply (eval? h guards initializer).bind
    intro v m₁ leads₁ allowed
    apply (define leads₁.guards name.text allowed).bind
    intro _ m₂ leads₂ _
    exact pure leads₂.guards trivial
  | block body =>
    apply (current guards).bind
    intro outer m₁ leads₁ scope
    have opens : g.Keeps m₁ (Run.newFrame outer Bindings.empty) fun e m' => g.AllowsScope m'.store e :=
      newFrame leads₁.guards scope nofun
    apply opens.bind
    intro e m₂ leads₂ scope
    exact execIn h leads₂.guards scope body
  | conditional condition thenBranch elseBranch =>
    apply (h.eval condition guards).bind
    intro v m₁ leads₁ _
    exact choose h leads₁.guards v thenBranch elseBranch
  | loop condition body => exact loop h n guards condition body
  | function declaration =>
    apply (current guards).bind
    intro e m₁ leads₁ scope
    apply (newFunction (f := ⟨declaration, e, false⟩) leads₁.guards scope).bind
    intro v m₂ leads₂ allowed
    apply (define leads₂.guards declaration.name.text allowed).bind
    intro _ m₃ leads₃ _
    exact pure leads₃.guards trivial
  | ret line value =>
    apply (eval? h guards value).bind
    intro v m' leads allowed
    exact pure leads.guards allowed
  | classDecl name superclass methods =>
    apply (declareClass guards name superclass methods).bind
    intro _ m' leads _
    exact pure leads.guards trivial

theorem program (guards : g.Guards m) (ss : List (Stmt Place)) :
    g.Keeps m (Run.program ev ss) fun _ _ => True := by
  induction ss generalizing m with
  | nil => exact pure guards trivial
  | cons s ss ih =>
    apply (h.exec s guards).bind
    intro completion m' leads _
    cases completion with
    | normal => exact ih leads.guards
    | returned v => exact fault leads.guards _

end Guard.Keeps

/-- **Whatever is evaluated stays within its guard**, with any fuel. -/
theorem evaluator_keeps (g : Guard) (n : Nat) : (evaluator n).Keeps g := by
  induction n with
  | zero => exact ⟨fun _ => .outOfFuel, fun _ => .outOfFuel⟩
  | succ n ih =>
    constructor
    · intro m e guards
      exact Guard.Keeps.evalWith ih guards e
    · intro m s guards
      exact Guard.Keeps.execWith ih n guards s

end Lox
