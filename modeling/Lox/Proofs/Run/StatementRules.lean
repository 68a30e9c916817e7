import Lox.Proofs.Run.ExpressionRules

/-!
# Statements keep a watch good

`watcher_keeps` closes the circle: with any fuel, all parts of well-scoped code keep a watch good.
-/

namespace Lox

variable {code : Node → Prop} {changing : FrameId → Prop} {w w' : Watch} {p : Spot}

/-- The moment at which the statement begins is on record. -/
def Watch.Began (w : Watch) (p : Spot) (s : Stmt Place) : Prop :=
  ∃ m, ⟨.execute s, p, m⟩ ∈ w.moments ∧ m.current = w.machine.current

/-- The declaration that has begun is the home of what it declares. -/
theorem Watch.Began.known {s : Stmt Place} {name : String} (began : w.Began p s)
    (declared : (Event.execute s).declared? = some name) (suffix : w.moments <:+ w'.moments)
    (current : w'.machine.current = w.machine.current) :
    Home.Known ⟨p.context.scopes.define name, w'.machine.current⟩ w'.moments := by
  obtain ⟨m, mem, same⟩ := began
  exact .inr ⟨_, suffix.subset mem, name, declared, by rw [current, ← same]⟩

/-- A statement that is no declaration leaves the spot where it is. -/
theorem Stmt.Scoped.after_eq {s : Stmt Place} (h : s.Scoped p.context)
    (noDeclaration : s.isDeclaration = false) : p.after s = p := by
  rw [Spot.after, h.scopesAfter noDeclaration]
  rfl

namespace Keeps

variable {α : Type} {Q : α → Watch → Prop}

/-- The spot fits behind a part that changes no scope. -/
theorem stay {t : Watched α} (h : Keeps code noFrame w t Q) (good : w.Good code)
    (fits : p.Fits w.machine w.moments) :
    Keeps code changing w t fun a w' => p.Fits w'.machine w'.moments ∧ Q a w' :=
  (h.mono fun _ _ reach q => ⟨fits.reaches good reach, q⟩).still

/-! ## Declarations -/

/-- A function that is declared carries the scopes around it, its own name included. -/
theorem declareFunction (good : w.Good code) (fits : p.Fits w.machine w.moments)
    (rooted : ∀ n, code n → n.Scoped .top) {declaration : FunctionDecl Place}
    (stands : Stands code p.context (.statement (.function declaration)))
    (began : w.Began p (.function declaration)) :
    Keeps code w.active w
      (do
        let function ← Watched.newFunction
          (p.atFunction declaration.name.text w.machine.current)
          ⟨declaration, w.machine.current, false⟩
        Watched.plain (Run.define declaration.name.text function)
        return .normal)
      fun c w' => (p.after (.function declaration)).Fits w'.machine w'.moments ∧
        w'.Completes code p c := by
  obtain ⟨name, params, body⟩ := declaration
  obtain ⟨⟨named, namedParams, -⟩, -⟩ := stands.scoped rooted
  let spot := p.atFunction name.text w.machine.current
  let id := w.machine.store.nextObject
  let f : Closure := ⟨⟨name, params, body⟩, w.machine.current, false⟩
  refine bind (Q := fun v w' => v = .callable (.function id f) ∧ w' = w.declared spot) ?_
    fun v w' reach => ?_
  · refine (newObject good spot).bind fun id w' reach => ?_
    rintro ⟨rfl, rfl⟩
    exact pure reach.good ⟨rfl, rfl⟩
  rintro ⟨rfl, rfl⟩
  have declared := Watch.Grows.declared noFrame w spot
  have defined := Watch.Grows.setVariable w.active (w.declared spot) w.machine.current.frame
    name.text (.callable (.function id f)) (.inr rfl)
  -- the scopes of the function mirror those around it only once its name is bound
  have after : (p.within (p.context.scopes.define name.text)).Fits _ _ :=
    (fits.grows good.globals declared rfl fun none => none).define
      (v := .callable (.function id f)) reach.good.globals defined rfl rfl
  have known := began.known rfl (declared.moments.trans defined.moments) rfl
  have hosts : Watch.Hosts code _ spot f :=
    ⟨stands.inside List.mem_cons_self, namedParams, after.mirrors,
      fun init => absurd init (by simp [f]), known, 0, rfl, rfl⟩
  have spotted := (defined.spots id (w.lt_declared spot)).trans (w.declared_spot spot)
  have admits := hosts.admits (Nat.lt_of_lt_of_le (w.lt_declared spot) defined.objects) spotted
  have defines : Keeps code w.active (w.declared spot)
      (Watched.plain (Run.define name.text (.callable (.function id f))))
      fun _ w' => (p.after (.function ⟨name, params, body⟩)).Fits w'.machine w'.moments :=
    plain_ok (a := ()) rfl (.setVariable reach.good (.inr rfl) (.of_variable admits named)) after
  refine defines.bind fun _ w' reach' fits' => ?_
  exact pure reach'.good ⟨fits', trivial⟩

/-- A superclass name stands for a class that is admitted. -/
theorem readSuperclass (good : w.Good code) (rooted : ∀ n, code n → n.Scoped .top) {name : Name}
    {superclass : Option (Reference Place)} {methods : List (FunctionDecl Place)}
    (stands : Stands code p.context (.statement (.classDecl name superclass methods)))
    (fits : (p.within (p.context.scopes.define name.text)).Fits w.machine w.moments) :
    Keeps code changing w
      (Watched.readSuperclass (p.within (p.context.scopes.define name.text)) superclass)
      fun parent w' => parent.isSome = superclass.isSome ∧
        ∀ c ∈ parent, w'.AdmitsClass code c := by
  cases superclass with
  | none => exact pure good ⟨rfl, by simp⟩
  | some r =>
    obtain ⟨⟨named, placed, -⟩, settled⟩ := stands.scoped rooted
    have inner := Context.Settled.define settled named
    refine (note good (.superclass r) ⟨p.context, name, methods, stands, rfl⟩ fits
      rfl).bind fun _ w' reach => ?_
    rintro rfl
    have fits' := fits.mono (List.suffix_cons
      ⟨.superclass r, p.within (p.context.scopes.define name.text), w.machine⟩ w.moments)
    rw [Run.readSuperclass, Watched.plain_bind]
    refine (readVariable reach.good fits' inner.regular (placed r rfl)
      (inner.finished _)).bind fun v w' reach' admits => ?_
    cases v with
    | callable c =>
      cases c with
      | ofClass c => exact pure reach'.good ⟨rfl, fun d mem => by cases mem; exact admits⟩
      | native | function => exact failWith reach'.good _ _
    | nil | boolean | number | string | ofInstance => exact failWith reach'.good _ _

/-- The scopes around the methods of a class are those around the class, with one for the superclass
if there is one. -/
theorem methodEnvironment {ρ : Type} (good : w.Good code) (fits : p.Fits w.machine w.moments)
    {parent : Option Class} (admits : ∀ c ∈ parent, w.AdmitsClass code c)
    {superclass : Option (Reference ρ)} (same : parent.isSome = superclass.isSome) :
    Keeps code noFrame w (Watched.plain (Run.methodEnvironment parent)) fun e w' =>
      ∃ outer : Scopes, p.context.scopes.enterClass superclass = outer.enterWith thisName ∧
        Mirrors w'.machine.store e.path outer ∧
        ∃ k, e.path.drop k = w.machine.current.path ∧ outer.drop k = p.context.scopes := by
  cases parent with
  | none =>
    cases superclass with
    | some r => simp at same
    | none => exact plain_pure good rfl ⟨p.context.scopes, rfl, fits.mirrors, 0, rfl, rfl⟩
  | some c =>
    cases superclass with
    | none => simp at same
    | some r =>
      have holds : ∀ name v,
          (Bindings.empty.insert superName (.callable (.ofClass c))).get? name = some v →
            w.Holds code name v := by
        intro name v found
        obtain ⟨isSuper, rfl⟩ := Bindings.get?_insert_empty.1 found
        exact ⟨admits c rfl, fun isThis => absurd (isSuper.symm.trans isThis) (by decide),
          fun _ => ⟨c, rfl⟩⟩
      rw [Run.methodEnvironment, Watched.plain_bind]
      refine (current good).bind fun e w' _ => ?_
      rintro ⟨rfl, rfl⟩
      refine (newFrame good w'.machine.current holds).mono fun e w₁ reach => ?_
      rintro ⟨rfl, positive, lt, frame⟩
      refine ⟨p.context.scopes.enterWith superName, rfl,
        .inside positive lt (fun name ready => ?_) (fits.mirrors.grows reach.grows), 1, rfl, rfl⟩
      obtain ⟨isSuper, -⟩ := Bindings.get?_insert_empty.1 ready
      rw [frame, Bindings.contains_insert]
      simp [isSuper]

end Keeps

/-- A class is admitted if its own methods and those of its superclass are. -/
theorem Watch.AdmitsClass.made {id : ObjectId} {name : String} {table : Bindings Closure}
    {parent : Option Class} (lt : id < w.machine.store.nextObject)
    (own : ∀ method f, table.get? method = some f → w.HostsMethod code (w.spots id) f)
    (inherited : ∀ c ∈ parent, w.AdmitsClass code c) :
    w.AdmitsClass code (Run.makeClass id name table parent) := by
  intro level mem
  rcases List.mem_cons.1 mem with rfl | mem
  · exact ⟨lt, own⟩
  · cases parent with
    | none => simp [Run.makeClass] at mem
    | some c => exact inherited c rfl level mem

namespace Keeps

/-- The methods of a class that is declared are there with the scopes around them. -/
theorem methods_hosted {name : Name} {superclass : Option (Reference Place)}
    {methods : List (FunctionDecl Place)} (rooted : ∀ n, code n → n.Scoped .top)
    (stands : Stands code p.context (.statement (.classDecl name superclass methods)))
    {e home : Environment} {outer : Scopes}
    (scopes : (p.context.scopes.define name.text).enterClass superclass = outer.enterWith thisName)
    (mirrors : Mirrors w.machine.store e.path outer)
    (activation : ∃ k, e.path.drop k = home.path ∧
      outer.drop k = p.context.scopes.define name.text)
    (known : Home.Known ⟨p.context.scopes.define name.text, home⟩ w.moments)
    {method : String} {f : Closure} (found : (Run.methodTable e methods).get? method = some f) :
    w.HostsMethod code (p.atClass name.text superclass home) f := by
  obtain ⟨d, mem, same⟩ := List.mem_map.1 (Bindings.mem_of_get?_ofList found)
  cases same
  obtain ⟨method, params, body⟩ := d
  obtain ⟨isScoped, -⟩ := stands.scoped rooted
  have standing := FunctionDecl.scopedAll_iff.1 isScoped.2.2 _ mem
  refine ⟨stands.inside ?_, standing.1, known, outer, scopes, mirrors, activation⟩
  exact List.mem_map.2 ⟨_, mem, rfl⟩

/-- A class is admitted that is made in the scopes of its methods. -/
theorem newClass (good : w.Good code) {name : Name} {superclass : Option (Reference Place)}
    {methods : List (FunctionDecl Place)} (rooted : ∀ n, code n → n.Scoped .top)
    (stands : Stands code p.context (.statement (.classDecl name superclass methods)))
    {home : Environment} {outer : Scopes}
    (scopes : (p.context.scopes.define name.text).enterClass superclass = outer.enterWith thisName)
    (mirrors : Mirrors w.machine.store w.machine.current.path outer)
    (activation : ∃ k, w.machine.current.path.drop k = home.path ∧
      outer.drop k = p.context.scopes.define name.text)
    (known : Home.Known ⟨p.context.scopes.define name.text, home⟩ w.moments)
    {parent : Option Class} (admits : ∀ c ∈ parent, w.AdmitsClass code c) :
    Keeps code noFrame w
      (Watched.newClass (p.atClass name.text superclass home) name.text parent methods)
      fun made w' => w'.AdmitsClass code made := by
  apply (current good).bind
  rintro e w - ⟨rfl, rfl⟩
  apply (newObject good (p.atClass name.text superclass home)).bind
  rintro id w' reach ⟨rfl, rfl⟩
  apply pure reach.good
  apply Watch.AdmitsClass.made (w.lt_declared _)
  · intro method f found
    rw [Watch.declared_spot]
    exact methods_hosted rooted stands scopes (mirrors.grows reach.grows) activation known found
  · exact fun c mem => (admits c mem).grows reach.grows

/-- A class that is declared has its methods with the scopes around them. -/
theorem declareClass (good : w.Good code) (fits : p.Fits w.machine w.moments)
    (rooted : ∀ n, code n → n.Scoped .top) {name : Name}
    {superclass : Option (Reference Place)} {methods : List (FunctionDecl Place)}
    (stands : Stands code p.context (.statement (.classDecl name superclass methods)))
    (began : w.Began p (.classDecl name superclass methods)) :
    Keeps code w.active w (Watched.declareClass p name superclass methods) fun _ w' =>
      (p.after (.classDecl name superclass methods)).Fits w'.machine w'.moments := by
  obtain ⟨⟨named, -⟩, -⟩ := stands.scoped rooted
  refine (define (v := .nil) good named trivial).bind fun _ w₁ reach₁ defined => ?_
  have fits₁ := fits.define good.globals reach₁.grows reach₁.current defined
  -- from here on the scopes do not change any more
  refine ((?_ : Keeps code noFrame w₁ _ fun _ _ => True).stay reach₁.good fits₁).mono
    fun _ _ _ h => h.1
  refine (readSuperclass reach₁.good rooted stands fits₁).bind fun parent w₂ reach₂ => ?_
  rintro ⟨same, admits⟩
  have fits₂ := fits₁.reaches reach₁.good reach₂
  refine (current reach₂.good).bind fun home w₂ _ => ?_
  rintro ⟨rfl, rfl⟩
  refine (methodEnvironment reach₂.good fits₂ admits same).bind fun e w₃ reach₃ => ?_
  rintro ⟨outer, scopes, mirrors, activation⟩
  have reach := (reach₁.trans reach₂.still).trans reach₃.still
  have known := began.known rfl reach.grows.moments reach.current
  rw [reach₃.current] at known
  have makes : Keeps code noFrame w₃
      (Watched.withEnvironment e (Watched.newClass
        (p.atClass name.text superclass w₂.machine.current) name.text parent methods))
      fun made w' => w'.AdmitsClass code made := by
    apply withEnvironment reach₃.good e
    · intro entered
      apply newClass entered rooted stands scopes mirrors activation known
      intro c mem
      exact ((admits c mem).grows reach₃.grows).grows (.withCurrent noFrame w₃ e)
    · intro made w' w'' grows admitted
      exact admitted.grows grows
  refine makes.bind fun made w₄ reach₄ admitted => ?_
  refine (current reach₄.good).bind fun active w₄ _ => ?_
  rintro ⟨rfl, rfl⟩
  exact assign reach₄.good _ named admitted

/-! ## Statements -/

variable {t : Watcher} (h : t.Keeps code)
include h

theorem eval? (good : w.Good code) (fits : p.Fits w.machine w.moments)
    {value : Option (Expr Place)}
    (stands : ∀ e ∈ value, Stands code p.context (.expression e)) :
    Keeps code noFrame w (Watched.eval? t p value) fun v w' => w'.Admits code v := by
  cases value with
  | none => exact pure good trivial
  | some e => exact h.eval good fits (stands e rfl)

/-- A branch or the body of a loop leaves the spot where it is. -/
theorem branch (good : w.Good code) (rooted : ∀ n, code n → n.Scoped .top)
    (fits : p.Fits w.machine w.moments) {s : Stmt Place}
    (stands : Stands code p.context (.statement s)) (noDeclaration : s.isDeclaration = false) :
    Keeps code w.active w (t.exec p s) fun c w' =>
      p.Fits w'.machine w'.moments ∧ w'.Completes code p c := by
  have after := (stands.scoped rooted).1.after_eq noDeclaration
  have result := h.exec good fits stands
  rwa [after] at result

theorem loop (rooted : ∀ n, code n → n.Scoped .top) {condition : Expr Place} {body : Stmt Place}
    (standsCondition : Stands code p.context (.expression condition))
    (standsBody : Stands code p.context (.statement body))
    (noDeclaration : body.isDeclaration = false) (n : Nat) (good : w.Good code)
    (fits : p.Fits w.machine w.moments) :
    Keeps code w.active w (Watched.loop t p n condition body) fun c w' =>
      p.Fits w'.machine w'.moments ∧ w'.Completes code p c := by
  induction n generalizing w with
  | zero => exact outOfFuel good
  | succ n ih =>
    refine ((h.eval good fits standsCondition).stay good fits).bind fun holds w₁ reach₁ => ?_
    rintro ⟨fits₁, -⟩
    rw [← reach₁.active_eq]
    refine ite (fun _ => ?_) fun _ => pure reach₁.good ⟨fits₁, trivial⟩
    refine (branch h reach₁.good rooted fits₁ standsBody noDeclaration).bind
      fun completion w₂ reach₂ => ?_
    rintro ⟨fits₂, completes⟩
    cases completion with
    | normal =>
      rw [← reach₂.active_eq]
      exact ih reach₂.good fits₂
    | returned v => exact pure reach₂.good ⟨fits₂, completes⟩

/-- A block opens a scope and leaves those around it alone. -/
theorem block (good : w.Good code) (fits : p.Fits w.machine w.moments) {body : List (Stmt Place)}
    (stands : Stands code p.context (.statement (.block body))) :
    Keeps code noFrame w
      (do
        let e ← Watched.plain (Run.newFrame w.machine.current Bindings.empty)
        Watched.execIn t (p.within p.context.scopes.enter) e body)
      fun c w' => w'.Completes code p c := by
  -- only the scope of the block gets new names
  refine Keeps.widen (fun id => id = w.machine.store.frames.size) ?_
    fun id lt same => absurd same (Nat.ne_of_lt lt)
  refine (newFrame good w.machine.current (by simp)).bind fun e w' reach => ?_
  rintro ⟨rfl, positive, lt, frame⟩
  let inner : Environment := ⟨w.machine.store.frames.size, w.machine.current.path⟩
  have enters := reach.grows.trans (.withCurrent _ w' inner)
  refine withEnvironment (Q := fun c w' => w'.Completes code p c) reach.good _ (fun entered => ?_) ?_
  · exact execAll h entered (fits.block rfl enters positive lt frame)
      (stands.inside List.mem_cons_self)
  · intro c w' w'' grows completes
    cases c with
    | normal => trivial
    | returned v => exact ⟨completes.1.grows grows, completes.2⟩

theorem execWith (rooted : ∀ n, code n → n.Scoped .top) (n : Nat) (good : w.Good code)
    (fits : p.Fits w.machine w.moments) {s : Stmt Place}
    (stands : Stands code p.context (.statement s)) (began : w.Began p s) :
    Keeps code w.active w (Watched.execWith n t p s) fun c w' =>
      (p.after s).Fits w'.machine w'.moments ∧ w'.Completes code p c := by
  obtain ⟨isScoped, settled⟩ := stands.scoped rooted
  cases s with
  | expression value =>
    refine ((h.eval good fits (stands.inside List.mem_cons_self)).stay good fits).bind
      fun v w' reach => ?_
    rintro ⟨fits', -⟩
    exact pure reach.good ⟨fits', trivial⟩
  | print value =>
    refine ((h.eval good fits (stands.inside List.mem_cons_self)).stay good fits).bind
      fun v w₁ reach₁ => ?_
    rintro ⟨fits₁, -⟩
    refine ((write reach₁.good _ fun _ => trivial).stay reach₁.good fits₁ (Q := fun _ _ => True)).bind
      fun _ w₂ reach₂ => ?_
    rintro ⟨fits₂, -⟩
    exact pure reach₂.good ⟨fits₂, trivial⟩
  | declare name initializer =>
    refine ((eval? h good (fits.declare name.text) fun e mem => stands.inside ?_).stay good fits).bind
      fun v w₁ reach₁ => ?_
    · cases mem
      exact List.mem_cons_self
    rintro ⟨fits₁, admits⟩
    rw [← reach₁.active_eq]
    refine (define reach₁.good isScoped.1 admits).bind
      fun _ w₂ reach₂ defined => ?_
    exact pure reach₂.good
      ⟨fits₁.define reach₁.good.globals reach₂.grows reach₂.current defined, trivial⟩
  | block body =>
    refine (current good).bind fun e w' reach => ?_
    rintro ⟨rfl, rfl⟩
    exact (block h good fits stands).stay good fits
  | conditional condition thenBranch elseBranch =>
    have after : p.after (.conditional condition thenBranch elseBranch) = p :=
      isScoped.after_eq rfl
    rw [after]
    refine ((h.eval good fits (stands.inside List.mem_cons_self)).stay good fits).bind
      fun v w' reach => ?_
    rintro ⟨fits', -⟩
    rw [← reach.active_eq]
    have standsThen : Stands code p.context (.statement thenBranch) :=
      stands.inside (List.mem_cons_of_mem _ List.mem_cons_self)
    cases elseBranch with
    | none =>
      refine ite (fun _ => ?_) fun _ => pure reach.good ⟨fits', trivial⟩
      exact branch h reach.good rooted fits' standsThen isScoped.2.1
    | some elseBranch =>
      have standsElse : Stands code p.context (.statement elseBranch) := by
        have standing := stands.inside
          (List.mem_cons_of_mem _ (List.mem_cons_of_mem _ List.mem_cons_self))
        rwa [isScoped.2.1.2.scopesAfter isScoped.2.1.1] at standing
      refine ite (fun _ => ?_) fun _ => ?_
      · exact branch h reach.good rooted fits' standsThen isScoped.2.1.1
      · exact branch h reach.good rooted fits' standsElse isScoped.2.2.1
  | loop condition body =>
    have after : p.after (.loop condition body) = p := isScoped.after_eq rfl
    rw [after]
    exact loop h rooted (stands.inside List.mem_cons_self)
      (stands.inside (List.mem_cons_of_mem _ List.mem_cons_self)) isScoped.2.1 n good fits
  | function declaration =>
    refine (current good).bind fun e w' reach => ?_
    rintro ⟨rfl, rfl⟩
    exact declareFunction good fits rooted stands began
  | ret line value =>
    refine ((eval? h good fits fun e mem => stands.inside ?_).stay good fits).bind
      fun v w' reach => ?_
    · cases mem
      exact List.mem_cons_self
    rintro ⟨fits', admits⟩
    exact pure reach.good ⟨fits', admits, isScoped.1⟩
  | classDecl name superclass methods =>
    refine (declareClass good fits rooted stands began).bind fun _ w' reach fits' => ?_
    exact pure reach.good ⟨fits', trivial⟩

end Keeps

/-- **With any fuel, all parts of well-scoped code keep a watch good.** -/
theorem watcher_keeps (rooted : ∀ n, code n → n.Scoped .top) (n : Nat) :
    (watcher n).Keeps code := by
  induction n with
  | zero => exact ⟨fun good _ _ => .outOfFuel good, fun good _ _ => .outOfFuel good⟩
  | succ n ih =>
    refine ⟨fun {w p e} good fits stands => ?_, fun {w p s} good fits stands => ?_⟩
    · refine (Keeps.note good (.evaluate e) stands fits rfl).bind fun _ w' reach => ?_
      rintro rfl
      exact Keeps.evalWith ih rooted reach.good
        (fits.mono (List.suffix_cons ⟨.evaluate e, p, w.machine⟩ w.moments)) stands
    · refine (Keeps.note good (.execute s) stands fits rfl).bind fun _ w' reach => ?_
      rintro rfl
      exact Keeps.execWith ih rooted n reach.good
        (fits.mono (List.suffix_cons ⟨.execute s, p, w.machine⟩ w.moments)) stands
        ⟨w.machine, List.mem_cons_self, rfl⟩

/-- A program keeps a watch good, and no statement of it returns to the top level. -/
theorem Keeps.program {t : Watcher} (h : t.Keeps code) (good : w.Good code)
    (fits : p.Fits w.machine w.moments) {ss : List (Stmt Place)}
    (stands : Stands code p.context (.statements ss)) (outside : p.context.function = .outside) :
    Keeps code w.active w (Watched.program t p ss) fun _ _ => True := by
  induction ss generalizing w p with
  | nil => exact pure good trivial
  | cons s ss ih =>
    refine (h.exec good fits stands.head).bind fun completion w' reach => ?_
    rintro ⟨fits', completes⟩
    cases completion with
    | normal =>
      have rest := ih (p := p.after s) reach.good fits' stands.tail outside
      rw [reach.active_eq] at rest
      exact rest
    | returned v => exact absurd outside completes.2

end Lox
