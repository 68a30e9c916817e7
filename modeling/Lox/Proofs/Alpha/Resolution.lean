import Lox.Proofs.Alpha.Equivalence
import Lox.Proofs.Scope.Places
import Lox.Proofs.Scope.Unmarked

/-!
# Resolution does not depend on the names of variables

If the scopes around two pieces of alpha-equivalent code differ as the code does, references that
are renamed still find their variables at the same places (`Scopes.Alpha.place_eq`). So what may
stand in the one may stand in the other (`Stmt.Alpha.scoped`), and nothing is misplaced there
(`Stmt.Alpha.violations_eq`).
-/

namespace Lox

open Renaming (nameMap declared identity)

/-- The renamings keep names apart: they give the same name only to the same one. -/
structure Renaming.Apart (p : Renaming → Prop) (allowed : String → Prop) : Prop where
  identity : p identity
  this : allowed thisName
  super : allowed superName
  apart : ∀ r r' : Renaming, p r → p r' → ∀ a b, allowed a → allowed b → r.perm a = r'.perm b → a = b

/-- The scopes differ only in the names of variables: each one as its renaming says. -/
inductive Scopes.Alpha (p : Renaming → Prop) (allowed : String → Prop) :
    List Renaming → Scopes → Scopes → Prop
  | nil {rs : List Renaming} : (∀ r ∈ rs, r = identity) → Scopes.Alpha p allowed rs [] []
  | cons {r : Renaming} {rs : List Renaming} {scope scope' : Bindings Bool}
    {scopes scopes' : Scopes} :
    p r → (∀ name, scope'.get? (r.perm name) = scope.get? name) →
    (∀ name, scope.contains name = true → allowed name) → Scopes.Alpha p allowed rs scopes scopes' →
    Scopes.Alpha p allowed (r :: rs) (scope :: scopes) (scope' :: scopes')

/-- The contexts differ only in the names of variables. -/
structure Context.Alpha (p : Renaming → Prop) (allowed : String → Prop) (rs : List Renaming)
    (c c' : Context) : Prop where
  function : c'.function = c.function
  classContext : c'.classContext = c.classContext
  scopes : Scopes.Alpha p allowed rs c.scopes c'.scopes

variable {p : Renaming → Prop} {allowed : String → Prop} {rs : List Renaming}

namespace Renaming

theorem perm_isVariable (r : Renaming) {name : String} (named : IsVariable name) :
    IsVariable (r.perm name) := by
  constructor
  · intro same
    exact named.1 (r.perm.injective (same.trans r.this.symm))
  · intro same
    exact named.2 (r.perm.injective (same.trans r.super.symm))

theorem nameMap_isVariable (rs : List Renaming) (place : Place) {name : String}
    (named : IsVariable name) : IsVariable (nameMap rs place name) := by
  cases place with
  | global => exact named
  | scope hops => exact (rs.getD hops identity).perm_isVariable named

/-- Inside of one more scope, what is found further out has the name that it has there. -/
theorem nameMap_outward (r : Renaming) (rs : List Renaming) (place : Place) (name : String) :
    nameMap (r :: rs) place.outward name = nameMap rs place name := by
  cases place <;> rfl

end Renaming

/-! ## Scopes -/

namespace Scopes.Alpha

variable {scopes scopes' : Scopes}

theorem isAllowed (h : Scopes.Alpha p allowed rs scopes scopes') (apart : Renaming.Apart p allowed)
    (hops : Nat) : p (rs.getD hops identity) := by
  induction h generalizing hops with
  | @nil rs same =>
    rw [List.getD_eq_getElem?_getD]
    cases found : rs[hops]? with
    | none => exact apart.identity
    | some r =>
      rw [same r (List.mem_of_getElem? found)]
      exact apart.identity
  | cons isAllowed _ _ _ ih =>
    cases hops with
    | zero => exact isAllowed
    | succ hops => exact ih hops

theorem nameMap_apart (h : Scopes.Alpha p allowed rs scopes scopes')
    (apart : Renaming.Apart p allowed) {r : Renaming} (isAllowed : p r) {place : Place}
    {a b : String} (ha : allowed a) (hb : allowed b) (same : r.perm a = nameMap rs place b) :
    a = b := by
  cases place with
  | global => exact apart.apart r identity isAllowed apart.identity a b ha hb same
  | scope hops => exact apart.apart r _ isAllowed (h.isAllowed apart hops) a b ha hb same

/-- A scope that does not declare a name does not declare what it is called further out. -/
theorem not_contains (h : Scopes.Alpha p allowed rs scopes scopes')
    (apart : Renaming.Apart p allowed) {r : Renaming} (isAllowed : p r)
    {scope scope' : Bindings Bool} (same : ∀ name, scope'.get? (r.perm name) = scope.get? name)
    (names : ∀ name, scope.contains name = true → allowed name) {name : String}
    (ha : allowed name) (unbound : scope.contains name = false) (place : Place) :
    scope'.contains (nameMap rs place name) = false := by
  apply Bool.eq_false_iff.2
  intro bound
  let other := r.perm.symm (nameMap rs place name)
  have back : r.perm other = nameMap rs place name := r.perm.apply_symm_apply _
  have here : scope.contains other = true := by
    rw [Bindings.contains, ← same other, back]
    exact bound
  have isName : other = name := h.nameMap_apart apart isAllowed (names other here) ha back
  rw [isName, unbound] at here
  cases here

/-- **A renamed reference finds its variable at the same place.** -/
theorem place_eq (h : Scopes.Alpha p allowed rs scopes scopes') (apart : Renaming.Apart p allowed)
    {name : String} (ha : allowed name) :
    scopes'.place (nameMap rs (scopes.place name) name) = scopes.place name := by
  induction h with
  | nil => rfl
  | @cons r rs scope scope' scopes scopes' isAllowed same names rest ih =>
    by_cases bound : scope.contains name = true
    · have there : scope'.contains (nameMap (r :: rs) (.scope 0) name) = true := by
        rw [Bindings.contains] at bound ⊢
        rw [← bound, ← same]
        rfl
      rw [Scopes.place_cons_of_contains bound, Scopes.place_cons_of_contains there]
    · have unbound : scope.contains name = false := Bool.eq_false_iff.2 bound
      have missing := rest.not_contains apart isAllowed same names ha unbound (scopes.place name)
      rw [Scopes.place_cons_of_not_contains unbound, Renaming.nameMap_outward,
        Scopes.place_cons_of_not_contains missing, ih]

theorem isUnfinished_eq (h : Scopes.Alpha p allowed rs scopes scopes')
    (apart : Renaming.Apart p allowed) {name : String} (ha : allowed name) :
    scopes'.isUnfinished (nameMap rs (scopes.place name) name) = scopes.isUnfinished name := by
  cases h with
  | nil => rfl
  | @cons r rs scope scope' scopes scopes' isAllowed same names rest =>
    by_cases bound : scope.contains name = true
    · rw [Scopes.place_cons_of_contains bound]
      simp only [Scopes.isUnfinished]
      rw [show scope'.get? (nameMap (r :: rs) (.scope 0) name) = scope.get? name from same name]
    · have unbound : scope.contains name = false := Bool.eq_false_iff.2 bound
      have missing := rest.not_contains apart isAllowed same names ha unbound (scopes.place name)
      rw [Scopes.place_cons_of_not_contains unbound, Renaming.nameMap_outward]
      have none {scope : Bindings Bool} {name : String} (h : scope.contains name = false) :
          scope.get? name = .none := Option.not_isSome_iff_eq_none.1 (Bool.eq_false_iff.1 h)
      simp only [Scopes.isUnfinished]
      rw [none missing, none unbound]

theorem isDeclared_eq (h : Scopes.Alpha p allowed rs scopes scopes') (name : String) :
    scopes'.isDeclared (declared rs name) = scopes.isDeclared name := by
  cases h with
  | nil => rfl
  | cons isAllowed same names rest => exact congrArg Option.isSome (same name)

/-- A name is declared or defined on both sides. -/
theorem insert {r : Renaming} {scope scope' : Bindings Bool} (isAllowed : p r)
    (same : ∀ name, scope'.get? (r.perm name) = scope.get? name)
    (names : ∀ name, scope.contains name = true → allowed name)
    (rest : Scopes.Alpha p allowed rs scopes scopes') {name : String} (ha : allowed name)
    (ready : Bool) :
    Scopes.Alpha p allowed (r :: rs) (scope.insert name ready :: scopes)
      (scope'.insert (r.perm name) ready :: scopes') := by
  apply Scopes.Alpha.cons isAllowed _ _ rest
  · intro other
    rw [Bindings.get?_insert, Bindings.get?_insert, same]
    simp only [r.perm.injective.eq_iff]
  · intro other bound
    rw [Bindings.contains_insert, Bool.or_eq_true, decide_eq_true_iff] at bound
    rcases bound with rfl | bound
    · exact ha
    · exact names other bound

theorem define (h : Scopes.Alpha p allowed rs scopes scopes') {name : String} (ha : allowed name) :
    Scopes.Alpha p allowed rs (scopes.define name) (scopes'.define (declared rs name)) := by
  cases h with
  | nil same => exact .nil same
  | cons isAllowed same names rest => exact .insert isAllowed same names rest ha true

theorem declare (h : Scopes.Alpha p allowed rs scopes scopes') {name : String} (ha : allowed name) :
    Scopes.Alpha p allowed rs (scopes.declare name) (scopes'.declare (declared rs name)) := by
  have equal := h.isDeclared_eq name
  cases h with
  | nil same => exact .nil same
  | @cons r rs scope scope' scopes scopes' isAllowed same names rest =>
    have equal : scope'.contains (declared (r :: rs) name) = scope.contains name := equal
    simp only [Scopes.declare]
    rw [equal]
    split
    · exact .cons isAllowed same names rest
    · exact .insert isAllowed same names rest ha false

/-- Both sides open a scope. -/
theorem enter (h : Scopes.Alpha p allowed rs scopes scopes') {r : Renaming} (isAllowed : p r) :
    Scopes.Alpha p allowed (r :: rs) scopes.enter scopes'.enter :=
  .cons isAllowed (fun _ => rfl) (fun _ bound => by cases bound) h

/-- The scopes of two functions whose parameters are renamed. -/
theorem enterFunction (h : Scopes.Alpha p allowed rs scopes scopes') {r : Renaming}
    (isAllowed : p r) {params : List Name} (names : ∀ x ∈ params, allowed x.text) :
    Scopes.Alpha p allowed (r :: rs) (scopes.enterFunction params)
      (scopes'.enterFunction (params.map r.param)) := by
  have fold : ∀ (params : List Name) (inner inner' : Scopes), (∀ x ∈ params, allowed x.text) →
      Scopes.Alpha p allowed (r :: rs) inner inner' →
      Scopes.Alpha p allowed (r :: rs) (params.foldl (fun s x => s.define x.text) inner)
        ((params.map r.param).foldl (fun s x => s.define x.text) inner') := by
    intro params
    induction params with
    | nil => exact fun _ _ _ h => h
    | cons x params ih =>
      intro inner inner' names h
      apply ih
      · exact fun y mem => names y (List.mem_cons_of_mem _ mem)
      · exact h.define (names x List.mem_cons_self)
  exact fold params _ _ names (h.enter isAllowed)

/-- The scopes around the methods of two classes. -/
theorem enterClass (h : Scopes.Alpha p allowed rs scopes scopes') (apart : Renaming.Apart p allowed)
    {superclass superclass' : Option (Reference Place)}
    (same : superclass'.isSome = superclass.isSome) :
    Scopes.Alpha p allowed (Renaming.enterClass rs superclass) (scopes.enterClass superclass)
      (scopes'.enterClass superclass') := by
  have enterWith {rs : List Renaming} {scopes scopes' : Scopes} {name : String}
      (h : Scopes.Alpha p allowed rs scopes scopes') (ha : allowed name) :
      Scopes.Alpha p allowed (identity :: rs) (scopes.enterWith name) (scopes'.enterWith name) :=
    (h.enter apart.identity).define ha
  cases superclass with
  | none =>
    cases superclass' with
    | none => exact enterWith h apart.this
    | some r' => cases same
  | some r =>
    cases superclass' with
    | none => cases same
    | some r' => exact enterWith (enterWith h apart.super) apart.this

end Scopes.Alpha

/-! ## Expressions -/

namespace Context.Alpha

variable {c c' : Context}

theorem within (h : Context.Alpha p allowed rs c c') {rs' : List Renaming} {scopes scopes' : Scopes}
    (inner : Scopes.Alpha p allowed rs' scopes scopes') :
    Context.Alpha p allowed rs' (c.within scopes) (c'.within scopes') :=
  ⟨h.function, h.classContext, inner⟩

end Context.Alpha

variable {c c' : Context}

theorem Reference.placed_mapName (h : Scopes.Alpha p allowed rs c.scopes c'.scopes)
    (apart : Renaming.Apart p allowed) {r : Reference Place} (ha : allowed r.name.text)
    (placed : r.Placed c.scopes) : (r.mapName (nameMap rs)).Placed c'.scopes := by
  have same := h.place_eq apart ha
  rw [← show r.mark = c.scopes.place r.name.text from placed] at same
  exact same.symm

mutual

/-- An expression may stand where it stood before it was renamed. -/
theorem Expr.Scoped.mapNames (h : Context.Alpha p allowed rs c c')
    (apart : Renaming.Apart p allowed) :
    ∀ {e : Expr Place}, e.Shaped allowed → e.Scoped c → (e.mapNames (nameMap rs)).Scoped c'
  | .literal _, _, _ => trivial
  | .grouping e, shaped, sc | .unary _ _ e, shaped, sc =>
    Expr.Scoped.mapNames h apart (e := e) shaped sc
  | .get e _, shaped, sc => Expr.Scoped.mapNames h apart (e := e) shaped.1 sc
  | .binary .., shaped, sc | .logical .., shaped, sc =>
    ⟨Expr.Scoped.mapNames h apart shaped.1 sc.1, Expr.Scoped.mapNames h apart shaped.2 sc.2⟩
  | .variable target, shaped, sc => by
    refine ⟨Reference.placed_mapName h.scopes apart shaped sc.1, ?_⟩
    have same := h.scopes.isUnfinished_eq apart shaped
    rw [← show target.mark = c.scopes.place target.name.text from sc.1] at same
    exact same.trans sc.2
  | .assign target value, shaped, sc =>
    ⟨Reference.placed_mapName h.scopes apart shaped.1 sc.1,
      Renaming.nameMap_isVariable rs target.mark sc.2.1,
      Expr.Scoped.mapNames h apart shaped.2 sc.2.2⟩
  | .call .., shaped, sc =>
    ⟨Expr.Scoped.mapNames h apart shaped.1 sc.1, Expr.ScopedAll.mapNames h apart shaped.2 sc.2⟩
  | .set .., shaped, sc =>
    ⟨Expr.Scoped.mapNames h apart shaped.1 sc.1, Expr.Scoped.mapNames h apart shaped.2.2 sc.2⟩
  | .this _ mark, _, sc => by
    have same := h.scopes.place_eq apart apart.this
    rw [Renaming.nameMap_this] at same
    refine ⟨sc.1.trans same.symm, ?_⟩
    rw [h.classContext]
    exact sc.2
  | .super _ mark _, _, sc => by
    have same := h.scopes.place_eq apart apart.super
    rw [Renaming.nameMap_super] at same
    refine ⟨sc.1.trans same.symm, ?_⟩
    rw [h.classContext]
    exact sc.2

theorem Expr.ScopedAll.mapNames (h : Context.Alpha p allowed rs c c')
    (apart : Renaming.Apart p allowed) :
    ∀ {es : List (Expr Place)}, Expr.ShapedAll allowed es → Expr.ScopedAll c es →
      Expr.ScopedAll c' (Expr.mapNamesAll (nameMap rs) es)
  | [], _, _ => trivial
  | _ :: _, shaped, sc =>
    ⟨Expr.Scoped.mapNames h apart shaped.1 sc.1, Expr.ScopedAll.mapNames h apart shaped.2 sc.2⟩

end

theorem Expr.Scoped?.mapNames (h : Context.Alpha p allowed rs c c')
    (apart : Renaming.Apart p allowed) {e? : Option (Expr Place)}
    (shaped : Expr.Shaped? allowed e?) (sc : Expr.Scoped? c e?) :
    Expr.Scoped? c' (e?.map (·.mapNames (nameMap rs))) := by
  cases e? with
  | none => trivial
  | some e => exact Expr.Scoped.mapNames h apart shaped sc

/-! ## Statements -/

theorem Stmt.Alpha.isDeclaration_eq {s s' : Stmt Place} (alpha : s.Alpha p rs s') :
    s'.isDeclaration = s.isDeclaration := by
  cases alpha <;> rfl

/-- The scopes behind two statements. -/
theorem Stmt.Alpha.scopesAfter : ∀ {rs : List Renaming} {s s' : Stmt Place}, s.Alpha p rs s' →
    s.Shaped allowed → ∀ {scopes scopes' : Scopes}, Scopes.Alpha p allowed rs scopes scopes' →
      Scopes.Alpha p allowed rs (s.scopesAfter scopes) (s'.scopesAfter scopes')
  | _, _, _, .expression, _, _, _, h | _, _, _, .print, _, _, _, h
  | _, _, _, .block _ _ _, _, _, _, h | _, _, _, .ret, _, _, _, h => h
  | _, _, _, .declare, shaped, _, _, h => h.define shaped.1
  | _, _, _, .function same (.mk _ _ _), shaped, _, _, h => by
    have defined := h.define shaped.1
    rw [same] at defined
    exact defined
  | _, _, _, .classDecl same _, shaped, _, _, h => by
    have defined := h.define shaped.1
    rw [same] at defined
    exact defined
  | _, _, _, .ifThen thenBranch, shaped, _, _, h => thenBranch.scopesAfter shaped.2.2 h
  | _, _, _, .ifElse thenBranch elseBranch, shaped, _, _, h =>
    elseBranch.scopesAfter shaped.2.2.2 (thenBranch.scopesAfter shaped.2.1.2 h)
  | _, _, _, .loop body, shaped, _, _, h => body.scopesAfter shaped.2.2 h

theorem Renaming.param_isVariable (r : Renaming) {params : List Name}
    (named : ∀ x ∈ params, IsVariable x.text) : ∀ x ∈ params.map r.param, IsVariable x.text := by
  intro x mem
  obtain ⟨y, isParam, rfl⟩ := List.mem_map.1 mem
  exact r.perm_isVariable (named y isParam)

namespace Context.Alpha

variable {params : List Name} {r : Renaming}

theorem inFunction (h : Context.Alpha p allowed rs c c') (isAllowed : p r)
    (names : ∀ x ∈ params, allowed x.text) :
    Context.Alpha p allowed (r :: rs) (c.inFunction params) (c'.inFunction (params.map r.param)) :=
  ⟨rfl, h.classContext, h.scopes.enterFunction isAllowed names⟩

theorem inMethod (h : Context.Alpha p allowed rs c c') (isAllowed : p r) (name : Name)
    (names : ∀ x ∈ params, allowed x.text) :
    Context.Alpha p allowed (r :: rs) (c.inMethod name params)
      (c'.inMethod name (params.map r.param)) :=
  ⟨rfl, h.classContext, h.scopes.enterFunction isAllowed names⟩

theorem inClass (h : Context.Alpha p allowed rs c c') (apart : Renaming.Apart p allowed)
    {superclass superclass' : Option (Reference Place)}
    (same : superclass'.isSome = superclass.isSome) :
    Context.Alpha p allowed (Renaming.enterClass rs superclass) (c.inClass superclass)
      (c'.inClass superclass') := by
  refine ⟨h.function, ?_, h.scopes.enterClass apart same⟩
  simp only [Context.inClass, same]

end Context.Alpha

mutual

/-- **A statement may stand where it stood before it was renamed.** -/
theorem Stmt.Alpha.scoped (apart : Renaming.Apart p allowed) :
    ∀ {rs : List Renaming} {s s' : Stmt Place}, s.Alpha p rs s' → ∀ {c c' : Context},
      Context.Alpha p allowed rs c c' → s.Shaped allowed → s.Scoped c → s'.Scoped c'
  | _, _, _, .expression, _, _, h, shaped, sc | _, _, _, .print, _, _, h, shaped, sc =>
    Expr.Scoped.mapNames h apart shaped sc
  | rs, _, _, .declare, _, _, h, shaped, sc =>
    ⟨Renaming.nameMap_isVariable rs (.scope 0) sc.1,
      Expr.Scoped?.mapNames (h.within (h.scopes.declare shaped.1)) apart shaped.2 sc.2⟩
  | _, _, _, .block r isAllowed body, _, _, h, shaped, sc =>
    body.scoped apart (h.within (h.scopes.enter isAllowed)) shaped sc
  | _, _, _, .ifThen thenBranch, _, _, h, shaped, sc =>
    ⟨Expr.Scoped.mapNames h apart shaped.1 sc.1, thenBranch.isDeclaration_eq.trans sc.2.1,
      thenBranch.scoped apart h shaped.2.2 sc.2.2⟩
  | _, _, _, .ifElse thenBranch elseBranch, _, _, h, shaped, sc =>
    ⟨Expr.Scoped.mapNames h apart shaped.1 sc.1,
      ⟨thenBranch.isDeclaration_eq.trans sc.2.1.1, thenBranch.scoped apart h shaped.2.1.2 sc.2.1.2⟩,
      elseBranch.isDeclaration_eq.trans sc.2.2.1, elseBranch.scoped apart h shaped.2.2.2 sc.2.2.2⟩
  | _, _, _, .loop body, _, _, h, shaped, sc =>
    ⟨Expr.Scoped.mapNames h apart shaped.1 sc.1, body.isDeclaration_eq.trans sc.2.1,
      body.scoped apart h shaped.2.2 sc.2.2⟩
  | _, _, _, .function same (.mk r isAllowed body), _, _, h, shaped, sc => by
    have defined := h.scopes.define shaped.1
    rw [same] at defined
    exact ⟨sc.1, r.param_isVariable sc.2.1,
      body.scoped apart ((h.within defined).inFunction isAllowed shaped.2.1) shaped.2.2 sc.2.2⟩
  | rs, .ret _ value, _, .ret, _, _, h, shaped, sc => by
    obtain ⟨inside, given, isScoped⟩ := sc
    have same : (value.map (·.mapNames (nameMap rs))).isSome = value.isSome := Option.isSome_map
    refine ⟨?_, ?_, Expr.Scoped?.mapNames h apart shaped isScoped⟩
    · rw [h.function]
      exact inside
    · rw [same, h.function]
      exact given
  | rs, .classDecl _ superclass _, _, .classDecl same methods, _, _, h, shaped, sc => by
    have defined := h.scopes.define shaped.1
    rw [same] at defined
    have isSome : (superclass.map (·.mapName (nameMap rs))).isSome = superclass.isSome :=
      Option.isSome_map
    have inside := (h.within defined).inClass apart isSome
    refine ⟨sc.1, ?_, methods.scoped apart inside shaped.2.2 sc.2.2⟩
    intro r' mem
    obtain ⟨r, isSuper, rfl⟩ := Option.map_eq_some_iff.1 mem
    exact Reference.placed_mapName (h.within defined).scopes apart (shaped.2.1 r isSuper)
      (sc.2.1 r isSuper)

theorem Stmt.AlphaAll.scoped (apart : Renaming.Apart p allowed) :
    ∀ {rs : List Renaming} {ss ss' : List (Stmt Place)}, Stmt.AlphaAll p rs ss ss' →
      ∀ {c c' : Context}, Context.Alpha p allowed rs c c' → Stmt.ShapedAll allowed ss →
        Stmt.ScopedAll c ss → Stmt.ScopedAll c' ss'
  | _, _, _, .nil, _, _, _, _, _ => trivial
  | _, _, _, .cons head tail, _, _, h, shaped, sc =>
    ⟨head.scoped apart h shaped.1 sc.1,
      tail.scoped apart (h.within (head.scopesAfter shaped.1 h.scopes)) shaped.2 sc.2⟩

theorem FunctionDecl.AlphaAll.scoped (apart : Renaming.Apart p allowed) :
    ∀ {rs : List Renaming} {ds ds' : List (FunctionDecl Place)}, FunctionDecl.AlphaAll p rs ds ds' →
      ∀ {c c' : Context}, Context.Alpha p allowed rs c c' → FunctionDecl.ShapedAll allowed ds →
        FunctionDecl.ScopedAll c ds → FunctionDecl.ScopedAll c' ds'
  | _, _, _, .nil, _, _, _, _, _ => trivial
  | _, _, _, .cons (.mk r isAllowed body) tail, _, _, h, shaped, sc =>
    ⟨⟨r.param_isVariable sc.1.1,
        body.scoped apart (h.inMethod isAllowed _ shaped.1.2.1) shaped.1.2.2 sc.1.2⟩,
      tail.scoped apart h shaped.2 sc.2⟩

end

/-! ## Violations -/

mutual

theorem Expr.Scoped.violations_eq {c : Context} :
    ∀ {e : Expr Place}, e.Scoped c → e.violations c = []
  | .literal _, _ => rfl
  | .grouping e, sc | .unary _ _ e, sc | .get e _, sc => Expr.Scoped.violations_eq (e := e) sc
  | .binary .., sc | .logical .., sc =>
    List.append_eq_nil_iff.2 ⟨Expr.Scoped.violations_eq sc.1, Expr.Scoped.violations_eq sc.2⟩
  | .variable _, sc => violationIf_eq_nil.2 sc.2
  | .assign _ value, sc => Expr.Scoped.violations_eq (e := value) sc.2.2
  | .call .., sc =>
    List.append_eq_nil_iff.2 ⟨Expr.Scoped.violations_eq sc.1, Expr.ScopedAll.violations_eq sc.2⟩
  | .set .., sc =>
    List.append_eq_nil_iff.2 ⟨Expr.Scoped.violations_eq sc.2, Expr.Scoped.violations_eq sc.1⟩
  | .this _ _, sc => by
    apply violationIf_eq_nil.2
    simpa using sc.2
  | .super _ _ _, sc => by
    simp only [Expr.violations]
    rw [sc.2]

theorem Expr.ScopedAll.violations_eq {c : Context} :
    ∀ {es : List (Expr Place)}, Expr.ScopedAll c es → Expr.violationsAll c es = []
  | [], _ => rfl
  | _ :: _, sc =>
    List.append_eq_nil_iff.2 ⟨Expr.Scoped.violations_eq sc.1, Expr.ScopedAll.violations_eq sc.2⟩

end

theorem Expr.Scoped?.violations_eq {c : Context} {e? : Option (Expr Place)}
    (sc : Expr.Scoped? c e?) : Expr.violations? c e? = [] := by
  cases e? with
  | none => rfl
  | some e => exact Expr.Scoped.violations_eq sc

theorem Scopes.Alpha.redeclaration_eq {scopes scopes' : Scopes}
    (h : Scopes.Alpha p allowed rs scopes scopes') {name : Name}
    (ok : redeclaration scopes name = []) :
    redeclaration scopes' ⟨declared rs name.text, name.line⟩ = [] := by
  apply violationIf_eq_nil.2
  exact (h.isDeclared_eq name.text).trans (violationIf_eq_nil.1 ok)

theorem Scopes.Alpha.paramViolations_eq {r : Renaming} {params : List Name} {scopes scopes' : Scopes}
    (h : Scopes.Alpha p allowed (r :: rs) scopes scopes') (names : ∀ x ∈ params, allowed x.text)
    (ok : paramViolations scopes params = []) :
    paramViolations scopes' (params.map r.param) = [] := by
  induction params generalizing scopes scopes' with
  | nil => rfl
  | cons x params ih =>
    obtain ⟨okHead, okTail⟩ := List.append_eq_nil_iff.1 ok
    have defined := h.define (names x List.mem_cons_self)
    exact List.append_eq_nil_iff.2 ⟨h.redeclaration_eq okHead,
      ih defined (fun y mem => names y (List.mem_cons_of_mem _ mem)) okTail⟩

/-- A class that does not inherit from itself does not do so under other names. -/
theorem Scopes.Alpha.selfInheritance_eq (apart : Renaming.Apart p allowed)
    {scopes scopes' : Scopes} (h : Scopes.Alpha p allowed rs scopes scopes') {name : Name}
    (ha : allowed name.text) (same : declared rs name.text = name.text)
    {superclass : Option (Reference Place)} (names : ∀ r ∈ superclass, allowed r.name.text)
    (ok : selfInheritance name superclass = []) :
    selfInheritance name (superclass.map (·.mapName (nameMap rs))) = [] := by
  cases superclass with
  | none => rfl
  | some r =>
    have ne : r.name.text ≠ name.text := by simpa using violationIf_eq_nil.1 ok
    apply violationIf_eq_nil.2
    apply beq_eq_false_iff_ne.2
    intro equal
    have equal : nameMap rs r.mark r.name.text = name.text := equal
    rw [← same] at equal
    exact ne (h.nameMap_apart apart (h.isAllowed apart 0) ha (names r rfl) equal.symm).symm

mutual

/-- **Nothing is misplaced in a statement that is renamed.** -/
theorem Stmt.Alpha.violations_eq (apart : Renaming.Apart p allowed) :
    ∀ {rs : List Renaming} {s s' : Stmt Place}, s.Alpha p rs s' → ∀ {c c' : Context},
      Context.Alpha p allowed rs c c' → s.Shaped allowed → s'.Scoped c' → s.violations c = [] →
        s'.violations c' = []
  | _, _, _, .expression, _, _, _, _, sc, _ | _, _, _, .print, _, _, _, _, sc, _ =>
    Expr.Scoped.violations_eq sc
  | _, _, _, .declare, _, _, h, _, sc, ok =>
    List.append_eq_nil_iff.2 ⟨h.scopes.redeclaration_eq (List.append_eq_nil_iff.1 ok).1,
      Expr.Scoped?.violations_eq sc.2⟩
  | _, _, _, .block _ isAllowed body, _, _, h, shaped, sc, ok =>
    body.violations_eq apart (h.within (h.scopes.enter isAllowed)) shaped sc ok
  | _, _, _, .ifThen thenBranch, _, _, h, shaped, sc, ok =>
    List.append_eq_nil_iff.2 ⟨Expr.Scoped.violations_eq sc.1,
      thenBranch.violations_eq apart h shaped.2.2 sc.2.2 (List.append_eq_nil_iff.1 ok).2⟩
  | _, _, _, .ifElse thenBranch elseBranch, c, c', h, shaped, sc, ok => by
    obtain ⟨okBefore, okElse⟩ := List.append_eq_nil_iff.1 ok
    have behind := h.within (thenBranch.scopesAfter shaped.2.1.2 h.scopes)
    have same : Stmt.scopesAfter c'.scopes _ = c'.scopes := sc.2.1.2.scopesAfter sc.2.1.1
    have standsElse := sc.2.2.2
    rw [← c'.within_self, ← same] at standsElse
    refine List.append_eq_nil_iff.2
      ⟨List.append_eq_nil_iff.2 ⟨Expr.Scoped.violations_eq sc.1, ?_⟩, ?_⟩
    · exact thenBranch.violations_eq apart h shaped.2.1.2 sc.2.1.2
        (List.append_eq_nil_iff.1 okBefore).2
    · exact elseBranch.violations_eq apart behind shaped.2.2.2 standsElse okElse
  | _, _, _, .loop body, _, _, h, shaped, sc, ok =>
    List.append_eq_nil_iff.2 ⟨Expr.Scoped.violations_eq sc.1,
      body.violations_eq apart h shaped.2.2 sc.2.2 (List.append_eq_nil_iff.1 ok).2⟩
  | _, _, _, .function same (.mk r isAllowed body), _, _, h, shaped, sc, ok => by
    obtain ⟨okBefore, okBody⟩ := List.append_eq_nil_iff.1 ok
    obtain ⟨okName, okParams⟩ := List.append_eq_nil_iff.1 okBefore
    have defined := h.scopes.define shaped.1
    have redeclared := h.scopes.redeclaration_eq okName
    rw [same] at defined redeclared
    refine List.append_eq_nil_iff.2 ⟨List.append_eq_nil_iff.2 ⟨redeclared, ?_⟩, ?_⟩
    · exact (defined.enter isAllowed).paramViolations_eq shaped.2.1 okParams
    · exact body.violations_eq apart ((h.within defined).inFunction isAllowed shaped.2.1) shaped.2.2
        sc.2.2 okBody
  | rs, .ret _ value, _, .ret, _, c', _, _, sc, _ => by
    obtain ⟨inside, given, isScoped⟩ := sc
    refine List.append_eq_nil_iff.2 ⟨List.append_eq_nil_iff.2 ⟨?_, ?_⟩, ?_⟩
    · apply violationIf_eq_nil.2
      simpa using inside
    · apply violationIf_eq_nil.2
      cases value with
      | none => rfl
      | some e => simpa using given rfl
    · exact Expr.Scoped?.violations_eq isScoped
  | rs, .classDecl _ superclass _, _, .classDecl same methods, _, _, h, shaped, sc, ok => by
    obtain ⟨okBefore, okMethods⟩ := List.append_eq_nil_iff.1 ok
    obtain ⟨okName, okSuper⟩ := List.append_eq_nil_iff.1 okBefore
    have defined := h.scopes.define shaped.1
    have redeclared := h.scopes.redeclaration_eq okName
    rw [same] at defined redeclared
    have isSome : (superclass.map (·.mapName (nameMap rs))).isSome = superclass.isSome :=
      Option.isSome_map
    refine List.append_eq_nil_iff.2 ⟨List.append_eq_nil_iff.2 ⟨redeclared, ?_⟩, ?_⟩
    · exact h.scopes.selfInheritance_eq apart shaped.1 same shaped.2.1 okSuper
    · exact methods.violations_eq apart ((h.within defined).inClass apart isSome) shaped.2.2 sc.2.2
        okMethods

theorem Stmt.AlphaAll.violations_eq (apart : Renaming.Apart p allowed) :
    ∀ {rs : List Renaming} {ss ss' : List (Stmt Place)}, Stmt.AlphaAll p rs ss ss' →
      ∀ {c c' : Context}, Context.Alpha p allowed rs c c' → Stmt.ShapedAll allowed ss →
        Stmt.ScopedAll c' ss' → Stmt.violationsAll c ss = [] → Stmt.violationsAll c' ss' = []
  | _, _, _, .nil, _, _, _, _, _, _ => rfl
  | _, _, _, .cons head tail, _, _, h, shaped, sc, ok => by
    obtain ⟨okHead, okTail⟩ := List.append_eq_nil_iff.1 ok
    have behind := h.within (head.scopesAfter shaped.1 h.scopes)
    exact List.append_eq_nil_iff.2 ⟨head.violations_eq apart h shaped.1 sc.1 okHead,
      tail.violations_eq apart behind shaped.2 sc.2 okTail⟩

theorem FunctionDecl.AlphaAll.violations_eq (apart : Renaming.Apart p allowed) :
    ∀ {rs : List Renaming} {ds ds' : List (FunctionDecl Place)}, FunctionDecl.AlphaAll p rs ds ds' →
      ∀ {c c' : Context}, Context.Alpha p allowed rs c c' → FunctionDecl.ShapedAll allowed ds →
        FunctionDecl.ScopedAll c' ds' → FunctionDecl.violationsAll c ds = [] →
          FunctionDecl.violationsAll c' ds' = []
  | _, _, _, .nil, _, _, _, _, _, _ => rfl
  | _, _, _, .cons (.mk r isAllowed body) tail, _, _, h, shaped, sc, ok => by
    obtain ⟨okHead, okTail⟩ := List.append_eq_nil_iff.1 ok
    obtain ⟨okParams, okBody⟩ := List.append_eq_nil_iff.1 okHead
    refine List.append_eq_nil_iff.2 ⟨List.append_eq_nil_iff.2 ⟨?_, ?_⟩, ?_⟩
    · exact (h.scopes.enter isAllowed).paramViolations_eq shaped.1.2.1 okParams
    · exact body.violations_eq apart (h.inMethod isAllowed _ shaped.1.2.1) shaped.1.2.2 sc.1.2 okBody
    · exact tail.violations_eq apart h shaped.2 sc.2 okTail

end

end Lox
