import Lox.Proofs.Run.Rules

/-!
# Expressions keep a watch good
-/

namespace Lox

variable {code : Node → Prop} {changing : FrameId → Prop} {w w' : Watch} {p : Spot}

/-! ## Operators -/

/-- The value is no object: it gives access to no function. -/
def Value.IsScalar : Value → Prop
  | .nil | .boolean _ | .number _ | .string _ => True
  | .callable _ | .ofInstance _ => False

theorem BinaryOp.onNumbers_isScalar (op : BinaryOp) (a b : Float) : (op.onNumbers a b).IsScalar := by
  cases op <;> trivial

theorem BinaryOp.apply_isScalar {op : BinaryOp} {left right v : Value}
    (h : op.apply left right = .ok v) : v.IsScalar := by
  unfold BinaryOp.apply at h
  split at h
  · unfold addValues at h
    split at h <;> cases h
    · trivial
    · trivial
  · unfold BinaryOp.onValues at h
    split at h <;> cases h
    exact op.onNumbers_isScalar _ _

theorem UnaryOp.apply_isScalar {op : UnaryOp} {operand v : Value} (h : op.apply operand = .ok v) :
    v.IsScalar := by
  unfold UnaryOp.apply at h
  split at h <;> cases h <;> trivial

theorem Value.IsScalar.admits {v : Value} (h : v.IsScalar) : w.Admits code v := by
  cases v with
  | nil | boolean | number | string => trivial
  | callable | ofInstance => exact h.elim

namespace Keeps

theorem liftCause (good : w.Good code) (line : Nat) {result : Except RuntimeCause Value}
    (admits : ∀ v, result = .ok v → w.Admits code v) :
    Keeps code changing w (Watched.plain (Run.liftCause line result))
      fun v w' => w'.Admits code v := by
  cases result with
  | ok v => exact plain_pure good rfl (admits v rfl)
  | error cause => exact failWith good cause line

/-! ## Variables -/

/-- The variable of a reference has a value that is admitted. -/
theorem readVariable (good : w.Good code) (fits : p.Fits w.machine w.moments)
    (regular : p.context.Regular) {place : Place} {name : Name}
    (placed : place = p.context.scopes.place name.text)
    (finished : p.context.scopes.isUnfinished name.text = false) :
    Keeps code changing w (Watched.plain (Run.readVariable place name))
      fun v w' => w'.Admits code v := by
  cases place with
  | global => exact readGlobal good name
  | scope hops =>
    obtain ⟨id, found, bound⟩ := fits.mirrors.resolved regular placed.symm finished
    exact (readAt good rfl found bound).mono fun _ _ _ holds => holds.admits

/-- An assignment to a variable that is not unfinished finds it. -/
theorem assignVariable (good : w.Good code) (fits : p.Fits w.machine w.moments)
    (regular : p.context.Regular) {place : Place} {name : Name} {v : Value}
    (placed : place = p.context.scopes.place name.text)
    (finished : p.context.scopes.isUnfinished name.text = false)
    (named : IsVariable name.text) (admits : w.Admits code v) :
    Keeps code changing w (Watched.plain (Run.assignVariable place name v)) fun _ _ => True := by
  cases place with
  | global => exact assign good _ named admits
  | scope hops =>
    obtain ⟨id, found, bound⟩ := fits.mirrors.resolved regular placed.symm finished
    have assigned := Store.assignAt_of_contains found bound v
    refine plain_ok (a := ()) ?_ (.setAdmitted good (.inl bound) named admits) trivial
    simp only [Run.assignVariable, Run.assignAt, assigned]

end Keeps

/-- The scope that is active does not bind a variable whose initializer has not ended. -/
theorem Spot.Fits.unbound {m : Machine} {earlier : List Moment} (fits : p.Fits m earlier)
    {name : String} (unfinished : p.context.scopes.isUnfinished name = true) :
    (m.store.frame m.current.frame).contains name = false := by
  refine Bool.eq_false_iff.2 fun bound => ?_
  cases hs : p.context.scopes with
  | nil => simp [Scopes.isUnfinished, hs] at unfinished
  | cons scope rest =>
    have ready := fits.exact scope (by simp [hs]) name bound
    simp [Scopes.isUnfinished, hs, ready] at unfinished

namespace Keeps

/-- The target of an assignment gets the value, unless its own initializer has not ended. -/
theorem store (good : w.Good code) (fits : p.Fits w.machine w.moments)
    {target : Reference Place} {value : Expr Place}
    (stands : Stands code p.context (.expression (.assign target value)))
    (rooted : ∀ n, code n → n.Scoped .top) {v : Value} (admits : w.Admits code v) :
    Keeps code changing w
      (do
        Watched.note p (.store target)
        Watched.plain (Run.assignVariable target.mark target.name v)
        return v)
      fun v w' => w'.Admits code v := by
  obtain ⟨⟨placed, named, -⟩, regular⟩ := stands.scoped rooted
  cases unfinished : p.context.scopes.isUnfinished target.name.text with
  | false =>
    refine (note good (.store target) ⟨value, stands⟩ fits unfinished).bind fun _ w' reach => ?_
    rintro rfl
    have fits' := fits.mono (List.suffix_cons ⟨.store target, p, w.machine⟩ w.moments)
    refine (assignVariable reach.good fits' regular placed unfinished named
      (admits.grows reach.grows)).bind fun _ w'' reach' _ => ?_
    exact pure reach'.good ((admits.grows reach.grows).grows reach'.grows)
  | true =>
    -- the assignment fails, and the moment just recorded is the early store
    have mark : target.mark = .scope 0 := placed.trans (Scopes.place_unfinished unfinished)
    have missing := Store.assignAt_of_not_contains
      (show w.machine.current.path[0]? = some w.machine.current.frame from rfl)
      (fits.unbound unfinished) v
    have result : Run.assignVariable target.mark target.name v w.machine =
        .error (.fault (.mismatch (.missingVariable target.name.text 0))) w.machine := by
      simp only [mark, Run.assignVariable, Run.assignAt, missing]
    simp only [Keeps, Bind.bind, EStateM.bind, Watched.note, Watched.plain, result]
    refine ⟨.note good (.store target) ⟨value, stands⟩ fits,
      ⟨.store target, p, w.machine⟩, target, rfl, ?_, rfl⟩
    simp [Watch.earlyStores, Moment.isEarlyStore, unfinished]

/-! ## Properties -/

theorem propertyOf (good : w.Good code) {i : Instance} (admits : w.Admits code (.ofInstance i))
    (name : Name) :
    Keeps code changing w (Watched.propertyOf i name) fun v w' => w'.Admits code v := by
  have field : Keeps code changing w
      (Watched.plain (Run.read fun m => .ok ((m.store.fieldsOf i.id).get? name.text)))
      fun value w' => w' = w ∧ ∀ v, value = some v → w.Admits code v :=
    plain_pure good rfl ⟨rfl, fun v found => good.fields i.id name.text v found⟩
  refine field.bind fun value w' reach => ?_
  rintro ⟨rfl, field⟩
  cases value with
  | some v => exact pure good (field v rfl)
  | none => exact methodOf good admits admits name

theorem getProperty (good : w.Good code) {object : Value} (admits : w.Admits code object)
    (name : Name) :
    Keeps code changing w (Watched.getProperty object name) fun v w' => w'.Admits code v := by
  unfold Watched.getProperty
  cases object with
  | ofInstance i => exact propertyOf good admits name
  | nil | boolean | number | string | callable => exact failWith good _ _

end Keeps

/-- In the methods of a subclass, the scope of the superclass lies directly outside of the one of the
instance. -/
theorem Spot.Fits.superclass {m : Machine} {earlier : List Moment} (fits : p.Fits m earlier)
    (regular : p.context.Regular) (derived : p.context.classContext = .derived) :
    ∃ inner own outer, p.context.scopes.place superName = .scope (inner + 1) ∧
      m.current.path[inner + 1]? = some outer ∧
      (m.store.frame outer).contains superName = true ∧
      m.current.path[inner]? = some own ∧
      (m.store.frame own).contains thisName = true := by
  obtain ⟨scope, mem, bound⟩ := regular.superBound derived
  obtain ⟨hops, place⟩ := Scopes.place_of_mem mem bound
  obtain ⟨outerScope, found, holdsSuper, -⟩ := Scopes.place_scope place
  cases hops with
  | zero =>
    have without := regular.innermost outerScope (by rwa [List.head?_eq_getElem?])
    rw [without] at holdsSuper
    cases holdsSuper
  | succ inner =>
    have ltOuter := (List.getElem?_eq_some_iff.1 found).1
    obtain ⟨ownScope, foundOwn⟩ : ∃ ownScope, p.context.scopes[inner]? = some ownScope :=
      ⟨_, List.getElem?_eq_getElem (by omega)⟩
    have holdsThis := regular.superOutside inner ownScope outerScope foundOwn found holdsSuper
    have isSuper : ¬ IsVariable superName := fun named => named.2 rfl
    have isThis : ¬ IsVariable thisName := fun named => named.1 rfl
    have superReady := regular.ready_at found holdsSuper (regular.special_finished isSuper)
    have thisReady := regular.ready_at foundOwn holdsThis (regular.special_finished isThis)
    obtain ⟨outer, atOuter, bindsOuter⟩ := fits.mirrors.at_position found
    obtain ⟨own, atOwn, bindsOwn⟩ := fits.mirrors.at_position foundOwn
    exact ⟨inner, own, outer, place, atOuter, bindsOuter _ superReady, atOwn,
      bindsOwn _ thisReady⟩

namespace Keeps

/-- A `super` expression finds a class and an instance. -/
theorem superMethod (good : w.Good code) (fits : p.Fits w.machine w.moments)
    (regular : p.context.Regular) (derived : p.context.classContext = .derived) {place : Place}
    (placed : place = p.context.scopes.place superName) (method : Name) :
    Keeps code changing w (Watched.superMethod place method) fun v w' => w'.Admits code v := by
  obtain ⟨inner, own, outer, eq, atOuter, holdsSuper, atOwn, holdsThis⟩ :=
    fits.superclass regular derived
  obtain ⟨superValue, readSuper, hereSuper⟩ := Store.getAt_of_contains atOuter holdsSuper
  obtain ⟨thisValue, readThis, hereThis⟩ := Store.getAt_of_contains atOwn holdsThis
  have superHolds := good.values _ _ _ hereSuper
  have thisHolds := good.values _ _ _ hereThis
  obtain ⟨c, rfl⟩ := superHolds.super rfl
  obtain ⟨i, rfl⟩ := thisHolds.this rfl
  have result : Run.superAt (inner + 1) w.machine = .ok (c, i) w.machine := by
    simp only [Run.superAt, Bind.bind, EStateM.bind, Run.read, readSuper, readThis]
    rfl
  rw [placed, eq]
  refine (plain_pure (Q := fun found w' => w' = w ∧ found = (c, i)) good result
    ⟨rfl, rfl⟩).bind fun found w' reach => ?_
  rintro ⟨rfl, rfl⟩
  exact methodOf good superHolds.admits thisHolds.admits method

/-! ## Expressions -/

variable {t : Watcher} (h : t.Keeps code)
include h

theorem setProperty (good : w.Good code) (fits : p.Fits w.machine w.moments) {object : Value}
    (name : Name) {value : Expr Place} (stands : Stands code p.context (.expression value)) :
    Keeps code noFrame w (Watched.setProperty t p object name value)
      fun v w' => w'.Admits code v := by
  unfold Watched.setProperty
  cases object with
  | ofInstance i =>
    refine (h.eval good fits stands).bind fun v w' reach admits => ?_
    refine (setField reach.good i name.text admits).bind fun _ w'' reach' _ => ?_
    exact pure reach'.good (admits.grows reach'.grows)
  | nil | boolean | number | string | callable => exact failWith good _ _

theorem evalWith (rooted : ∀ n, code n → n.Scoped .top) (good : w.Good code)
    (fits : p.Fits w.machine w.moments) {e : Expr Place}
    (stands : Stands code p.context (.expression e)) :
    Keeps code noFrame w (Watched.evalWith t p e) fun v w' => w'.Admits code v := by
  obtain ⟨isScoped, regular⟩ := stands.scoped rooted
  cases e with
  | literal value => exact pure good (by cases value <;> trivial)
  | grouping inner => exact h.eval good fits (stands.operand inner List.mem_cons_self)
  | unary op line operand =>
    refine (h.eval good fits (stands.operand operand List.mem_cons_self)).bind
      fun v w' reach _ => ?_
    exact liftCause reach.good line fun r result => (UnaryOp.apply_isScalar result).admits
  | binary op line left right =>
    refine (h.eval good fits (stands.operand left (by simp [Expr.operands]))).bind
      fun a w' reach _ => ?_
    refine (h.eval reach.good (fits.reaches good reach)
      (stands.operand right (by simp [Expr.operands]))).bind fun b w'' reach' _ => ?_
    exact liftCause reach'.good line fun r result => (BinaryOp.apply_isScalar result).admits
  | logical op left right =>
    refine (h.eval good fits (stands.operand left (by simp [Expr.operands]))).bind
      fun a w' reach admits => ?_
    split
    · exact pure reach.good admits
    · exact h.eval reach.good (fits.reaches good reach)
        (stands.operand right (by simp [Expr.operands]))
  | «variable» target => exact readVariable good fits regular isScoped.1 isScoped.2
  | assign target value =>
    refine (h.eval good fits (stands.operand value List.mem_cons_self)).bind
      fun v w' reach admits => ?_
    exact store reach.good (fits.reaches good reach) stands rooted admits
  | call callee line arguments =>
    refine (h.eval good fits (stands.operand callee (by simp [Expr.operands]))).bind
      fun f w' reach admitsCallee => ?_
    refine (evalAll h reach.good (fits.reaches good reach)
      fun e mem => stands.operand e (by simp [Expr.operands, mem])).bind fun vs w'' reach' all => ?_
    exact callValue h reach'.good (admitsCallee.grows reach'.grows) all line
  | get object property =>
    refine (h.eval good fits (stands.operand object List.mem_cons_self)).bind
      fun v w' reach admits => ?_
    exact getProperty reach.good admits property
  | set object property value =>
    refine (h.eval good fits (stands.operand object (by simp [Expr.operands]))).bind
      fun v w' reach _ => ?_
    exact setProperty h reach.good (fits.reaches good reach) property
      (stands.operand value (by simp [Expr.operands]))
  | this line mark =>
    have finished : p.context.scopes.isUnfinished thisName = false :=
      regular.special_finished fun named => named.1 rfl
    exact readVariable good fits regular isScoped.1 finished
  | super line mark method => exact superMethod good fits regular isScoped.2 isScoped.1 method

end Keeps

end Lox
