import Lox.Store.Variables

/-!
# What code can reach

Code gets from one thing to another in a few ways: from a scope to the one around it and to the values
bound in it, from a function to the scope that it has captured, from a class to its methods and its
superclass, and from an instance to its class and to what its fields hold. `Reaches` is what it can get
to from some things at once, in any number of steps.
-/

namespace Lox

/-- What code can have hold of. -/
inductive Item where
  | scope (e : Environment)
  | function (f : Closure)
  | value (v : Value)

/-- The value is the function with this number, or the class with this number that has the function
among its own methods. -/
inductive Value.Carries : Value → ObjectId → Closure → Prop
  | function {id : ObjectId} {f : Closure} : Carries (.callable (.function id f)) id f
  | method {c : Class} {name : String} {f : Closure} : c.own.methods.get? name = some f →
    Carries (.callable (.ofClass c)) c.own.id f

namespace Store

/-- The second item is got directly from the first. -/
inductive Links (s : Store) : Item → Item → Prop
  | enclosing {e outer : Environment} :
    e.enclosing? = some outer → Links s (.scope e) (.scope outer)
  | bound {e : Environment} {name : String} {v : Value} :
    (s.frame e.frame).get? name = some v → Links s (.scope e) (.value v)
  | captured {f : Closure} : Links s (.function f) (.scope f.environment)
  | function {id : ObjectId} {f : Closure} :
    Links s (.value (.callable (.function id f))) (.function f)
  | method {c : Class} {name : String} {f : Closure} : c.own.methods.get? name = some f →
    Links s (.value (.callable (.ofClass c))) (.function f)
  | superclass {own next : ClassLevel} {rest : List ClassLevel} :
    Links s (.value (.callable (.ofClass ⟨own, next :: rest⟩)))
      (.value (.callable (.ofClass ⟨next, rest⟩)))
  | ofClass {i : Instance} :
    Links s (.value (.ofInstance i)) (.value (.callable (.ofClass i.ofClass)))
  | field {i : Instance} {name : String} {v : Value} :
    (s.fieldsOf i.id).get? name = some v → Links s (.value (.ofInstance i)) (.value v)

/-- The item is one of the roots, or got from them in some steps. -/
inductive Reaches (s : Store) (roots : Item → Prop) : Item → Prop
  | root {x : Item} : roots x → Reaches s roots x
  | step {x y : Item} : Reaches s roots x → s.Links x y → Reaches s roots y

/-- The scope with this number is reached. -/
def ReachesScope (s : Store) (roots : Item → Prop) (id : FrameId) : Prop :=
  ∃ e, s.Reaches roots (.scope e) ∧ e.frame = id

/-- The instance with this number is reached. -/
def ReachesInstance (s : Store) (roots : Item → Prop) (id : InstanceId) : Prop :=
  ∃ i, s.Reaches roots (.value (.ofInstance i)) ∧ i.id = id

variable {s : Store} {roots : Item → Prop}

/-- What holds of the roots and is handed on from item to item holds of all that is reached. -/
theorem Reaches.invariant {P : Item → Prop} {x : Item} (h : s.Reaches roots x)
    (base : ∀ x, roots x → P x) (step : ∀ x y, P x → s.Links x y → P y) : P x := by
  induction h with
  | root isRoot => exact base _ isRoot
  | step _ link ih => exact step _ _ ih link

/-- With a scope all scopes around it are reached. -/
theorem Reaches.path {e : Environment} (h : s.Reaches roots (.scope e)) :
    ∀ id ∈ e.path, s.ReachesScope roots id := by
  obtain ⟨frame, outer⟩ := e
  induction outer generalizing frame with
  | nil =>
    intro id mem
    rw [List.mem_singleton.1 mem]
    exact ⟨_, h, rfl⟩
  | cons next outer ih =>
    intro id mem
    rcases List.mem_cons.1 mem with rfl | mem
    · exact ⟨_, h, rfl⟩
    · exact ih next (h.step (.enclosing rfl)) id mem

/-- With a class all its superclasses are reached. -/
theorem Reaches.lineage {c : Class} (h : s.Reaches roots (.value (.callable (.ofClass c)))) :
    ∀ level ∈ c.lineage, ∃ rest, s.Reaches roots (.value (.callable (.ofClass ⟨level, rest⟩))) := by
  obtain ⟨own, inherited⟩ := c
  induction inherited generalizing own with
  | nil =>
    intro level mem
    rw [List.mem_singleton.1 mem]
    exact ⟨_, h⟩
  | cons next rest ih =>
    intro level mem
    rcases List.mem_cons.1 mem with rfl | mem
    · exact ⟨_, h⟩
    · exact ih next (h.step .superclass) level mem

/-- A scope that is reached is one of the roots or captured by a function that is reached, or it lies
around such a scope. -/
theorem Reaches.of_scope {e : Environment} (h : s.Reaches roots (.scope e)) :
    (∃ inner, roots (.scope inner) ∧ e.path <:+ inner.path) ∨
      ∃ f, s.Reaches roots (.function f) ∧ e.path <:+ f.environment.path := by
  generalize same : Item.scope e = x at h
  induction h generalizing e with
  | root isRoot =>
    subst same
    exact .inl ⟨e, isRoot, List.suffix_refl _⟩
  | @step x y reached link ih =>
    cases link with
    | @enclosing inner outer around =>
      cases same
      have outside : e.path <:+ inner.path := by
        obtain ⟨frame, path⟩ := inner
        cases path with
        | nil => cases around
        | cons next path =>
          cases around
          exact List.suffix_cons _ _
      rcases ih rfl with ⟨root, isRoot, suffix⟩ | ⟨f, captured, suffix⟩
      · exact .inl ⟨root, isRoot, outside.trans suffix⟩
      · exact .inr ⟨f, captured, outside.trans suffix⟩
    | captured =>
      cases same
      exact .inr ⟨_, reached, List.suffix_refl _⟩
    | bound | function | method | superclass | ofClass | field => cases same

/-- A function that is reached is carried by a value that is. -/
theorem Reaches.of_function {f : Closure} (h : s.Reaches roots (.function f))
    (none : ¬ roots (.function f)) :
    ∃ v n, s.Reaches roots (.value v) ∧ v.Carries n f := by
  cases h with
  | root isRoot => exact absurd isRoot none
  | step reached link =>
    cases link with
    | function => exact ⟨_, _, reached, .function⟩
    | method found => exact ⟨_, _, reached, .method found⟩

end Store

end Lox
