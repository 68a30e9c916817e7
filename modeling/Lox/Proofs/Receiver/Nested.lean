import Lox.Proofs.Run.Watched
import Lox.Proofs.Scope.Places
import Lox.Proofs.Scope.Standing
import Lox.Proofs.Store.Sorts

/-!
# Scopes of methods

A method that is bound has its instance in a scope of its own, and the superclass of its class in
the scope around that. `Nested` says that a chain of scopes is that of a part of the program: of the
blocks, functions and methods around the part, each has its scope in the chain, and for a method
there are these two scopes besides. So it says which instance and which superclass a part of a
method has (`Receiver`): those of the innermost method around it.
-/

namespace Lox

/-! ## Receivers -/

/-- What `this` and `super` stand for in a method. -/
structure Receiver where
  /-- The instance that the method is bound to. -/
  self : Instance
  /-- The superclass of the class that declares the method. -/
  superclass : Option Class

/-- A class has been declared with the scopes `path` active. Its superclass name stood for this class
then, and the next scope that was opened is `outer`. -/
def Denoted (earlier : List Moment) (r : Reference Place) (path : List FrameId) (outer : FrameId)
    (superclass : Class) : Prop :=
  ∃ m ∈ earlier, m.event = .superclass r ∧ m.machine.current.path = path ∧
    m.machine.store.frames.size = outer ∧
      Run.readSuperclass (some r) m.machine = .ok (some superclass) m.machine

/-- The scopes around the methods of a class that has been declared with the scopes `path` active. -/
inductive ClassScopes (s : Store) (earlier : List Moment) (path : List FrameId) :
    Option (Reference Place) → Option Class → List FrameId → Prop
  | base : ClassScopes s earlier path none none path
  | derived {r : Reference Place} {outer : FrameId} {superclass : Class} :
    Denoted earlier r path outer superclass → s.HoldsSuper outer superclass →
    ClassScopes s earlier path (some r) (some superclass) (outer :: path)

/-- The parts of the part stand in a scope of their own. -/
def Node.opensScope : Node → Bool
  | .statement (.block _) | .statement (.function _) | .statement (.classDecl ..) => true
  | _ => false

/-- The scopes `path` are those of the part of the code, and this is the receiver of the innermost
method around it. The innermost scope of a method is that of its call; the next one, `own`, is made
when the method is bound to its instance. -/
inductive Nested (code : Node → Prop) (s : Store) (earlier : List Moment) :
    Option Receiver → List FrameId → Context → Node → Prop
  | root {n : Node} : code n → Nested code s earlier none Environment.globals.path .top n
  | part {o : Option Receiver} {path : List FrameId} {c inner : Context} {n part : Node} :
    Nested code s earlier o path c n → n.opensScope = false → (inner, part) ∈ n.parts c →
    Nested code s earlier o path inner part
  | block {o : Option Receiver} {path : List FrameId} {c : Context} {body : List (Stmt Place)}
    (id : FrameId) :
    Nested code s earlier o path c (.statement (.block body)) →
    Nested code s earlier o (id :: path) (c.within c.scopes.enter) (.statements body)
  | function {o : Option Receiver} {path : List FrameId} {c : Context} {name : Name}
    {params : List Name} {body : List (Stmt Place)} (id : FrameId) :
    Nested code s earlier o path c (.statement (.function ⟨name, params, body⟩)) →
    Nested code s earlier o (id :: path)
      ((c.within (c.scopes.define name.text)).inFunction params) (.statements body)
  | method {o : Option Receiver} {path inner : List FrameId} {c : Context} {name : Name}
    {superclass : Option (Reference Place)} {methods : List (FunctionDecl Place)}
    {d : FunctionDecl Place} {parent : Option Class} {own : FrameId} {i : Instance} (id : FrameId) :
    Nested code s earlier o path c (.statement (.classDecl name superclass methods)) →
    d ∈ methods → ClassScopes s earlier path superclass parent inner → s.HoldsThis own i →
    Nested code s earlier (some ⟨i, parent⟩) (id :: own :: inner)
      (((c.within (c.scopes.define name.text)).inClass superclass).inMethod d.name d.params)
      (.statements d.body)

section

variable {code : Node → Prop} {s s' : Store} {earlier later : List Moment} {o : Option Receiver}
variable {path inner : List FrameId} {c : Context} {n : Node}

theorem Denoted.mono {r : Reference Place} {outer : FrameId} {superclass : Class}
    (h : Denoted earlier r path outer superclass) (suffix : earlier <:+ later) :
    Denoted later r path outer superclass := by
  obtain ⟨m, mem, rest⟩ := h
  exact ⟨m, suffix.subset mem, rest⟩

theorem ClassScopes.mono {r? : Option (Reference Place)} {parent : Option Class}
    (h : ClassScopes s earlier path r? parent inner) (settles : s.Settles s')
    (suffix : earlier <:+ later) : ClassScopes s' later path r? parent inner := by
  cases h with
  | base => exact .base
  | derived denoted holds => exact .derived (denoted.mono suffix) (settles.super _ _ holds)

/-- What a part is nested in stays what it is. -/
theorem Nested.mono (h : Nested code s earlier o path c n) (settles : s.Settles s')
    (suffix : earlier <:+ later) : Nested code s' later o path c n := by
  induction h with
  | root isCode => exact .root isCode
  | part _ opens mem ih => exact .part ih opens mem
  | block id _ ih => exact .block id ih
  | function id _ ih => exact .function id ih
  | method id _ mem scopes holds ih =>
    exact .method id ih mem (scopes.mono settles suffix) (settles.this _ _ holds)

/-- What is nested in scopes of a run stands in the program. -/
theorem Nested.stands (h : Nested code s earlier o path c n) : Stands code c n := by
  induction h with
  | root isCode => exact .root isCode
  | part _ _ mem ih => exact ih.part mem
  | block _ _ ih => exact ih.part List.mem_cons_self
  | function _ _ ih => exact ih.part List.mem_cons_self
  | @method _ _ _ _ _ _ _ d _ _ _ _ _ mem _ _ ih =>
    exact ih.part (List.mem_map.2 ⟨d, mem, rfl⟩)

end

/-! ## Where `this` and `super` are found -/

theorem ne_of_isVariable {name other : String} (named : IsVariable name)
    (reserved : ¬ IsVariable other) : other ≠ name := by
  rintro rfl
  exact reserved named

/-- No statement declares `this` or `super`. -/
theorem Stmt.Scoped.place_after {c : Context} {other : String} (reserved : ¬ IsVariable other) :
    ∀ {s : Stmt Place}, s.Scoped c → (s.scopesAfter c.scopes).place other = c.scopes.place other
  | .declare _ _, sc => Scopes.place_define (ne_of_isVariable sc.1 reserved)
  | .function ⟨_, _, _⟩, sc => Scopes.place_define (ne_of_isVariable sc.1 reserved)
  | .classDecl _ _ _, sc => Scopes.place_define (ne_of_isVariable sc.1 reserved)
  | .expression _, _ | .print _, _ | .block _, _ | .ret _ _, _ => rfl
  | .conditional _ _ none, sc => by rw [sc.scopesAfter rfl]
  | .conditional _ _ (some _), sc => by rw [sc.scopesAfter rfl]
  | .loop _ _, sc => by rw [sc.scopesAfter rfl]

/-- In a part that opens no scope, `this` and `super` are found where they are found around it. -/
theorem Node.parts_place {c inner : Context} {n part : Node} (sc : n.Scoped c)
    (opens : n.opensScope = false) (mem : (inner, part) ∈ n.parts c) :
    inner.classContext = c.classContext ∧
      ∀ other, ¬ IsVariable other → inner.scopes.place other = c.scopes.place other := by
  have same : ∀ context : Context, context = c → context.classContext = c.classContext ∧
      ∀ other, ¬ IsVariable other → context.scopes.place other = c.scopes.place other := by
    rintro _ rfl
    exact ⟨rfl, fun _ _ => rfl⟩
  cases n with
  | expression e =>
    obtain ⟨operand, -, eq⟩ := List.mem_map.1 mem
    cases eq
    exact same c rfl
  | statements ss =>
    cases ss with
    | nil => cases mem
    | cons s ss =>
      rcases List.mem_pair.1 mem with eq | eq
      · cases eq
        exact same c rfl
      · cases eq
        exact ⟨rfl, fun other reserved => sc.1.place_after reserved⟩
  | statement s =>
    cases s with
    | expression value | print value =>
      cases List.mem_singleton.1 mem
      exact same c rfl
    | declare name initializer =>
      obtain ⟨e, -, eq⟩ := List.mem_map.1 mem
      cases eq
      exact ⟨rfl, fun other reserved => Scopes.place_declare (ne_of_isVariable sc.1 reserved)⟩
    | conditional condition thenBranch elseBranch =>
      rcases List.mem_cons.1 mem with eq | mem
      · cases eq
        exact same c rfl
      rcases List.mem_cons.1 mem with eq | mem
      · cases eq
        exact same c rfl
      obtain ⟨e, isElse, eq⟩ := List.mem_map.1 mem
      cases eq
      cases elseBranch with
      | none => cases isElse
      | some other => exact ⟨rfl, fun other reserved => sc.2.1.2.place_after reserved⟩
    | loop condition body =>
      rcases List.mem_pair.1 mem with eq | eq
      · cases eq
        exact same c rfl
      · cases eq
        exact same c rfl
    | ret line value =>
      obtain ⟨e, -, eq⟩ := List.mem_map.1 mem
      cases eq
      exact same c rfl
    | block | function | classDecl => cases opens

/-- The instance and the superclass of the receiver are found in the scopes of the chain. -/
def Receiver.At (s : Store) (path : List FrameId) (c : Context) (r : Receiver) : Prop :=
  ∃ k own, c.scopes.place thisName = .scope k ∧ path[k]? = some own ∧ s.HoldsThis own r.self ∧
    match r.superclass with
    | none => c.classContext = .base
    | some superclass => c.classContext = .derived ∧ c.scopes.place superName = .scope (k + 1) ∧
      ∃ outer, path[k + 1]? = some outer ∧ s.HoldsSuper outer superclass

namespace Receiver

variable {s : Store} {path : List FrameId} {c inner : Context} {r : Receiver}

/-- Where `this` and `super` are found in the same places, the receiver is the same. -/
theorem At.congr (h : r.At s path c) (same : inner.classContext = c.classContext)
    (places : ∀ other, ¬ IsVariable other → inner.scopes.place other = c.scopes.place other) :
    r.At s path inner := by
  obtain ⟨k, own, place, here, holds, rest⟩ := h
  refine ⟨k, own, ?_, here, holds, ?_⟩
  · rw [places _ fun named => named.1 rfl]
    exact place
  · rw [same, places _ fun named => named.2 rfl]
    exact rest

/-- Inside of one more scope without `this` and `super`, the receiver is the same. -/
theorem At.inside (h : r.At s path c) {scope : Bindings Bool} {scopes : Scopes} (id : FrameId)
    (enters : inner.scopes = scope :: scopes) (same : inner.classContext = c.classContext)
    (places : ∀ other, ¬ IsVariable other → scopes.place other = c.scopes.place other)
    (unbound : ∀ other, ¬ IsVariable other → scope.contains other = false) :
    r.At s (id :: path) inner := by
  have isThis : ¬ IsVariable thisName := fun named => named.1 rfl
  have isSuper : ¬ IsVariable superName := fun named => named.2 rfl
  obtain ⟨k, own, place, here, holds, rest⟩ := h
  refine ⟨k + 1, own, ?_, here, holds, ?_⟩
  · rw [enters]
    rw [Scopes.place_cons_of_not_contains (unbound _ isThis), places _ isThis, place]
    rfl
  · rw [same]
    cases superclass : r.superclass with
    | none =>
      rw [superclass] at rest
      exact rest
    | some c' =>
      rw [superclass] at rest
      obtain ⟨derived, place', outer, here', holds'⟩ := rest
      refine ⟨derived, ?_, outer, here', holds'⟩
      rw [enters, Scopes.place_cons_of_not_contains (unbound _ isSuper), places _ isSuper, place']
      rfl

end Receiver

theorem contains_paramScope {params : List Name} (named : ∀ p ∈ params, IsVariable p.text)
    {other : String} (reserved : ¬ IsVariable other) : (paramScope params).contains other = false := by
  rw [Bindings.contains, get?_paramScope]
  split
  · next mem =>
    obtain ⟨p, isParam, same⟩ := List.mem_map.1 mem
    exact absurd same.symm (ne_of_isVariable (named p isParam) reserved)
  · rfl

/-- Outside of all classes there is no receiver; in a method, its scopes are where `this` and `super`
are found. -/
theorem Nested.receiver {code : Node → Prop} {s : Store} {earlier : List Moment}
    {o : Option Receiver} {path : List FrameId} {c : Context} {n : Node}
    (rooted : ∀ n, code n → n.Scoped .top) (h : Nested code s earlier o path c n) :
    match o with
    | none => c.classContext = .outside
    | some r => r.At s path c := by
  induction h with
  | root _ => rfl
  | @part o _ _ _ _ _ nested opens mem ih =>
    obtain ⟨same, places⟩ := Node.parts_place (nested.stands.scoped rooted).1 opens mem
    cases o with
    | none => exact same.trans ih
    | some r => exact Receiver.At.congr ih same places
  | @block o _ _ _ id _ ih =>
    cases o with
    | none => exact ih
    | some r => exact Receiver.At.inside ih id rfl rfl (fun _ _ => rfl) fun _ _ => rfl
  | @function o _ c name params _ id nested ih =>
    obtain ⟨named, paramsNamed, -⟩ := (nested.stands.scoped rooted).1
    cases o with
    | none => exact ih
    | some r =>
      let outer := c.scopes.define name.text
      have enters : ((c.within outer).inFunction params).scopes = paramScope params :: outer :=
        Scopes.enterFunction_eq outer params
      have places (other : String) (reserved : ¬ IsVariable other) :
          outer.place other = c.scopes.place other :=
        Scopes.place_define (ne_of_isVariable named reserved)
      exact Receiver.At.inside ih id enters rfl places fun other reserved =>
        contains_paramScope paramsNamed reserved
  | @method _ _ _ c name superclass methods d parent own i id nested mem scopes holds _ =>
    have isScoped := (nested.stands.scoped rooted).1
    have paramsNamed := (FunctionDecl.scopedAll_iff.1 isScoped.2.2 _ mem).named
    have unbound {other : String} (reserved : ¬ IsVariable other) :=
      contains_paramScope paramsNamed reserved
    have thisHere (outer : Scopes) : Scopes.place (paramScope d.params :: outer.enterWith thisName)
        thisName = .scope 1 := by
      rw [Scopes.place_cons_of_not_contains (unbound fun named => named.1 rfl), Scopes.enterWith]
      exact congrArg Place.outward (Scopes.place_cons_of_contains rfl)
    cases scopes with
    | base =>
      refine ⟨1, own, ?_, rfl, holds, rfl⟩
      rw [Context.inMethod, Scopes.enterFunction_eq]
      exact thisHere _
    | derived denoted holdsSuper =>
      refine ⟨1, own, ?_, rfl, holds, rfl, ?_, _, rfl, holdsSuper⟩
      · rw [Context.inMethod, Scopes.enterFunction_eq]
        exact thisHere _
      · have superHere (outer : Scopes) : (outer.enterWith superName).place superName = .scope 0 :=
          Scopes.place_cons_of_contains rfl
        rw [Context.inMethod, Scopes.enterFunction_eq,
          Scopes.place_cons_of_not_contains (unbound fun named => named.2 rfl)]
        exact congrArg (fun place : Place => place.outward.outward)
          (superHere (c.scopes.define name.text))

end Lox
