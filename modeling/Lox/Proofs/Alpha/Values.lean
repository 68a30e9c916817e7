import Lox.Proofs.Alpha.Equivalence
import Lox.Proofs.Run.ExpressionRules
import Mathlib.Data.List.Forall2

/-!
# Values that differ in the names of variables

Each scope of a run has the renaming of the scope of the program that it was opened for. Functions
are alike that carry the same scopes and differ as the renamings of these say (`Closure.Alpha`), and
other values are if the functions are that they give access to. Further scopes may be opened, and
what is alike stays so. No operator tells values apart that are alike.
-/

namespace Option.Rel

variable {α β : Type} {r r' : α → β → Prop} {a? : Option α} {b? : Option β}

theorem imp (weaker : ∀ a b, r a b → r' a b) (h : Option.Rel r a? b?) : Option.Rel r' a? b? := by
  cases h with
  | none => exact .none
  | some h => exact .some (weaker _ _ h)

theorem none_or_some (h : Option.Rel r a? b?) :
    (a? = Option.none ∧ b? = Option.none) ∨
      ∃ a b, a? = Option.some a ∧ b? = Option.some b ∧ r a b := by
  cases h with
  | none => exact .inl ⟨rfl, rfl⟩
  | some h => exact .inr ⟨_, _, rfl, rfl, h⟩

end Option.Rel

namespace Lox

open Renaming (nameMap declared identity)

/-! ## Scopes of a run -/

namespace Renaming

/-- The renaming of a scope of the run. -/
def ofScope (all : List Renaming) (id : FrameId) : Renaming := all.getD id identity

/-- The renamings of the scopes of a path. -/
def along (all : List Renaming) (path : List FrameId) : List Renaming := path.map (ofScope all)

variable {all more : List Renaming}

theorem ofScope_of_extends (h : all <+: more) {id : FrameId} (lt : id < all.length) :
    ofScope more id = ofScope all id := by
  obtain ⟨rest, rfl⟩ := h
  simp only [ofScope, List.getD_eq_getElem?_getD, List.getElem?_append_left lt]

theorem inside_of_extends (h : all <+: more) {path : List FrameId}
    (inside : ∀ id ∈ path, id < all.length) : ∀ id ∈ path, id < more.length :=
  fun id mem => Nat.lt_of_lt_of_le (inside id mem) h.length_le

/-- Further scopes have no part in a path. -/
theorem along_of_extends (h : all <+: more) {path : List FrameId}
    (inside : ∀ id ∈ path, id < all.length) : along more path = along all path :=
  List.map_congr_left fun id mem => ofScope_of_extends h (inside id mem)

theorem along_identity (same : ∀ r ∈ all, r = identity) (path : List FrameId) :
    ∀ r ∈ along all path, r = identity := by
  intro r mem
  obtain ⟨id, -, rfl⟩ := List.mem_map.1 mem
  exact getD_identity same id

/-- A new scope has its own renaming, and the others theirs. -/
theorem ofScope_concat (all : List Renaming) (r : Renaming) (id : FrameId) :
    ofScope (all ++ [r]) id = if id = all.length then r else ofScope all id := by
  simp only [ofScope, List.getD_eq_getElem?_getD]
  grind

/-- The name that a reference gets is the one that the scope says in which it finds its variable. -/
theorem nameMap_along (all : List Renaming) {path : List FrameId} {hops : Nat} {id : FrameId}
    (here : path[hops]? = some id) (name : String) :
    nameMap (along all path) (.scope hops) name = (ofScope all id).perm name := by
  simp only [nameMap, along, List.getD_eq_getElem?_getD, List.getElem?_map, here, Option.map_some,
    Option.getD_some]

end Renaming

open Renaming (ofScope along)

/-! ## Values -/

section

variable (p : Renaming → Prop) (all : List Renaming)

/-- The functions carry the same scopes, and differ only in the names of variables. The `inner` scopes
are still missing from those that the functions carry. -/
structure Closure.Alpha (inner : List Renaming) (c c' : Closure) : Prop where
  environment : c'.environment = c.environment
  isInitializer : c'.isInitializer = c.isInitializer
  inside : ∀ id ∈ c.environment.path, id < all.length
  declaration : c.declaration.Alpha p (inner ++ along all c.environment.path) c'.declaration

/-- The methods differ only in the names of variables. The scope of the instance is still missing from
those that they carry. -/
structure ClassLevel.Alpha (l l' : ClassLevel) : Prop where
  id : l'.id = l.id
  name : l'.name = l.name
  methods : ∀ name,
    Option.Rel (Closure.Alpha p all [identity]) (l.methods.get? name) (l'.methods.get? name)

/-- The classes and their superclasses differ only in the names of variables. -/
def Class.Alpha (c c' : Class) : Prop :=
  List.Forall₂ (ClassLevel.Alpha p all) c.lineage c'.lineage

/-- The instances are the same but for the methods of their classes. -/
structure Instance.Alpha (i i' : Instance) : Prop where
  id : i'.id = i.id
  ofClass : i.ofClass.Alpha p all i'.ofClass

/-- The values differ only in the names of variables. -/
inductive Value.Alpha : Value → Value → Prop
  | nil : Value.Alpha .nil .nil
  | boolean (b : Bool) : Value.Alpha (.boolean b) (.boolean b)
  | number (x : Float) : Value.Alpha (.number x) (.number x)
  | string (text : String) : Value.Alpha (.string text) (.string text)
  | native (f : Native) : Value.Alpha (.callable (.native f)) (.callable (.native f))
  | function (id : ObjectId) {c c' : Closure} :
    c.Alpha p all [] c' → Value.Alpha (.callable (.function id c)) (.callable (.function id c'))
  | ofClass {c c' : Class} :
    c.Alpha p all c' → Value.Alpha (.callable (.ofClass c)) (.callable (.ofClass c'))
  | ofInstance {i i' : Instance} :
    i.Alpha p all i' → Value.Alpha (.ofInstance i) (.ofInstance i')

end

variable {p : Renaming → Prop} {all more : List Renaming}

/-! ## More scopes -/

theorem Closure.Alpha.mono {inner : List Renaming} {c c' : Closure} (h : c.Alpha p all inner c')
    (later : all <+: more) : c.Alpha p more inner c' := by
  refine ⟨h.environment, h.isInitializer, Renaming.inside_of_extends later h.inside, ?_⟩
  rw [Renaming.along_of_extends later h.inside]
  exact h.declaration

theorem ClassLevel.Alpha.mono {l l' : ClassLevel} (h : l.Alpha p all l') (later : all <+: more) :
    l.Alpha p more l' :=
  ⟨h.id, h.name, fun name => (h.methods name).imp fun _ _ method => method.mono later⟩

theorem Class.Alpha.mono {c c' : Class} (h : c.Alpha p all c') (later : all <+: more) :
    c.Alpha p more c' :=
  h.imp fun _ _ level => level.mono later

theorem Instance.Alpha.mono {i i' : Instance} (h : i.Alpha p all i') (later : all <+: more) :
    i.Alpha p more i' :=
  ⟨h.id, h.ofClass.mono later⟩

theorem Value.IsScalar.alpha {v : Value} (h : v.IsScalar) : v.Alpha p all v := by
  cases v with
  | nil => exact .nil
  | boolean b => exact .boolean b
  | number x => exact .number x
  | string text => exact .string text
  | callable | ofInstance => exact h.elim

theorem Value.Alpha.mono {v v' : Value} (h : v.Alpha p all v') (later : all <+: more) :
    v.Alpha p more v' := by
  cases h with
  | nil => exact .nil
  | boolean b => exact .boolean b
  | number x => exact .number x
  | string text => exact .string text
  | native f => exact .native f
  | function id closure => exact .function id (closure.mono later)
  | ofClass c => exact .ofClass (c.mono later)
  | ofInstance i => exact .ofInstance (i.mono later)

/-! ## What a program sees of a value -/

theorem FunctionDecl.Alpha.name_eq {rs : List Renaming} {d d' : FunctionDecl Place}
    (h : d.Alpha p rs d') : d'.name = d.name := by
  cases h
  rfl

theorem FunctionDecl.Alpha.arity_eq {rs : List Renaming} {d d' : FunctionDecl Place}
    (h : d.Alpha p rs d') : d'.arity = d.arity := by
  cases h
  exact List.length_map _

theorem FunctionDecl.Alpha.isInitializer_eq {rs : List Renaming} {d d' : FunctionDecl Place}
    (h : d.Alpha p rs d') : d'.isInitializer = d.isInitializer := by
  cases h
  rfl

namespace Class.Alpha

variable {c c' : Class}

theorem own (h : c.Alpha p all c') : c.own.Alpha p all c'.own := by
  cases h with
  | cons own _ => exact own

/-- A method is found in the one class if it is in the other. -/
theorem findMethod? (h : c.Alpha p all c') (name : String) :
    Option.Rel (Closure.Alpha p all [identity]) (c.findMethod? name) (c'.findMethod? name) := by
  have search {levels levels' : List ClassLevel}
      (h : List.Forall₂ (ClassLevel.Alpha p all) levels levels') :
      Option.Rel (Closure.Alpha p all [identity])
        (levels.findSome? (·.methods.get? name)) (levels'.findSome? (·.methods.get? name)) := by
    induction h with
    | nil => exact .none
    | @cons l l' _ _ level _ ih =>
      rcases (level.methods name).none_or_some with
        ⟨unbound, unbound'⟩ | ⟨f, f', found, found', method⟩
      · rw [List.findSome?_cons, List.findSome?_cons, unbound, unbound']
        exact ih
      · rw [List.findSome?_cons, List.findSome?_cons, found, found']
        exact .some method
  exact search h

theorem arity_eq (h : c.Alpha p all c') : c'.arity = c.arity := by
  unfold Class.arity
  rcases (h.findMethod? initializerName).none_or_some with
    ⟨unbound, unbound'⟩ | ⟨f, f', found, found', method⟩
  · rw [unbound, unbound']
  · rw [found, found']
    exact method.declaration.arity_eq

end Class.Alpha

namespace Value.Alpha

variable {v v' left left' right right' : Value}

theorem text_eq (h : v.Alpha p all v') : v'.text = v.text := by
  cases h with
  | nil | boolean | number | string | native => rfl
  | @function id c c' closure =>
    have same := closure.declaration.name_eq
    simp only [Value.text, Callable.text, same]
  | ofClass c => exact c.own.name
  | ofInstance i =>
    have same := i.ofClass.own.name
    simp only [Value.text, Class.name, same]

theorem typeName_eq (h : v.Alpha p all v') : v'.typeName = v.typeName := by
  cases h <;> rfl

theorem isTruthy_eq (h : v.Alpha p all v') : v'.isTruthy = v.isTruthy := by
  cases h <;> rfl

end Value.Alpha

/-! ## Operators -/

section

variable {left left' right right' : Value}

theorem addValues_alpha (l : left.Alpha p all left') (r : right.Alpha p all right') :
    addValues left' right' = addValues left right := by
  cases l with
  | number | string => cases r <;> rfl
  | nil | boolean | native | function | ofClass | ofInstance =>
    exact congrArg (fun sort => Except.error (RuntimeCause.addedOperands _ sort)) r.typeName_eq

theorem BinaryOp.onValues_alpha (op : BinaryOp) (l : left.Alpha p all left')
    (r : right.Alpha p all right') : op.onValues left' right' = op.onValues left right := by
  cases l with
  | number => cases r <;> rfl
  | nil | boolean | string | native | function | ofClass | ofInstance =>
    exact congrArg (fun sort => Except.error (RuntimeCause.operands op _ sort)) r.typeName_eq

/-- A binary operator gives the same. -/
theorem BinaryOp.apply_alpha (op : BinaryOp) (l : left.Alpha p all left')
    (r : right.Alpha p all right') : op.apply left' right' = op.apply left right := by
  unfold BinaryOp.apply
  rw [addValues_alpha l r, op.onValues_alpha l r]

theorem UnaryOp.apply_alpha (op : UnaryOp) {operand operand' : Value}
    (h : operand.Alpha p all operand') : op.apply operand' = op.apply operand := by
  cases op with
  | not => exact congrArg (fun b => Except.ok (Value.boolean !b)) h.isTruthy_eq
  | negate => cases h <;> rfl

theorem LogicalOp.isDecidedBy_alpha (op : LogicalOp) (l : left.Alpha p all left') :
    op.isDecidedBy left' = op.isDecidedBy left := by
  cases op with
  | or => exact l.isTruthy_eq
  | and => exact congrArg not l.isTruthy_eq

end

end Lox
