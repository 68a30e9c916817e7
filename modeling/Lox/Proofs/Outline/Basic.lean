import Lox.Scope.Violations
import Mathlib.Data.Set.Basic

/-!
# Outlines

The outline of a program is the tree of what scoping can see of it: the declarations, the references,
the scopes and what else stands around them. A node has a *position*, the way to it from the root, and
positions are ordered as the text is. What a reference finds and what is misplaced are told here by
positions alone, with no walk through the program.
-/

namespace Lox

/-- What a node of an outline stands for. -/
inductive Label (ρ : Type) where
  /-- An expression that is none of those below. -/
  | operation
  | read (target : Reference ρ)
  /-- An assignment to a variable, with the value as its part. -/
  | store (target : Reference ρ)
  | this (line : Nat) (mark : ρ)
  | super (line : Nat) (mark : ρ)
  /-- A statement that is none of those below, or statements that follow each other. -/
  | statement
  | ret (line : Nat) (hasValue : Bool)
  /-- The declaration of a variable, with the initializer as its part. -/
  | variable (name : Name)
  /-- The declaration of a function, with the body as its part. -/
  | function (name : Name)
  | parameter (name : Name)
  /-- The declaration of a class, with the name of its superclass. -/
  | classDecl (name : Name) (superclass : Option Name)
  /-- The reference of a class to its superclass. -/
  | inherits (target : Reference ρ)
  /-- A block, or a scope around the methods of a class. -/
  | scope
  /-- The parameters and the statements of a function or a method. -/
  | body (isInitializer : Bool)
  /-- The name that the instance or the superclass has in the methods of a class. -/
  | implicit (name : String)

/-- A tree of labels. The parts of a node stand in the order of the text. -/
inductive Outline (ρ : Type) where
  | node (label : Label ρ) (parts : List (Outline ρ))

variable {ρ : Type}

namespace Label

/-- The name that is declared here, as it is written. -/
def declared? : Label ρ → Option Name
  | «variable» name | function name | parameter name | classDecl name _ => some name
  | _ => none

/-- The names that are declared here, in the scope around. -/
def declares : Label ρ → Set String
  | «variable» name | function name | parameter name | classDecl name _ => {name.text}
  | implicit name => {name}
  | _ => ∅

/-- The name and the mark of the reference that stands here. -/
def refers? : Label ρ → Option (String × ρ)
  | read target | store target | inherits target => some (target.name.text, target.mark)
  | this _ mark => some (thisName, mark)
  | super _ mark => some (superName, mark)
  | _ => none

def isExpression : Label ρ → Bool
  | operation | read _ | store _ | this .. | super .. => true
  | _ => false

/-- The parts stand in a scope of their own. -/
def opensScope : Label ρ → Bool
  | scope | body _ => true
  | _ => false

/-- Whether the function around the parts, if that is what stands here, is an initializer. -/
def function? : Label ρ → Option Bool
  | body isInitializer => some isInitializer
  | _ => none

/-- The superclass of the class around the parts, if that is what stands here. -/
def class? : Label ρ → Option (Option Name)
  | classDecl _ superclass => some superclass
  | _ => none

end Label

/-! ## The outline of a program -/

mutual

def Expr.outline : Expr ρ → Outline ρ
  | .literal _ => .node .operation []
  | .grouping inner => .node .operation [inner.outline]
  | .unary _ _ operand => .node .operation [operand.outline]
  | .binary _ _ left right => .node .operation [left.outline, right.outline]
  | .logical _ left right => .node .operation [left.outline, right.outline]
  | .variable target => .node (.read target) []
  | .assign target value => .node (.store target) [value.outline]
  | .call callee _ arguments => .node .operation (callee.outline :: Expr.outlineAll arguments)
  | .get object _ => .node .operation [object.outline]
  | .set object _ value => .node .operation [object.outline, value.outline]
  | .this line mark => .node (.this line mark) []
  | .super line mark _ => .node (.super line mark) []

def Expr.outlineAll : List (Expr ρ) → List (Outline ρ)
  | [] => []
  | e :: es => e.outline :: Expr.outlineAll es

end

/-- The outline of an expression that may be missing. -/
def Expr.outline? : Option (Expr ρ) → List (Outline ρ)
  | none => []
  | some e => [e.outline]

/-- The outlines of parameters, which have no parts. -/
def Outline.parameters (params : List Name) : List (Outline ρ) :=
  params.map fun p => .node (.parameter p) []

/-- A scope that holds one name before what stands in it. -/
def Outline.holding (name : String) (parts : List (Outline ρ)) : Outline ρ :=
  .node .scope (.node (.implicit name) [] :: parts)

mutual

def Stmt.outline : Stmt ρ → Outline ρ
  | .expression value => .node .statement [value.outline]
  | .print value => .node .statement [value.outline]
  | .declare name initializer => .node (.variable name) (Expr.outline? initializer)
  | .block body => .node .scope (Stmt.outlineAll body)
  | .conditional condition thenBranch none =>
    .node .statement [condition.outline, thenBranch.outline]
  | .conditional condition thenBranch (some elseBranch) =>
    .node .statement [condition.outline, thenBranch.outline, elseBranch.outline]
  | .loop condition body => .node .statement [condition.outline, body.outline]
  | .function declaration =>
    .node (.function declaration.name) [declaration.outline false]
  | .ret line value => .node (.ret line value.isSome) (Expr.outline? value)
  | .classDecl name none methods =>
    .node (.classDecl name none) [.holding thisName (FunctionDecl.outlineAll methods)]
  | .classDecl name (some superclass) methods =>
    .node (.classDecl name (some superclass.name))
      [.node (.inherits superclass) [],
        .holding superName [.holding thisName (FunctionDecl.outlineAll methods)]]

/-- The outline of a function's parameters and statements, which share one scope. -/
def FunctionDecl.outline (isInitializer : Bool) : FunctionDecl ρ → Outline ρ
  | ⟨_, params, body⟩ =>
    .node (.body isInitializer) (Outline.parameters params ++ Stmt.outlineAll body)

def Stmt.outlineAll : List (Stmt ρ) → List (Outline ρ)
  | [] => []
  | s :: ss => s.outline :: Stmt.outlineAll ss

/-- The outlines of methods. -/
def FunctionDecl.outlineAll : List (FunctionDecl ρ) → List (Outline ρ)
  | [] => []
  | d :: ds => d.outline (d.name.text == initializerName) :: FunctionDecl.outlineAll ds

end

/-- The outline of a program, whose statements stand in no scope. -/
def Outline.ofProgram (program : List (Stmt ρ)) : Outline ρ :=
  .node .statement (Stmt.outlineAll program)

/-! ## Positions -/

/-- The way to a node: at each step, the number of the part to go on in. A node begins before another
one in the text if its position is smaller, and what stands in it has its position as a prefix. -/
abbrev Position := List Nat

namespace Outline

/-- The label of the node at a position. -/
def label? : Outline ρ → Position → Option (Label ρ)
  | .node label _, [] => some label
  | .node _ parts, i :: q => parts[i]?.bind (·.label? q)

/-- The nodes around a position, innermost first. -/
def around : Outline ρ → Position → List (Position × Label ρ)
  | _, [] => []
  | .node label parts, i :: q =>
    (parts[i]?.elim [] (·.around q)).map (fun a => (i :: a.1, a.2)) ++ [([], label)]

/-- The scopes around a position, innermost first. -/
def scopesAround (o : Outline ρ) (q : Position) : List Position :=
  ((o.around q).filter (·.2.opensScope)).map Prod.fst

/-- Whether the innermost function around a position is an initializer. -/
def functionAround (o : Outline ρ) (q : Position) : Option Bool :=
  (o.around q).findSome? (·.2.function?)

/-- The superclass of the innermost class around a position. -/
def classAround (o : Outline ρ) (q : Position) : Option (Option Name) :=
  (o.around q).findSome? (·.2.class?)

/-- The name is declared at the position. -/
def DeclaresAt (o : Outline ρ) (p : Position) (name : String) : Prop :=
  ∃ label, o.label? p = some label ∧ name ∈ label.declares

/-- The names with a declaration that stands directly in the scope and begins before the position. -/
def declaredBefore (o : Outline ρ) (scope q : Position) : Set String :=
  {name | ∃ p, o.DeclaresAt p name ∧ (o.scopesAround p).head? = some scope ∧ p < q}

/-- A reference with this name and this mark stands at the position. -/
def RefersAt (o : Outline ρ) (q : Position) (name : String) (mark : ρ) : Prop :=
  ∃ label, o.label? q = some label ∧ label.refers? = some (name, mark)

/-- The innermost scope around the position with a declaration of the name before it lies this many
scopes further out. -/
def Finds (o : Outline ρ) (q : Position) (name : String) (hops : Nat) : Prop :=
  ∃ scope, (o.scopesAround q)[hops]? = some scope ∧ name ∈ o.declaredBefore scope q ∧
    ∀ nearer ∈ (o.scopesAround q).take hops, name ∉ o.declaredBefore nearer q

/-- The place that lexical scoping gives to a name. -/
def Lands (o : Outline ρ) (q : Position) (name : String) : Place → Prop
  | .scope hops => o.Finds q name hops
  | .global => ∀ scope ∈ o.scopesAround q, name ∉ o.declaredBefore scope q

/-- What stands at the position breaks a rule of scoping. The violation has the line of the name or
the word that does. -/
inductive Violates (o : Outline ρ) : Position → Violation → Prop
  | redeclared {p scope : Position} {label : Label ρ} {name : Name} :
    o.label? p = some label → label.declared? = some name →
    (o.scopesAround p).head? = some scope → name.text ∈ o.declaredBefore scope p →
    o.Violates p ⟨.redeclared name.text, name.line⟩
  | readInInitializer {p q scope : Position} {name : Name} {target : Reference ρ} :
    o.label? q = some (.read target) → (p, .variable name) ∈ o.around q →
    name.text = target.name.text →
    -- the variable is a local one, and it is no duplicate
    (o.scopesAround p).head? = some scope → name.text ∉ o.declaredBefore scope p →
    o.Violates q ⟨.readInInitializer target.name.text, target.name.line⟩
  | returnOutside {q : Position} {line : Nat} {hasValue : Bool} :
    o.label? q = some (.ret line hasValue) → o.functionAround q = none →
    o.Violates q ⟨.returnOutside, line⟩
  | returnFromInitializer {q : Position} {line : Nat} :
    o.label? q = some (.ret line true) → o.functionAround q = some true →
    o.Violates q ⟨.returnFromInitializer, line⟩
  | thisOutside {q : Position} {line : Nat} {mark : ρ} :
    o.label? q = some (.this line mark) → o.classAround q = none →
    o.Violates q ⟨.thisOutside, line⟩
  | superOutside {q : Position} {line : Nat} {mark : ρ} :
    o.label? q = some (.super line mark) → o.classAround q = none →
    o.Violates q ⟨.superOutside, line⟩
  | superWithoutSuperclass {q : Position} {line : Nat} {mark : ρ} :
    o.label? q = some (.super line mark) → o.classAround q = some none →
    o.Violates q ⟨.superWithoutSuperclass, line⟩
  | inheritsItself {q : Position} {name superclass : Name} :
    o.label? q = some (.classDecl name (some superclass)) → superclass.text = name.text →
    o.Violates q ⟨.inheritsItself, superclass.line⟩

end Outline

end Lox
