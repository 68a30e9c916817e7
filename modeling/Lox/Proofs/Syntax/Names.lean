import Lox.Proofs.Syntax.Shape
import Lox.Scope.Basic

/-!
# Other names for references

`mapNames f` gives the references of code that runs the names that `f` says, and leaves declarations
as they are. What `f` says depends on the place of a reference, which says in which scope it finds
its variable.
-/

namespace Lox

/-- The name that a reference gets, by its place and its name so far. -/
abbrev NameMap := Place → String → String

namespace NameMap

/-- What the map says inside of one more scope, whose own names stay. -/
def enter (f : NameMap) : NameMap
  | .scope 0, name => name
  | .scope (hops + 1), name => f (.scope hops) name
  | .global, name => f .global name

/-- What the map says inside of the scopes around the methods of a class. -/
def enterClass (f : NameMap) (superclass : Option (Reference Place)) : NameMap :=
  match superclass with
  | none => f.enter
  | some _ => f.enter.enter

/-- References that find `old` at this place get the name `new`. -/
def only (place : Place) (old new : String) : NameMap := fun found name =>
  if found = place ∧ name = old then new else name

end NameMap

def Reference.mapName (f : NameMap) (r : Reference Place) : Reference Place :=
  ⟨⟨f r.mark r.name.text, r.name.line⟩, r.mark⟩

mutual

/-- Gives the references to variables in the expression other names. -/
def Expr.mapNames (f : NameMap) : Expr Place → Expr Place
  | .literal value => .literal value
  | .grouping inner => .grouping (inner.mapNames f)
  | .unary op line operand => .unary op line (operand.mapNames f)
  | .binary op line left right => .binary op line (left.mapNames f) (right.mapNames f)
  | .logical op left right => .logical op (left.mapNames f) (right.mapNames f)
  | .variable target => .variable (target.mapName f)
  | .assign target value => .assign (target.mapName f) (value.mapNames f)
  | .call callee line arguments => .call (callee.mapNames f) line (Expr.mapNamesAll f arguments)
  | .get object property => .get (object.mapNames f) property
  | .set object property value => .set (object.mapNames f) property (value.mapNames f)
  | .this line mark => .this line mark
  | .super line mark method => .super line mark method

def Expr.mapNamesAll (f : NameMap) : List (Expr Place) → List (Expr Place)
  | [] => []
  | e :: es => e.mapNames f :: Expr.mapNamesAll f es

end

mutual

/-- Gives the references to variables in the statement other names. -/
def Stmt.mapNames (f : NameMap) : Stmt Place → Stmt Place
  | .expression value => .expression (value.mapNames f)
  | .print value => .print (value.mapNames f)
  | .declare name initializer => .declare name (initializer.map (·.mapNames f))
  | .block body => .block (Stmt.mapNamesAll f.enter body)
  | .conditional condition thenBranch none =>
    .conditional (condition.mapNames f) (thenBranch.mapNames f) none
  | .conditional condition thenBranch (some elseBranch) =>
    .conditional (condition.mapNames f) (thenBranch.mapNames f) (some (elseBranch.mapNames f))
  | .loop condition body => .loop (condition.mapNames f) (body.mapNames f)
  | .function declaration => .function (declaration.mapNames f)
  | .ret line value => .ret line (value.map (·.mapNames f))
  | .classDecl name superclass methods =>
    .classDecl name (superclass.map (·.mapName f))
      (FunctionDecl.mapNamesAll (f.enterClass superclass) methods)

def FunctionDecl.mapNames (f : NameMap) : FunctionDecl Place → FunctionDecl Place
  | ⟨name, params, body⟩ => ⟨name, params, Stmt.mapNamesAll f.enter body⟩

def Stmt.mapNamesAll (f : NameMap) : List (Stmt Place) → List (Stmt Place)
  | [] => []
  | s :: ss => s.mapNames f :: Stmt.mapNamesAll f ss

def FunctionDecl.mapNamesAll (f : NameMap) : List (FunctionDecl Place) → List (FunctionDecl Place)
  | [] => []
  | d :: ds => d.mapNames f :: FunctionDecl.mapNamesAll f ds

end

variable {f g : NameMap}

/-! ## Maps that say the same -/

mutual

/-- Only what a map says of the names in the expression counts. -/
theorem Expr.mapNames_congr {allowed : String → Prop}
    (same : ∀ place name, allowed name → f place name = g place name) :
    ∀ e : Expr Place, e.Shaped allowed → e.mapNames f = e.mapNames g
  | .literal _, _ | .this _ _, _ | .super _ _ _, _ => rfl
  | .grouping e, h | .unary _ _ e, h => by
    simp only [Expr.mapNames]
    rw [Expr.mapNames_congr same e h]
  | .binary _ _ l r, h | .logical _ l r, h => by
    simp only [Expr.mapNames]
    rw [Expr.mapNames_congr same l h.1, Expr.mapNames_congr same r h.2]
  | .variable target, h => by
    have named : allowed target.name.text := h
    simp only [Expr.mapNames, Reference.mapName, same _ _ named]
  | .assign target value, h => by
    simp only [Expr.mapNames, Reference.mapName, same _ _ h.1]
    rw [Expr.mapNames_congr same value h.2]
  | .call callee _ arguments, h => by
    simp only [Expr.mapNames]
    rw [Expr.mapNames_congr same callee h.1, Expr.mapNamesAll_congr same arguments h.2]
  | .get object _, h => by
    simp only [Expr.mapNames]
    rw [Expr.mapNames_congr same object h.1]
  | .set object _ value, h => by
    simp only [Expr.mapNames]
    rw [Expr.mapNames_congr same object h.1, Expr.mapNames_congr same value h.2.2]

theorem Expr.mapNamesAll_congr {allowed : String → Prop}
    (same : ∀ place name, allowed name → f place name = g place name) :
    ∀ es : List (Expr Place), Expr.ShapedAll allowed es →
      Expr.mapNamesAll f es = Expr.mapNamesAll g es
  | [], _ => rfl
  | e :: es, h => by
    simp only [Expr.mapNamesAll]
    rw [Expr.mapNames_congr same e h.1, Expr.mapNamesAll_congr same es h.2]

end

theorem Expr.mapNames?_congr {allowed : String → Prop}
    (same : ∀ place name, allowed name → f place name = g place name) {e? : Option (Expr Place)}
    (h : Expr.Shaped? allowed e?) : e?.map (·.mapNames f) = e?.map (·.mapNames g) := by
  cases e? with
  | none => rfl
  | some e => exact congrArg some (e.mapNames_congr same h)

mutual

theorem Expr.mapNames_id : ∀ e : Expr Place, e.mapNames (fun _ name => name) = e
  | .literal _ | .this _ _ | .super _ _ _ | .variable _ => rfl
  | .grouping e | .unary _ _ e | .get e _ => by simp only [Expr.mapNames, e.mapNames_id]
  | .binary _ _ l r | .logical _ l r => by
    simp only [Expr.mapNames, l.mapNames_id, r.mapNames_id]
  | .assign _ value => by simp only [Expr.mapNames, value.mapNames_id, Reference.mapName]
  | .call callee _ arguments => by
    simp only [Expr.mapNames, callee.mapNames_id, Expr.mapNamesAll_id arguments]
  | .set object _ value => by
    simp only [Expr.mapNames, object.mapNames_id, value.mapNames_id]

theorem Expr.mapNamesAll_id :
    ∀ es : List (Expr Place), Expr.mapNamesAll (fun _ name => name) es = es
  | [] => rfl
  | e :: es => by simp only [Expr.mapNamesAll, e.mapNames_id, Expr.mapNamesAll_id es]

end

mutual

/-- Other names leave the places of references as they are. -/
theorem Expr.marks_mapNames : ∀ e : Expr Place, (e.mapNames f).marks = e.marks
  | .literal _ | .this _ _ | .super _ _ _ | .variable _ => rfl
  | .grouping e | .unary _ _ e | .get e _ => e.marks_mapNames
  | .binary _ _ l r | .logical _ l r => by
    simp only [Expr.mapNames, Expr.marks, l.marks_mapNames, r.marks_mapNames]
  | .assign _ value => by
    simp only [Expr.mapNames, Expr.marks, Reference.mapName, value.marks_mapNames]
  | .call callee _ arguments => by
    simp only [Expr.mapNames, Expr.marks, callee.marks_mapNames, Expr.marksAll_mapNames arguments]
  | .set object _ value => by
    simp only [Expr.mapNames, Expr.marks, object.marks_mapNames, value.marks_mapNames]

theorem Expr.marksAll_mapNames :
    ∀ es : List (Expr Place), Expr.marksAll (Expr.mapNamesAll f es) = Expr.marksAll es
  | [] => rfl
  | e :: es => by
    simp only [Expr.mapNamesAll, Expr.marksAll, e.marks_mapNames, Expr.marksAll_mapNames es]

end

theorem Expr.marks?_mapNames (e? : Option (Expr Place)) :
    Expr.marks? (e?.map (·.mapNames f)) = Expr.marks? e? := by
  cases e? with
  | none => rfl
  | some e => exact e.marks_mapNames

end Lox
