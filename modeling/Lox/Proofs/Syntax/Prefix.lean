import Lox.Proofs.Syntax.Sexp
import Lox.Syntax.Text

/-!
# Trees in prefix notation

The text of a tree is that of an expression in prefix notation, a list for each node: the word for
what the node is, and then its parts. Names and literals are words.
-/

namespace Lox

variable {ρ : Type}

/-! ## Nodes as lists -/

def Name.sexp (name : Name) : Sexp := .word name.text

mutual

def Expr.sexp : Expr ρ → Sexp
  | .literal value => .word value.text
  | .grouping inner => .list [.word "group", inner.sexp]
  | .unary op _ operand => .list [.word op.symbol, operand.sexp]
  | .binary op _ left right => .list [.word op.symbol, left.sexp, right.sexp]
  | .logical op left right => .list [.word op.symbol, left.sexp, right.sexp]
  | .variable target => target.name.sexp
  | .assign target value => .list [.word "=", target.name.sexp, value.sexp]
  | .call callee _ arguments => .list (.word "call" :: callee.sexp :: Expr.sexpAll arguments)
  | .get object property => .list [.word ".", object.sexp, property.sexp]
  | .set object property value =>
    .list [.word ".=", object.sexp, property.sexp, value.sexp]
  | .this _ _ => .word thisName
  | .super _ _ method => .list [.word "super", method.sexp]

def Expr.sexpAll : List (Expr ρ) → List Sexp
  | [] => []
  | e :: es => e.sexp :: Expr.sexpAll es

end

def Expr.sexp? : Option (Expr ρ) → List Sexp
  | none => []
  | some e => [e.sexp]

def superclassSexps : Option (Reference ρ) → List Sexp
  | none => []
  | some superclass => [.word "<", superclass.name.sexp]

mutual

def Stmt.sexp : Stmt ρ → Sexp
  | .expression value => .list [.word ";", value.sexp]
  | .print value => .list [.word "print", value.sexp]
  | .declare name initializer => .list (.word "var" :: name.sexp :: Expr.sexp? initializer)
  | .block body => .list (.word "block" :: Stmt.sexpAll body)
  | .conditional condition thenBranch none =>
    .list [.word "if", condition.sexp, thenBranch.sexp]
  | .conditional condition thenBranch (some elseBranch) =>
    .list [.word "if", condition.sexp, thenBranch.sexp, elseBranch.sexp]
  | .loop condition body => .list [.word "while", condition.sexp, body.sexp]
  | .function declaration => .list (.word "fun" :: declaration.sexps)
  | .ret _ value => .list (.word "return" :: Expr.sexp? value)
  | .classDecl name superclass methods =>
    .list (.word "class" :: name.sexp ::
      (superclassSexps superclass ++ FunctionDecl.sexpAll methods))

/-- What stands behind the word that a function begins with. -/
def FunctionDecl.sexps : FunctionDecl ρ → List Sexp
  | ⟨name, params, body⟩ =>
    name.sexp :: .list (params.map Name.sexp) :: Stmt.sexpAll body

def Stmt.sexpAll : List (Stmt ρ) → List Sexp
  | [] => []
  | s :: ss => s.sexp :: Stmt.sexpAll ss

def FunctionDecl.sexpAll : List (FunctionDecl ρ) → List Sexp
  | [] => []
  | d :: ds => .list (.word "method" :: d.sexps) :: FunctionDecl.sexpAll ds

end

/-! ## Texts -/

open Sexp (render renderMore)

theorem renderMore_append (xs ys : List Sexp) :
    renderMore (xs ++ ys) = renderMore xs ++ renderMore ys := by
  induction xs with
  | nil => rfl
  | cons x xs ih => simp [renderMore, ih]

theorem toList_names (name : Name) (names : List Name) :
    (" ".intercalate ((name :: names).map Name.text)).toList =
      name.sexp.render ++ renderMore (names.map Name.sexp) := by
  induction names generalizing name with
  | nil => simp [Name.sexp, render, renderMore]
  | cons next names ih =>
    rw [List.map_cons, List.map_cons, String.intercalate_cons_cons, ← List.map_cons,
      String.toList_append, ih]
    simp [Name.sexp, render, renderMore]

theorem toList_paramsText (params : List Name) :
    (paramsText params).toList = (Sexp.list (params.map Name.sexp)).render := by
  cases params with
  | nil => rfl
  | cons name names =>
    rw [paramsText, String.toList_append, String.toList_append, toList_names]
    simp [render]

mutual

/-- The text of an expression is in prefix notation. -/
theorem Expr.toList_text : ∀ e : Expr ρ, e.text.toList = e.sexp.render
  | .literal _ | .variable _ | .this _ _ => rfl
  | .grouping e | .unary _ _ e | .assign _ e | .get e _ => by
    simp [Expr.text, Expr.sexp, render, renderMore, Name.sexp, e.toList_text]
  | .binary _ _ l r | .logical _ l r | .set l _ r => by
    simp [Expr.text, Expr.sexp, render, renderMore, Name.sexp, l.toList_text, r.toList_text]
  | .call e _ es => by
    simp [Expr.text, Expr.sexp, render, renderMore, e.toList_text, Expr.toList_textAll es]
  | .super _ _ _ => by simp [Expr.text, Expr.sexp, render, renderMore, Name.sexp]

theorem Expr.toList_textAll : ∀ es : List (Expr ρ),
    (Expr.textAll es).toList = renderMore (Expr.sexpAll es)
  | [] => rfl
  | e :: es => by
    simp [Expr.textAll, Expr.sexpAll, renderMore, e.toList_text, Expr.toList_textAll es]

end

theorem Expr.toList_text? (e? : Option (Expr ρ)) :
    (Expr.text? e?).toList = renderMore (Expr.sexp? e?) := by
  cases e? with
  | none => rfl
  | some e => simp [Expr.text?, Expr.sexp?, renderMore, e.toList_text]

theorem toList_superclassText (superclass : Option (Reference ρ)) :
    (superclassText superclass).toList = renderMore (superclassSexps superclass) := by
  cases superclass <;> simp [superclassText, superclassSexps, render, renderMore, Name.sexp]

mutual

/-- The text of a statement is in prefix notation. -/
theorem Stmt.toList_text : ∀ s : Stmt ρ, s.text.toList = s.sexp.render
  | .expression e | .print e => by
    simp [Stmt.text, Stmt.sexp, render, renderMore, e.toList_text]
  | .declare _ e? | .ret _ e? => by
    simp [Stmt.text, Stmt.sexp, render, renderMore, Name.sexp, Expr.toList_text? e?]
  | .block ss => by simp [Stmt.text, Stmt.sexp, render, Stmt.toList_textAll ss]
  | .conditional c s none | .loop c s => by
    simp [Stmt.text, Stmt.sexp, render, renderMore, c.toList_text, s.toList_text]
  | .conditional c s (some s') => by
    simp [Stmt.text, Stmt.sexp, render, renderMore, c.toList_text, s.toList_text, s'.toList_text]
  | .function d => d.toList_text "fun"
  | .classDecl _ superclass ds => by
    simp [Stmt.text, Stmt.sexp, render, renderMore, renderMore_append, Name.sexp,
      toList_superclassText superclass, FunctionDecl.toList_textAll ds]

theorem FunctionDecl.toList_text (word : String) : ∀ d : FunctionDecl ρ,
    (d.text word).toList = (Sexp.list (.word word :: d.sexps)).render
  | ⟨_, params, body⟩ => by
    simp [FunctionDecl.text, FunctionDecl.sexps, render, renderMore, Name.sexp,
      toList_paramsText params, Stmt.toList_textAll body]

theorem Stmt.toList_textAll : ∀ ss : List (Stmt ρ),
    (Stmt.textAll ss).toList = renderMore (Stmt.sexpAll ss)
  | [] => rfl
  | s :: ss => by
    simp [Stmt.textAll, Stmt.sexpAll, renderMore, s.toList_text, Stmt.toList_textAll ss]

theorem FunctionDecl.toList_textAll : ∀ ds : List (FunctionDecl ρ),
    (FunctionDecl.textAll ds).toList = renderMore (FunctionDecl.sexpAll ds)
  | [] => rfl
  | d :: ds => by
    simp [FunctionDecl.textAll, FunctionDecl.sexpAll, renderMore, d.toList_text,
      FunctionDecl.toList_textAll ds]

end

end Lox
