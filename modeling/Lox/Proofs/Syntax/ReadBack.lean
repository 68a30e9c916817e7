import Lox.Proofs.Parser.Grammar
import Lox.Proofs.Syntax.Legible
import Lox.Proofs.Syntax.Lines
import Lox.Proofs.Token.Spacing

/-!
# Trees are read back

`Expr.ofSexp?` and `Stmt.ofSexp?` read a tree from prefix notation. A word is the token that it is
recognised as, a list is what its first word says and how many parts it has: so a minus sign in
front of one operand is not the one in front of two. What is legible is read back, but for its
marks and lines, which the notation leaves out.
-/

namespace Lox

open Lexer (Matches munch munch_alone)

variable {ρ : Type}

/-- The tree without its marks and lines. -/
def Expr.plain (e : Expr ρ) : Expr Unit := e.bare.mapLines fun _ => 0

def Expr.plainAll (es : List (Expr ρ)) : List (Expr Unit) :=
  Expr.mapLinesAll (fun _ => 0) (Expr.mapMarksAll (fun _ _ => ()) es)

def Stmt.plain (s : Stmt ρ) : Stmt Unit := s.bare.mapLines fun _ => 0

def Stmt.plainAll (ss : List (Stmt ρ)) : List (Stmt Unit) :=
  Stmt.mapLinesAll (fun _ => 0) (Stmt.mapMarksAll (fun _ _ => ()) ss)

def FunctionDecl.plain (d : FunctionDecl ρ) : FunctionDecl Unit := d.bare.mapLines fun _ => 0

def FunctionDecl.plainAll (ds : List (FunctionDecl ρ)) : List (FunctionDecl Unit) :=
  FunctionDecl.mapLinesAll (fun _ => 0) (FunctionDecl.mapMarksAll (fun _ _ => ()) ds)

/-! ## Words -/

/-- What kind of token the word is. -/
def wordKind? (text : String) : Option Kind :=
  match text.toList with
  | [] => none
  | c :: cs => match (munch c cs).form with
    | .token kind => some kind
    | .layout | .error _ => none

theorem wordKind?_of_matches {kind : Kind} {text : String}
    (spelled : Matches (.token kind) text.toList) : wordKind? text = some kind := by
  unfold wordKind?
  cases letters : text.toList with
  | nil => exact absurd letters spelled.ne_nil
  | cons c cs =>
    rw [letters] at spelled
    simp only [munch_alone spelled]

/-! ## Reading -/

def UnaryOp.ofSymbol? (text : String) : Option UnaryOp :=
  [negate, not].find? fun op => op.symbol == text

def BinaryOp.ofSymbol? (text : String) : Option BinaryOp :=
  [add, subtract, multiply, divide, equal, notEqual, greater, greaterEqual, less, lessEqual].find?
    fun op => op.symbol == text

def LogicalOp.ofSymbol? (text : String) : Option LogicalOp :=
  [and, or].find? fun op => op.symbol == text

def Sexp.name? : Sexp → Option Name
  | .word text => some ⟨text, 0⟩
  | .list _ => none

def Sexp.reference? (x : Sexp) : Option (Reference Unit) := x.name?.map (⟨·, ()⟩)

@[simp] def Expr.ofWord? (text : String) : Option (Expr Unit) :=
  match wordKind? text with
  | some (.number value) => some (.literal (.number value))
  | some (.keyword .trueKw) => some (.literal (.boolean true))
  | some (.keyword .falseKw) => some (.literal (.boolean false))
  | some (.keyword .nilKw) => some (.literal .nil)
  | some (.keyword .thisKw) => some (.this 0 ())
  | some .identifier => some (.variable ⟨⟨text, 0⟩, ()⟩)
  | _ => none

mutual

@[simp] def Expr.ofSexp? : Sexp → Option (Expr Unit)
  | .word text => Expr.ofWord? text
  | .list (.word "call" :: callee :: arguments) => do
    return .call (← Expr.ofSexp? callee) 0 (← Expr.ofSexpAll? arguments)
  | .list [.word "group", inner] => return .grouping (← Expr.ofSexp? inner)
  | .list [.word "super", method] => return .super 0 () (← method.name?)
  | .list [.word "=", target, value] =>
    return .assign (← target.reference?) (← Expr.ofSexp? value)
  | .list [.word ".", object, property] =>
    return .get (← Expr.ofSexp? object) (← property.name?)
  | .list [.word ".=", object, property, value] =>
    return .set (← Expr.ofSexp? object) (← property.name?) (← Expr.ofSexp? value)
  | .list [.word op, operand] =>
    return .unary (← UnaryOp.ofSymbol? op) 0 (← Expr.ofSexp? operand)
  | .list [.word op, left, right] =>
    match BinaryOp.ofSymbol? op with
    | some op => return .binary op 0 (← Expr.ofSexp? left) (← Expr.ofSexp? right)
    | none =>
      return .logical (← LogicalOp.ofSymbol? op) (← Expr.ofSexp? left) (← Expr.ofSexp? right)
  | .list _ => none

@[simp] def Expr.ofSexpAll? : List Sexp → Option (List (Expr Unit))
  | [] => some []
  | x :: xs => return (← Expr.ofSexp? x) :: (← Expr.ofSexpAll? xs)

end

mutual

@[simp] def Stmt.ofSexp? : Sexp → Option (Stmt Unit)
  | .list [.word ";", value] => return .expression (← Expr.ofSexp? value)
  | .list [.word "print", value] => return .print (← Expr.ofSexp? value)
  | .list [.word "var", name] => return .declare (← name.name?) none
  | .list [.word "var", name, initializer] =>
    return .declare (← name.name?) (some (← Expr.ofSexp? initializer))
  | .list (.word "block" :: body) => return .block (← Stmt.ofSexpAll? body)
  | .list [.word "if", condition, thenBranch] =>
    return .conditional (← Expr.ofSexp? condition) (← Stmt.ofSexp? thenBranch) none
  | .list [.word "if", condition, thenBranch, elseBranch] =>
    return .conditional (← Expr.ofSexp? condition) (← Stmt.ofSexp? thenBranch)
      (some (← Stmt.ofSexp? elseBranch))
  | .list [.word "while", condition, body] =>
    return .loop (← Expr.ofSexp? condition) (← Stmt.ofSexp? body)
  | .list (.word "fun" :: parts) => return .function (← FunctionDecl.ofSexps? parts)
  | .list [.word "return"] => some (.ret 0 none)
  | .list [.word "return", value] => return .ret 0 (some (← Expr.ofSexp? value))
  | .list (.word "class" :: name :: .word "<" :: superclass :: methods) =>
    return .classDecl (← name.name?) (some (← superclass.reference?))
      (← FunctionDecl.ofSexpAll? methods)
  | .list (.word "class" :: name :: methods) =>
    return .classDecl (← name.name?) none (← FunctionDecl.ofSexpAll? methods)
  | _ => none

@[simp] def FunctionDecl.ofSexps? : List Sexp → Option (FunctionDecl Unit)
  | name :: .list params :: body =>
    return ⟨← name.name?, ← params.mapM Sexp.name?, ← Stmt.ofSexpAll? body⟩
  | _ => none

@[simp] def Stmt.ofSexpAll? : List Sexp → Option (List (Stmt Unit))
  | [] => some []
  | x :: xs => return (← Stmt.ofSexp? x) :: (← Stmt.ofSexpAll? xs)

@[simp] def FunctionDecl.ofSexpAll? : List Sexp → Option (List (FunctionDecl Unit))
  | [] => some []
  | .list (.word "method" :: parts) :: xs =>
    return (← FunctionDecl.ofSexps? parts) :: (← FunctionDecl.ofSexpAll? xs)
  | _ => none

end

theorem wordKind?_keyword (k : Keyword) : wordKind? k.text = some (.keyword k) :=
  wordKind?_of_matches (.keyword k String.ofList_toList.symm)

/-- A legible literal is read back. -/
theorem Expr.ofWord?_literal {value : Literal} (h : (.literal value : Detail ρ).Legible) :
    Expr.ofWord? value.text = some (.literal value) := by
  cases value with
  | number x =>
    have kind := wordKind?_of_matches (Number.tree_matches h.1 h.2)
    simp only [Literal.text, ofWord?, kind]
  | string text => exact h.elim
  | boolean value =>
    cases value
    · have kind := wordKind?_keyword .falseKw
      simp only [Keyword.text] at kind
      simp only [Literal.text, ofWord?, kind]
    · have kind := wordKind?_keyword .trueKw
      simp only [Keyword.text] at kind
      simp only [Literal.text, ofWord?, kind]
  | nil =>
    have kind := wordKind?_keyword .nilKw
    simp only [Keyword.text] at kind
    simp only [Literal.text, ofWord?, kind]

theorem Expr.ofWord?_this : Expr.ofWord? thisName = some (.this 0 ()) := by
  have kind := wordKind?_keyword .thisKw
  simp only [Keyword.text] at kind
  simp only [thisName, ofWord?, kind]

theorem Expr.ofWord?_name {text : String} (h : IsName text) :
    Expr.ofWord? text = some (.variable ⟨⟨text, 0⟩, ()⟩) := by
  simp only [ofWord?, wordKind?_of_matches h]

section

variable (x y : Sexp)

theorem Expr.ofSexp?_unary (op : UnaryOp) :
    Expr.ofSexp? (.list [.word op.symbol, x]) = do return .unary op 0 (← Expr.ofSexp? x) := by
  cases op <;> simp [Expr.ofSexp?, UnaryOp.symbol, UnaryOp.ofSymbol?]

theorem Expr.ofSexp?_binary (op : BinaryOp) :
    Expr.ofSexp? (.list [.word op.symbol, x, y]) =
      do return .binary op 0 (← Expr.ofSexp? x) (← Expr.ofSexp? y) := by
  cases op <;> simp [Expr.ofSexp?, BinaryOp.symbol, BinaryOp.ofSymbol?]

theorem Expr.ofSexp?_logical (op : LogicalOp) :
    Expr.ofSexp? (.list [.word op.symbol, x, y]) =
      do return .logical op (← Expr.ofSexp? x) (← Expr.ofSexp? y) := by
  cases op <;> simp [Expr.ofSexp?, LogicalOp.symbol, LogicalOp.ofSymbol?, BinaryOp.ofSymbol?,
    BinaryOp.symbol]

end

mutual

/-- **A legible expression is read back** from prefix notation. -/
theorem Expr.ofSexp?_sexp : ∀ e : Expr ρ, Legible e.details → Expr.ofSexp? e.sexp = some e.plain
  | .literal value, h => Expr.ofWord?_literal (legible_cons.1 h).1
  | .variable target, h => Expr.ofWord?_name (legible_cons.1 h).1
  | .this _ _, _ => Expr.ofWord?_this
  | .grouping e, h => by
    simp only [Expr.sexp, Expr.ofSexp?, e.ofSexp?_sexp h]
    rfl
  | .unary op _ e, h => by
    simp only [Expr.sexp, Expr.ofSexp?_unary, e.ofSexp?_sexp h]
    rfl
  | .binary op _ l r, h => by
    obtain ⟨hl, hr⟩ := legible_append.1 h
    simp only [Expr.sexp, Expr.ofSexp?_binary, l.ofSexp?_sexp hl, r.ofSexp?_sexp hr]
    rfl
  | .logical op l r, h => by
    obtain ⟨hl, hr⟩ := legible_append.1 h
    simp only [Expr.sexp, Expr.ofSexp?_logical, l.ofSexp?_sexp hl, r.ofSexp?_sexp hr]
    rfl
  | .assign _ e, h => by
    simp only [Expr.sexp, Expr.ofSexp?, e.ofSexp?_sexp (legible_cons.1 h).2]
    rfl
  | .call e _ es, h => by
    obtain ⟨callee, arguments⟩ := legible_append.1 (legible_cons.1 h).2
    simp only [Expr.sexp, Expr.ofSexp?, e.ofSexp?_sexp callee, Expr.ofSexpAll?_sexpAll es arguments]
    rfl
  | .get e _, h => by
    simp only [Expr.sexp, Expr.ofSexp?, e.ofSexp?_sexp (legible_cons.1 h).2]
    rfl
  | .set l _ r, h => by
    obtain ⟨hl, hr⟩ := legible_append.1 (legible_cons.1 h).2
    simp only [Expr.sexp, Expr.ofSexp?, l.ofSexp?_sexp hl, r.ofSexp?_sexp hr]
    rfl
  | .super _ _ _, _ => by
    simp only [Expr.sexp, Expr.ofSexp?]
    rfl

theorem Expr.ofSexpAll?_sexpAll : ∀ es : List (Expr ρ), Legible (Expr.detailsAll es) →
    Expr.ofSexpAll? (Expr.sexpAll es) = some (Expr.plainAll es)
  | [], _ => rfl
  | e :: es, h => by
    obtain ⟨first, rest⟩ := legible_append.1 h
    simp only [Expr.sexpAll, Expr.ofSexpAll?, e.ofSexp?_sexp first, Expr.ofSexpAll?_sexpAll es rest]
    rfl

end

theorem mapM_name? (names : List Name) :
    (names.map Name.sexp).mapM Sexp.name? = some (names.map (·.mapLine fun _ => 0)) := by
  induction names with
  | nil => rfl
  | cons name names ih =>
    rw [List.map_cons, List.mapM_cons, ih]
    rfl

mutual

/-- **A legible statement is read back** from prefix notation. -/
theorem Stmt.ofSexp?_sexp : ∀ s : Stmt ρ, Legible s.details → Stmt.ofSexp? s.sexp = some s.plain
  | .expression e, h | .print e, h => by
    simp only [Stmt.sexp, Stmt.ofSexp?, e.ofSexp?_sexp h]
    rfl
  | .declare _ none, _ | .ret _ none, _ => by
    simp only [Stmt.sexp, Expr.sexp?, Stmt.ofSexp?]
    rfl
  | .declare _ (some e), h => by
    simp only [Stmt.sexp, Expr.sexp?, Stmt.ofSexp?, e.ofSexp?_sexp (legible_cons.1 h).2]
    rfl
  | .ret _ (some e), h => by
    simp only [Stmt.sexp, Expr.sexp?, Stmt.ofSexp?, e.ofSexp?_sexp h]
    rfl
  | .block ss, h => by
    simp only [Stmt.sexp, Stmt.ofSexp?, Stmt.ofSexpAll?_sexpAll ss h]
    rfl
  | .conditional c s none, h => by
    obtain ⟨condition, thenBranch⟩ := legible_append.1 (legible_cons.1 h).2
    simp only [Stmt.sexp, Stmt.ofSexp?, c.ofSexp?_sexp condition, s.ofSexp?_sexp thenBranch]
    rfl
  | .conditional c s (some s'), h => by
    obtain ⟨front, elseBranch⟩ := legible_append.1 (legible_cons.1 (legible_cons.1 h).2).2
    obtain ⟨condition, thenBranch⟩ := legible_append.1 front
    simp only [Stmt.sexp, Stmt.ofSexp?, c.ofSexp?_sexp condition, s.ofSexp?_sexp thenBranch,
      s'.ofSexp?_sexp elseBranch]
    rfl
  | .loop c s, h => by
    obtain ⟨condition, body⟩ := legible_append.1 (legible_cons.1 h).2
    simp only [Stmt.sexp, Stmt.ofSexp?, c.ofSexp?_sexp condition, s.ofSexp?_sexp body]
    rfl
  | .function d, h => by
    simp only [Stmt.sexp, Stmt.ofSexp?, d.ofSexps?_sexps h]
    rfl
  | .classDecl _ none ds, h => by
    have methods := FunctionDecl.ofSexpAll?_sexpAll ds (legible_cons.1 h).2
    cases ds <;>
    · simp only [FunctionDecl.sexpAll] at methods
      simp only [Stmt.sexp, superclassSexps, FunctionDecl.sexpAll, List.nil_append, Stmt.ofSexp?,
        methods]
      rfl
  | .classDecl _ (some _) ds, h => by
    have methods := (legible_cons.1 (legible_cons.1 h).2).2
    simp only [Stmt.sexp, superclassSexps, List.cons_append, List.nil_append, Stmt.ofSexp?,
      FunctionDecl.ofSexpAll?_sexpAll ds methods]
    rfl

theorem FunctionDecl.ofSexps?_sexps : ∀ d : FunctionDecl ρ, Legible d.details →
    FunctionDecl.ofSexps? d.sexps = some d.plain
  | ⟨_, params, body⟩, h => by
    have parts := (legible_append.1 (legible_cons.1 (legible_cons.1 h).2).2).2
    simp only [FunctionDecl.sexps, FunctionDecl.ofSexps?, mapM_name? params,
      Stmt.ofSexpAll?_sexpAll body parts]
    rfl

theorem Stmt.ofSexpAll?_sexpAll : ∀ ss : List (Stmt ρ), Legible (Stmt.detailsAll ss) →
    Stmt.ofSexpAll? (Stmt.sexpAll ss) = some (Stmt.plainAll ss)
  | [], _ => rfl
  | s :: ss, h => by
    obtain ⟨first, rest⟩ := legible_append.1 h
    simp only [Stmt.sexpAll, Stmt.ofSexpAll?, s.ofSexp?_sexp first, Stmt.ofSexpAll?_sexpAll ss rest]
    rfl

theorem FunctionDecl.ofSexpAll?_sexpAll : ∀ ds : List (FunctionDecl ρ),
    Legible (FunctionDecl.detailsAll ds) →
    FunctionDecl.ofSexpAll? (FunctionDecl.sexpAll ds) = some (FunctionDecl.plainAll ds)
  | [], _ => rfl
  | d :: ds, h => by
    obtain ⟨first, rest⟩ := legible_append.1 h
    simp only [FunctionDecl.sexpAll, FunctionDecl.ofSexpAll?, d.ofSexps?_sexps first,
      FunctionDecl.ofSexpAll?_sexpAll ds rest]
    rfl

end

/-! ## Texts -/

/-- Legible expressions with the same text are the same, but for lines and marks. -/
theorem Expr.plain_eq_of_text {σ : Type} {e : Expr ρ} {e' : Expr σ} (h : Legible e.details)
    (h' : Legible e'.details) (same : e.text = e'.text) : e.plain = e'.plain := by
  have rendered : e.sexp.render = e'.sexp.render := by
    rw [← e.toList_text, ← e'.toList_text, same]
  exact Sexp.read_unique (e.sexp_proper h) (e'.sexp_proper h') rendered (e.ofSexp?_sexp h)
    (e'.ofSexp?_sexp h')

/-- Legible statements with the same text are the same, but for lines and marks. -/
theorem Stmt.plain_eq_of_text {σ : Type} {s : Stmt ρ} {s' : Stmt σ} (h : Legible s.details)
    (h' : Legible s'.details) (same : s.text = s'.text) : s.plain = s'.plain := by
  have rendered : s.sexp.render = s'.sexp.render := by
    rw [← s.toList_text, ← s'.toList_text, same]
  exact Sexp.read_unique (s.sexp_proper h) (s'.sexp_proper h') rendered (s.ofSexp?_sexp h)
    (s'.ofSexp?_sexp h')

end Lox
