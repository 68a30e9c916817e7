import Lox.Proofs.Decimal.Trees
import Lox.Proofs.Syntax.Details
import Lox.Proofs.Syntax.Prefix

/-!
# Legible trees

A tree is legible if all its details are told from one another by their texts: names are those of
identifiers, numbers are finite and not negative, and no literal is a string. In prefix notation it
has nothing but words at its leaves.
-/

namespace Lox

open Lexer (Matches)
open Sexp (Proper ProperAll isWord_iff inWord)

variable {ρ : Type}

/-- The text is that of an identifier. -/
def IsName (text : String) : Prop := Matches (.token .identifier) text.toList

/-- The detail is told from all others by its text: a name is that of an identifier, and a literal
is a word that stands for itself. -/
def Detail.Legible : Detail ρ → Prop
  | .reference .variable target => IsName target.name.text
  | .name written => IsName written.text
  | .literal (.number value) => value.isFinite = true ∧ Decimal.isNegative value = false
  | .literal (.string _) => False
  | .literal (.boolean _) | .literal .nil | .reference .this _ | .reference .super _ | .branch _
  | .list _ => True

/-- All details are legible. -/
def Legible (details : List (Detail ρ)) : Prop := ∀ d ∈ details, d.Legible

theorem legible_cons {d : Detail ρ} {ds : List (Detail ρ)} :
    Legible (d :: ds) ↔ d.Legible ∧ Legible ds :=
  List.forall_mem_cons

theorem legible_append {ds ds' : List (Detail ρ)} :
    Legible (ds ++ ds') ↔ Legible ds ∧ Legible ds' :=
  List.forall_mem_append

/-! ## Words -/

theorem inWord_of_isWordPart {c : Char} (part : Lexer.isWordPart c = true) :
    Sexp.inWord c = true := by
  have others : c ≠ ' ' ∧ c ≠ '(' ∧ c ≠ ')' := by
    refine ⟨?_, ?_, ?_⟩ <;>
    · rintro rfl
      cases part
  simp [Sexp.inWord, others]

theorem inWord_of_isDigit {c : Char} (digit : c.isDigit = true) : Sexp.inWord c = true := by
  apply inWord_of_isWordPart
  rw [Lexer.isWordPart, Char.isAlphanum, digit, Bool.or_true, Bool.true_or]

theorem isWord_of_isName {text : String} (named : IsName text) : Sexp.IsWord text := by
  refine ⟨named.ne_nil, ?_⟩
  cases named with
  | identifier word => exact fun c mem => inWord_of_isWordPart (word.parts c mem)

/-- Digits and a point are a word. -/
theorem isWord_of_number {value : Float} {text : String}
    (spelled : Matches (.token (.number value)) text.toList) : Sexp.IsWord text := by
  refine ⟨spelled.ne_nil, ?_⟩
  generalize text.toList = letters at spelled
  cases spelled with
  | integer whole => exact fun c mem => inWord_of_isDigit (whole.digits c mem)
  | decimal whole fraction =>
    intro c mem
    rcases List.mem_append.1 mem with mem | mem
    · exact inWord_of_isDigit (whole.digits c mem)
    · rcases List.mem_cons.1 mem with rfl | mem
      · rfl
      · exact inWord_of_isDigit (fraction.digits c mem)

theorem isWord_literal {value : Literal} (h : (.literal value : Detail ρ).Legible) :
    Sexp.IsWord value.text := by
  cases value with
  | number x => exact isWord_of_number (Number.tree_matches h.1 h.2)
  | string text => exact h.elim
  | boolean value => cases value <;> simp [Literal.text, isWord_iff, inWord]
  | nil => simp [Literal.text, isWord_iff, inWord]

theorem UnaryOp.isWord_symbol (op : UnaryOp) : Sexp.IsWord op.symbol := by
  cases op <;> simp [UnaryOp.symbol, isWord_iff, inWord]

theorem BinaryOp.isWord_symbol (op : BinaryOp) : Sexp.IsWord op.symbol := by
  cases op <;> simp [BinaryOp.symbol, isWord_iff, inWord]

theorem LogicalOp.isWord_symbol (op : LogicalOp) : Sexp.IsWord op.symbol := by
  cases op <;> simp [LogicalOp.symbol, isWord_iff, inWord]

/-! ## Nodes -/

/-- The words that nodes begin with, but for operators. -/
def heads : List String :=
  ["group", "=", "call", ".", ".=", "super", ";", "print", "var", "block", "if", "while", "fun",
    "return", "class", "<", "method"]

theorem isWord_head {text : String} (h : text ∈ heads) : Sexp.IsWord text := by
  revert text
  simp [heads, isWord_iff, inWord]

mutual

/-- What is a leaf of a legible tree is a word in prefix notation. -/
theorem Expr.sexp_proper : ∀ e : Expr ρ, Legible e.details → e.sexp.Proper
  | .literal _, h => isWord_literal (legible_cons.1 h).1
  | .variable _, h => isWord_of_isName (legible_cons.1 h).1
  | .this _ _, _ => by simp [Expr.sexp, Proper, thisName, isWord_iff, inWord]
  | .grouping e, h => ⟨isWord_head (by simp [heads]), e.sexp_proper h, trivial⟩
  | .unary op _ e, h => ⟨op.isWord_symbol, e.sexp_proper h, trivial⟩
  | .binary op _ l r, h =>
    have ⟨hl, hr⟩ := legible_append.1 h
    ⟨op.isWord_symbol, l.sexp_proper hl, r.sexp_proper hr, trivial⟩
  | .logical op l r, h =>
    have ⟨hl, hr⟩ := legible_append.1 h
    ⟨op.isWord_symbol, l.sexp_proper hl, r.sexp_proper hr, trivial⟩
  | .assign _ e, h =>
    have ⟨named, value⟩ := legible_cons.1 h
    ⟨isWord_head (by simp [heads]), isWord_of_isName named, e.sexp_proper value, trivial⟩
  | .call e _ es, h =>
    have ⟨callee, arguments⟩ := legible_append.1 (legible_cons.1 h).2
    ⟨isWord_head (by simp [heads]), e.sexp_proper callee, Expr.sexpAll_proper es arguments⟩
  | .get e _, h =>
    have ⟨named, object⟩ := legible_cons.1 h
    ⟨isWord_head (by simp [heads]), e.sexp_proper object, isWord_of_isName named, trivial⟩
  | .set l _ r, h =>
    have ⟨named, parts⟩ := legible_cons.1 h
    have ⟨hl, hr⟩ := legible_append.1 parts
    ⟨isWord_head (by simp [heads]), l.sexp_proper hl, isWord_of_isName named, r.sexp_proper hr,
      trivial⟩
  | .super _ _ _, h =>
    have named := (legible_cons.1 (legible_cons.1 h).2).1
    ⟨isWord_head (by simp [heads]), isWord_of_isName named, trivial⟩

theorem Expr.sexpAll_proper : ∀ es : List (Expr ρ), Legible (Expr.detailsAll es) →
    ProperAll (Expr.sexpAll es)
  | [], _ => trivial
  | e :: es, h =>
    have ⟨first, rest⟩ := legible_append.1 h
    ⟨e.sexp_proper first, Expr.sexpAll_proper es rest⟩

end

theorem Expr.sexp?_proper {e? : Option (Expr ρ)} (h : Legible (Expr.details? e?)) :
    ProperAll (Expr.sexp? e?) := by
  cases e? with
  | none => trivial
  | some e => exact ⟨e.sexp_proper h, trivial⟩

theorem names_proper {names : List Name} (h : Legible (names.map (.name : Name → Detail ρ))) :
    ProperAll (names.map Name.sexp) := by
  induction names with
  | nil => trivial
  | cons name names ih =>
    obtain ⟨first, rest⟩ := legible_cons.1 h
    exact ⟨isWord_of_isName first, ih rest⟩

theorem superclassSexps_append {superclass : Option (Reference ρ)} {xs : List Sexp}
    (h : Legible (superclass.toList.map (Detail.reference .variable))) (hx : ProperAll xs) :
    ProperAll (superclassSexps superclass ++ xs) := by
  cases superclass with
  | none => exact hx
  | some superclass =>
    exact ⟨isWord_head (by simp [heads]), isWord_of_isName (legible_cons.1 h).1, hx⟩

mutual

theorem Stmt.sexp_proper : ∀ s : Stmt ρ, Legible s.details → s.sexp.Proper
  | .expression e, h | .print e, h => ⟨isWord_head (by simp [heads]), e.sexp_proper h, trivial⟩
  | .declare _ _, h =>
    have ⟨named, initializer⟩ := legible_cons.1 h
    ⟨isWord_head (by simp [heads]), isWord_of_isName named, Expr.sexp?_proper initializer⟩
  | .block ss, h => ⟨isWord_head (by simp [heads]), Stmt.sexpAll_proper ss h⟩
  | .conditional c s none, h =>
    have ⟨condition, thenBranch⟩ := legible_append.1 (legible_cons.1 h).2
    ⟨isWord_head (by simp [heads]), c.sexp_proper condition, s.sexp_proper thenBranch, trivial⟩
  | .conditional c s (some s'), h =>
    have ⟨front, elseBranch⟩ := legible_append.1 (legible_cons.1 (legible_cons.1 h).2).2
    have ⟨condition, thenBranch⟩ := legible_append.1 front
    ⟨isWord_head (by simp [heads]), c.sexp_proper condition, s.sexp_proper thenBranch,
      s'.sexp_proper elseBranch, trivial⟩
  | .loop c s, h =>
    have ⟨condition, body⟩ := legible_append.1 (legible_cons.1 h).2
    ⟨isWord_head (by simp [heads]), c.sexp_proper condition, s.sexp_proper body, trivial⟩
  | .function d, h => ⟨isWord_head (by simp [heads]), d.sexps_proper h⟩
  | .ret _ _, h => ⟨isWord_head (by simp [heads]), Expr.sexp?_proper h⟩
  | .classDecl _ _ ds, h =>
    have ⟨named, parts⟩ := legible_cons.1 h
    have ⟨parent, methods⟩ := legible_append.1 parts
    ⟨isWord_head (by simp [heads]), isWord_of_isName named,
      superclassSexps_append parent (FunctionDecl.sexpAll_proper ds methods)⟩

theorem FunctionDecl.sexps_proper : ∀ d : FunctionDecl ρ, Legible d.details → ProperAll d.sexps
  | ⟨_, _, body⟩, h =>
    have ⟨named, parts⟩ := legible_cons.1 h
    have ⟨names, statements⟩ := legible_append.1 (legible_cons.1 parts).2
    ⟨isWord_of_isName named, names_proper names, Stmt.sexpAll_proper body statements⟩

theorem Stmt.sexpAll_proper : ∀ ss : List (Stmt ρ), Legible (Stmt.detailsAll ss) →
    ProperAll (Stmt.sexpAll ss)
  | [], _ => trivial
  | s :: ss, h =>
    have ⟨first, rest⟩ := legible_append.1 h
    ⟨s.sexp_proper first, Stmt.sexpAll_proper ss rest⟩

theorem FunctionDecl.sexpAll_proper : ∀ ds : List (FunctionDecl ρ),
    Legible (FunctionDecl.detailsAll ds) → ProperAll (FunctionDecl.sexpAll ds)
  | [], _ => trivial
  | d :: ds, h =>
    have ⟨first, rest⟩ := legible_append.1 h
    ⟨⟨isWord_head (by simp [heads]), d.sexps_proper first⟩, FunctionDecl.sexpAll_proper ds rest⟩

end

end Lox
