import Lox.Proofs.Syntax.Marks
import Lox.Token.Basic

/-!
# The grammar

    program     → declaration* EOF
    declaration → classDecl | funDecl | varDecl | statement
    classDecl   → "class" IDENTIFIER ( "<" IDENTIFIER )? "{" function* "}"
    funDecl     → "fun" function
    function    → IDENTIFIER "(" parameters? ")" block
    parameters  → IDENTIFIER ( "," IDENTIFIER )*
    varDecl     → "var" IDENTIFIER ( "=" expression )? ";"
    statement   → exprStmt | forStmt | ifStmt | printStmt | returnStmt | whileStmt | block
    exprStmt    → expression ";"
    forStmt     → "for" "(" ( varDecl | exprStmt | ";" ) expression? ";" expression? ")" statement
    ifStmt      → "if" "(" expression ")" statement ( "else" statement )?
    printStmt   → "print" expression ";"
    returnStmt  → "return" expression? ";"
    whileStmt   → "while" "(" expression ")" statement
    block       → "{" declaration* "}"
    expression  → assignment
    assignment  → ( call "." )? IDENTIFIER "=" assignment | or
    or          → and ( "or" and )*
    and         → equality ( "and" equality )*
    equality    → comparison ( ( "!=" | "==" ) comparison )*
    comparison  → term ( ( ">" | ">=" | "<" | "<=" ) term )*
    term        → factor ( ( "-" | "+" ) factor )*
    factor      → unary ( ( "/" | "*" ) unary )*
    unary       → ( "!" | "-" ) unary | call
    call        → primary ( "(" arguments? ")" | "." IDENTIFIER )*
    arguments   → expression ( "," expression )*
    primary     → NUMBER | STRING | "true" | "false" | "nil" | "this" | IDENTIFIER
                | "(" expression ")" | "super" "." IDENTIFIER

There is one relation for each rule, between the tokens that it derives and the tree of the
derivation. Trees carry no marks. The rules know nothing of how tokens are parsed; that a list of
parameters or arguments has at most 255 members is part of them.
-/

namespace Lox

/-- The name that a token is. -/
def Token.asName (t : Token) : Name := ⟨t.lexeme, t.line⟩

/-- The tree without its marks. -/
def Expr.bare {ρ : Type} (e : Expr ρ) : Expr Unit := e.mapMarks fun _ _ => ()

/-- The tree without its marks. -/
def Stmt.bare {ρ : Type} (s : Stmt ρ) : Stmt Unit := s.mapMarks fun _ _ => ()

/-- The tree without its marks. -/
def FunctionDecl.bare {ρ : Type} (d : FunctionDecl ρ) : FunctionDecl Unit :=
  d.mapMarks fun _ _ => ()

section

variable {ρ : Type}

@[simp] theorem Expr.mapMarksAll_bare (es : List (Expr ρ)) :
    Expr.mapMarksAll (fun _ _ => ()) es = es.map Expr.bare :=
  Expr.mapMarksAll_eq_map _ es

@[simp] theorem Stmt.mapMarksAll_bare (ss : List (Stmt ρ)) :
    Stmt.mapMarksAll (fun _ _ => ()) ss = ss.map Stmt.bare :=
  Stmt.mapMarksAll_eq_map _ ss

@[simp] theorem FunctionDecl.mapMarksAll_bare (ds : List (FunctionDecl ρ)) :
    FunctionDecl.mapMarksAll (fun _ _ => ()) ds = ds.map FunctionDecl.bare :=
  FunctionDecl.mapMarksAll_eq_map _ ds

theorem Expr.bare_call (callee : Expr ρ) (line : Nat) (values : List (Expr ρ)) :
    (Expr.call callee line values).bare = .call callee.bare line (values.map Expr.bare) :=
  congrArg (Expr.call callee.bare line) (Expr.mapMarksAll_bare values)

theorem Stmt.bare_block (body : List (Stmt ρ)) :
    (Stmt.block body).bare = .block (body.map Stmt.bare) :=
  congrArg Stmt.block (Stmt.mapMarksAll_bare body)

theorem FunctionDecl.bare_mk (name : Name) (params : List Name) (body : List (Stmt ρ)) :
    (FunctionDecl.mk name params body).bare = ⟨name, params, body.map Stmt.bare⟩ :=
  congrArg (FunctionDecl.mk name params) (Stmt.mapMarksAll_bare body)

end

namespace Kind

variable {kind : Kind}

@[simp] theorem sameSort_symbol {symbol : Symbol} :
    kind.sameSort (.symbol symbol) = true ↔ kind = .symbol symbol := by
  cases kind with
  | symbol => exact beq_iff_eq.trans (Kind.symbol.injEq _ _).symm.to_iff
  | _ => exact ⟨fun same => absurd same Bool.false_ne_true, nofun⟩

@[simp] theorem sameSort_keyword {keyword : Keyword} :
    kind.sameSort (.keyword keyword) = true ↔ kind = .keyword keyword := by
  cases kind with
  | keyword => exact beq_iff_eq.trans (Kind.keyword.injEq _ _).symm.to_iff
  | _ => exact ⟨fun same => absurd same Bool.false_ne_true, nofun⟩

@[simp] theorem sameSort_identifier : kind.sameSort .identifier = true ↔ kind = .identifier := by
  cases kind with
  | identifier => exact ⟨fun _ => rfl, fun _ => rfl⟩
  | _ => exact ⟨fun same => absurd same Bool.false_ne_true, nofun⟩

@[simp] theorem sameSort_endOfInput :
    kind.sameSort .endOfInput = true ↔ kind = .endOfInput := by
  cases kind with
  | endOfInput => exact ⟨fun _ => rfl, fun _ => rfl⟩
  | _ => exact ⟨fun same => absurd same Bool.false_ne_true, nofun⟩

end Kind

namespace Grammar

/-- The most parameters or arguments in a list. -/
def listLimit : Nat := 255

/-! ## Expressions -/

/-- The levels of operators, the one that binds least first. -/
inductive Level where
  | or | and | equality | comparison | term | factor | unary
  deriving DecidableEq

/-- The level of the operands of a binary operator. -/
def Level.operand : Level → Level
  | or => and
  | and => equality
  | equality => comparison
  | comparison => term
  | term => factor
  | factor | unary => unary

/-- The tree of two operands with a token between them that is an operator of this level. -/
def Level.join? (l : Level) (t : Token) (left right : Expr Unit) : Option (Expr Unit) :=
  match l, t.kind with
  | or, .keyword .orKw => some (.logical .or left right)
  | and, .keyword .andKw => some (.logical .and left right)
  | equality, .symbol .bangEqual => some (.binary .notEqual t.line left right)
  | equality, .symbol .equalEqual => some (.binary .equal t.line left right)
  | comparison, .symbol .greater => some (.binary .greater t.line left right)
  | comparison, .symbol .greaterEqual => some (.binary .greaterEqual t.line left right)
  | comparison, .symbol .less => some (.binary .less t.line left right)
  | comparison, .symbol .lessEqual => some (.binary .lessEqual t.line left right)
  | term, .symbol .minus => some (.binary .subtract t.line left right)
  | term, .symbol .plus => some (.binary .add t.line left right)
  | factor, .symbol .slash => some (.binary .divide t.line left right)
  | factor, .symbol .star => some (.binary .multiply t.line left right)
  | _, _ => none

mutual

/-- The rules `expression` and `assignment`. The target is a variable or a property. -/
inductive Expression : List Token → Expr Unit → Prop
  | assignVariable {name equals : Token} {ts : List Token} {value : Expr Unit} :
    name.kind = .identifier → equals.kind = .symbol .equal → Expression ts value →
    Expression (name :: equals :: ts) (.assign ⟨name.asName, ()⟩ value)
  | assignProperty {dot name equals : Token} {ts ts' : List Token} {object value : Expr Unit} :
    Call ts object → dot.kind = .symbol .dot → name.kind = .identifier →
    equals.kind = .symbol .equal → Expression ts' value →
    Expression (ts ++ dot :: name :: equals :: ts') (.set object name.asName value)
  | operation {ts : List Token} {e : Expr Unit} : Operation .or ts e → Expression ts e

/-- The rules from `or` to `unary`. -/
inductive Operation : Level → List Token → Expr Unit → Prop
  | joined {l : Level} {ts ts' : List Token} {first e : Expr Unit} :
    l ≠ .unary → Operation l.operand ts first → Joined l first ts' e → Operation l (ts ++ ts') e
  | not {op : Token} {ts : List Token} {e : Expr Unit} :
    op.kind = .symbol .bang → Operation .unary ts e →
    Operation .unary (op :: ts) (.unary .not op.line e)
  | negate {op : Token} {ts : List Token} {e : Expr Unit} :
    op.kind = .symbol .minus → Operation .unary ts e →
    Operation .unary (op :: ts) (.unary .negate op.line e)
  | call {ts : List Token} {e : Expr Unit} : Call ts e → Operation .unary ts e

/-- Further operands of a level, each joined to the tree of all before it. -/
inductive Joined : Level → Expr Unit → List Token → Expr Unit → Prop
  | done {l : Level} {left : Expr Unit} : Joined l left [] left
  | more {l : Level} {op : Token} {ts ts' : List Token} {left right joined e : Expr Unit} :
    l.join? op left right = some joined → Operation l.operand ts right → Joined l joined ts' e →
    Joined l left (op :: ts ++ ts') e

/-- The rule `call`. -/
inductive Call : List Token → Expr Unit → Prop
  | of {ts ts' : List Token} {object e : Expr Unit} :
    Primary ts object → Suffixes object ts' e → Call (ts ++ ts') e

/-- Calls and properties of an object. -/
inductive Suffixes : Expr Unit → List Token → Expr Unit → Prop
  | done {object : Expr Unit} : Suffixes object [] object
  | call {opening closing : Token} {ts : List Token} {object e : Expr Unit} :
    opening.kind = .symbol .leftParen → closing.kind = .symbol .rightParen →
    Suffixes (.call object closing.line []) ts e → Suffixes object (opening :: closing :: ts) e
  | callWith {opening closing : Token} {ts ts' : List Token} {object e : Expr Unit}
    {values : List (Expr Unit)} :
    opening.kind = .symbol .leftParen → Arguments ts values → values.length ≤ listLimit →
    closing.kind = .symbol .rightParen → Suffixes (.call object closing.line values) ts' e →
    Suffixes object (opening :: ts ++ closing :: ts') e
  | property {dot name : Token} {ts : List Token} {object e : Expr Unit} :
    dot.kind = .symbol .dot → name.kind = .identifier →
    Suffixes (.get object name.asName) ts e → Suffixes object (dot :: name :: ts) e

/-- The rule `arguments`. -/
inductive Arguments : List Token → List (Expr Unit) → Prop
  | last {ts : List Token} {e : Expr Unit} : Expression ts e → Arguments ts [e]
  | more {comma : Token} {ts ts' : List Token} {e : Expr Unit} {es : List (Expr Unit)} :
    Expression ts e → comma.kind = .symbol .comma → Arguments ts' es →
    Arguments (ts ++ comma :: ts') (e :: es)

/-- The rule `primary`. -/
inductive Primary : List Token → Expr Unit → Prop
  | number {t : Token} {value : Float} :
    t.kind = .number value → Primary [t] (.literal (.number value))
  | string {t : Token} {value : String} :
    t.kind = .string value → Primary [t] (.literal (.string value))
  | true {t : Token} : t.kind = .keyword .trueKw → Primary [t] (.literal (.boolean Bool.true))
  | false {t : Token} : t.kind = .keyword .falseKw → Primary [t] (.literal (.boolean Bool.false))
  | nil {t : Token} : t.kind = .keyword .nilKw → Primary [t] (.literal .nil)
  | this {t : Token} : t.kind = .keyword .thisKw → Primary [t] (.this t.line ())
  | name {t : Token} : t.kind = .identifier → Primary [t] (.variable ⟨t.asName, ()⟩)
  | grouping {opening closing : Token} {ts : List Token} {e : Expr Unit} :
    opening.kind = .symbol .leftParen → Expression ts e → closing.kind = .symbol .rightParen →
    Primary (opening :: ts ++ [closing]) (.grouping e)
  | super {t dot name : Token} :
    t.kind = .keyword .superKw → dot.kind = .symbol .dot → name.kind = .identifier →
    Primary [t, dot, name] (.super t.line () name.asName)

end

/-- An expression that may be missing. -/
inductive Expression? : List Token → Option (Expr Unit) → Prop
  | none : Expression? [] none
  | some {ts : List Token} {e : Expr Unit} : Expression ts e → Expression? ts (some e)

/-! ## Statements -/

/-- The rule `parameters`. -/
inductive Parameters : List Token → List Name → Prop
  | last {name : Token} : name.kind = .identifier → Parameters [name] [name.asName]
  | more {name comma : Token} {ts : List Token} {names : List Name} :
    name.kind = .identifier → comma.kind = .symbol .comma → Parameters ts names →
    Parameters (name :: comma :: ts) (name.asName :: names)

/-- Parameters that may be missing. -/
inductive Parameters? : List Token → List Name → Prop
  | none : Parameters? [] []
  | some {ts : List Token} {names : List Name} :
    Parameters ts names → names.length ≤ listLimit → Parameters? ts names

/-- The superclass of a class, if it names one. -/
inductive Superclass? : List Token → Option (Reference Unit) → Prop
  | none : Superclass? [] none
  | some {less name : Token} : less.kind = .symbol .less → name.kind = .identifier →
    Superclass? [less, name] (some ⟨name.asName, ()⟩)

/-- The rule `varDecl`. -/
inductive VariableDecl : List Token → Stmt Unit → Prop
  | plain {var name semicolon : Token} :
    var.kind = .keyword .varKw → name.kind = .identifier →
    semicolon.kind = .symbol .semicolon →
    VariableDecl [var, name, semicolon] (.declare name.asName none)
  | initialized {var name equals semicolon : Token} {ts : List Token} {e : Expr Unit} :
    var.kind = .keyword .varKw → name.kind = .identifier → equals.kind = .symbol .equal →
    Expression ts e → semicolon.kind = .symbol .semicolon →
    VariableDecl (var :: name :: equals :: ts ++ [semicolon]) (.declare name.asName (some e))

/-- The rule `exprStmt`. -/
inductive ExpressionStmt : List Token → Stmt Unit → Prop
  | of {semicolon : Token} {ts : List Token} {e : Expr Unit} :
    Expression ts e → semicolon.kind = .symbol .semicolon →
    ExpressionStmt (ts ++ [semicolon]) (.expression e)

/-- The first clause of a `for` statement. -/
inductive ForInitializer : List Token → Option (Stmt Unit) → Prop
  | none {semicolon : Token} :
    semicolon.kind = .symbol .semicolon → ForInitializer [semicolon] none
  | variable {ts : List Token} {s : Stmt Unit} : VariableDecl ts s → ForInitializer ts (some s)
  | expression {ts : List Token} {s : Stmt Unit} :
    ExpressionStmt ts s → ForInitializer ts (some s)

/-- What the body of a `for` statement and its last clause stand for: both in a block. -/
def forBody (body : Stmt Unit) : Option (Expr Unit) → Stmt Unit
  | none => body
  | some increment => .block [body, .expression increment]

/-- What a `for` statement stands for: a loop, in a block with what its first clause declares. A
condition that is missing is true. -/
def forTree (initializer : Option (Stmt Unit)) (condition : Option (Expr Unit))
    (increment : Option (Expr Unit)) (body : Stmt Unit) : Stmt Unit :=
  let loop := .loop (condition.getD (.literal (.boolean true))) (forBody body increment)
  match initializer with
  | none => loop
  | some s => .block [s, loop]

mutual

/-- The rule `declaration`. In this rule and those below it, an `else` belongs to the nearest `if`
that it can belong to, if this is asked for, and to any otherwise. -/
inductive Declaration (nearest : Bool) : List Token → Stmt Unit → Prop
  | classDecl {word name opening closing : Token} {ts ts' : List Token}
    {parent : Option (Reference Unit)} {methods : List (FunctionDecl Unit)} :
    word.kind = .keyword .classKw → name.kind = .identifier → Superclass? ts parent →
    opening.kind = .symbol .leftBrace → Functions nearest ts' methods →
    closing.kind = .symbol .rightBrace →
    Declaration nearest (word :: name :: ts ++ opening :: ts' ++ [closing])
      (.classDecl name.asName parent methods)
  | function {word : Token} {ts : List Token} {d : FunctionDecl Unit} :
    word.kind = .keyword .funKw → Function nearest ts d →
    Declaration nearest (word :: ts) (.function d)
  | variable {ts : List Token} {s : Stmt Unit} : VariableDecl ts s → Declaration nearest ts s
  | statement {isOpen : Bool} {ts : List Token} {s : Stmt Unit} :
    Statement nearest isOpen ts s → Declaration nearest ts s

/-- Declarations one after the other. -/
inductive Declarations (nearest : Bool) : List Token → List (Stmt Unit) → Prop
  | none : Declarations nearest [] []
  | more {ts ts' : List Token} {s : Stmt Unit} {ss : List (Stmt Unit)} :
    Declaration nearest ts s → Declarations nearest ts' ss →
    Declarations nearest (ts ++ ts') (s :: ss)

/-- The rule `block`. -/
inductive Block (nearest : Bool) : List Token → List (Stmt Unit) → Prop
  | of {opening closing : Token} {ts : List Token} {ss : List (Stmt Unit)} :
    opening.kind = .symbol .leftBrace → Declarations nearest ts ss →
    closing.kind = .symbol .rightBrace → Block nearest (opening :: ts ++ [closing]) ss

/-- The rule `function`. -/
inductive Function (nearest : Bool) : List Token → FunctionDecl Unit → Prop
  | of {name opening closing : Token} {ts ts' : List Token} {names : List Name}
    {body : List (Stmt Unit)} :
    name.kind = .identifier → opening.kind = .symbol .leftParen → Parameters? ts names →
    closing.kind = .symbol .rightParen → Block nearest ts' body →
    Function nearest (name :: opening :: ts ++ closing :: ts') ⟨name.asName, names, body⟩

/-- Functions one after the other. -/
inductive Functions (nearest : Bool) : List Token → List (FunctionDecl Unit) → Prop
  | none : Functions nearest [] []
  | more {ts ts' : List Token} {d : FunctionDecl Unit} {ds : List (FunctionDecl Unit)} :
    Function nearest ts d → Functions nearest ts' ds → Functions nearest (ts ++ ts') (d :: ds)

/-- The rule `statement`. A statement is open if it ends in an `if` without `else`, so that an
`else` behind it can belong to that. -/
inductive Statement (nearest : Bool) : (isOpen : Bool) → List Token → Stmt Unit → Prop
  | expression {ts : List Token} {s : Stmt Unit} :
    ExpressionStmt ts s → Statement nearest false ts s
  | forStmt {isOpen : Bool} {word opening semicolon closing : Token} {ts₁ ts₂ ts₃ ts₄ : List Token}
    {initializer : Option (Stmt Unit)} {condition increment : Option (Expr Unit)}
    {body : Stmt Unit} :
    word.kind = .keyword .forKw → opening.kind = .symbol .leftParen →
    ForInitializer ts₁ initializer → Expression? ts₂ condition →
    semicolon.kind = .symbol .semicolon → Expression? ts₃ increment →
    closing.kind = .symbol .rightParen → Statement nearest isOpen ts₄ body →
    Statement nearest isOpen
      (word :: opening :: ts₁ ++ ts₂ ++ semicolon :: ts₃ ++ closing :: ts₄)
      (forTree initializer condition increment body)
  | ifThen {isOpen : Bool} {word opening closing : Token} {ts ts' : List Token}
    {condition : Expr Unit} {s : Stmt Unit} :
    word.kind = .keyword .ifKw → opening.kind = .symbol .leftParen → Expression ts condition →
    closing.kind = .symbol .rightParen → Statement nearest isOpen ts' s →
    Statement nearest true (word :: opening :: ts ++ closing :: ts')
      (.conditional condition s none)
  | ifElse {isOpen isOpen' : Bool} {word opening closing word' : Token}
    {ts ts' ts'' : List Token} {condition : Expr Unit} {s s' : Stmt Unit} :
    word.kind = .keyword .ifKw → opening.kind = .symbol .leftParen → Expression ts condition →
    closing.kind = .symbol .rightParen → Statement nearest isOpen ts' s →
    (nearest = true → isOpen = false) → word'.kind = .keyword .elseKw →
    Statement nearest isOpen' ts'' s' →
    Statement nearest isOpen' (word :: opening :: ts ++ closing :: ts' ++ word' :: ts'')
      (.conditional condition s (some s'))
  | print {word semicolon : Token} {ts : List Token} {e : Expr Unit} :
    word.kind = .keyword .printKw → Expression ts e → semicolon.kind = .symbol .semicolon →
    Statement nearest false (word :: ts ++ [semicolon]) (.print e)
  | ret {word semicolon : Token} {ts : List Token} {value : Option (Expr Unit)} :
    word.kind = .keyword .returnKw → Expression? ts value →
    semicolon.kind = .symbol .semicolon →
    Statement nearest false (word :: ts ++ [semicolon]) (.ret word.line value)
  | whileStmt {isOpen : Bool} {word opening closing : Token} {ts ts' : List Token}
    {condition : Expr Unit} {body : Stmt Unit} :
    word.kind = .keyword .whileKw → opening.kind = .symbol .leftParen →
    Expression ts condition → closing.kind = .symbol .rightParen →
    Statement nearest isOpen ts' body →
    Statement nearest isOpen (word :: opening :: ts ++ closing :: ts') (.loop condition body)
  | block {ts : List Token} {ss : List (Stmt Unit)} :
    Block nearest ts ss → Statement nearest false ts (.block ss)

end

/-- The rule `program`. -/
inductive Program (nearest : Bool) : List Token → List (Stmt Unit) → Prop
  | of {ending : Token} {ts : List Token} {ss : List (Stmt Unit)} :
    Declarations nearest ts ss → ending.kind = .endOfInput → Program nearest (ts ++ [ending]) ss

/-! ## First tokens -/

/-- The first of the tokens is of a kind that `p` holds of. -/
def Begins (p : Kind → Bool) (ts : List Token) : Prop := ∃ t ∈ ts.head?, p t.kind = true

section

variable {p q : Kind → Bool} {t : Token} {ts ts' : List Token}

@[simp] theorem begins_cons : Begins p (t :: ts) ↔ p t.kind = true := by simp [Begins]

@[simp] theorem not_begins_nil : ¬ Begins p [] := by simp [Begins]

theorem begins_of_kind {kind : Kind} (is : t.kind = kind) (begins : p kind = true) :
    Begins p (t :: ts) := by
  rw [begins_cons, is, begins]

theorem Begins.append (h : Begins p ts) (ts' : List Token) : Begins p (ts ++ ts') := by
  cases ts with
  | nil => simp at h
  | cons t ts => simpa using h

theorem not_begins_append (first : ¬ Begins p ts) (second : ¬ Begins p ts') :
    ¬ Begins p (ts ++ ts') := by
  cases ts with
  | nil => exact second
  | cons t ts => simpa using first

theorem not_begins_flatten {lists : List (List Token)} (h : ∀ ts ∈ lists, ¬ Begins p ts) :
    ¬ Begins p lists.flatten := by
  induction lists with
  | nil => exact not_begins_nil
  | cons ts lists ih =>
    rw [List.forall_mem_cons] at h
    exact not_begins_append h.1 (ih h.2)

theorem Begins.ne_nil (h : Begins p ts) : ts ≠ [] := by
  rintro rfl
  simp at h

theorem Begins.length_pos (h : Begins p ts) : 0 < ts.length := List.length_pos_iff.2 h.ne_nil

theorem Begins.mono (h : Begins p ts) (imp : ∀ k, p k = true → q k = true) : Begins q ts := by
  obtain ⟨t, mem, holds⟩ := h
  exact ⟨t, mem, imp _ holds⟩

theorem Begins.not_symbol {symbol : Symbol} (h : Begins p ts) (other : p (.symbol symbol) = false) :
    ¬ Begins (·.sameSort (.symbol symbol)) ts := by
  obtain ⟨t, mem, holds⟩ := h
  rintro ⟨u, mem', same⟩
  obtain rfl := Option.mem_unique mem mem'
  rw [Kind.sameSort_symbol.1 same, other] at holds
  exact Bool.false_ne_true holds

theorem Begins.not_keyword {keyword : Keyword} (h : Begins p ts)
    (other : p (.keyword keyword) = false) : ¬ Begins (·.sameSort (.keyword keyword)) ts := by
  obtain ⟨t, mem, holds⟩ := h
  rintro ⟨u, mem', same⟩
  obtain rfl := Option.mem_unique mem mem'
  rw [Kind.sameSort_keyword.1 same, other] at holds
  exact Bool.false_ne_true holds

theorem Begins.notEnd (h : Begins p ts) (other : p .endOfInput = false) :
    (ts.headD Token.missingEnd).isEnd = false := by
  obtain ⟨t, rest, rfl⟩ := List.exists_cons_of_ne_nil h.ne_nil
  cases isEnd : t.isEnd with
  | false => exact isEnd
  | true =>
    have kind : t.kind = .endOfInput := Kind.sameSort_endOfInput.1 isEnd
    rw [begins_cons, kind, other] at h
    exact absurd h Bool.false_ne_true

end

/-- A call can begin with a token of this kind. -/
def beginsCall : Kind → Bool
  | .number _ | .string _ | .identifier => true
  | .keyword .trueKw | .keyword .falseKw | .keyword .nilKw => true
  | .keyword .thisKw | .keyword .superKw => true
  | .symbol .leftParen => true
  | _ => false

/-- An expression can begin with a token of this kind. -/
def beginsExpression : Kind → Bool
  | .symbol .bang | .symbol .minus => true
  | kind => beginsCall kind

/-- A statement can begin with a token of this kind. -/
def beginsStatement : Kind → Bool
  | .keyword .forKw | .keyword .ifKw | .keyword .whileKw => true
  | .keyword .printKw | .keyword .returnKw => true
  | .symbol .leftBrace => true
  | kind => beginsExpression kind

/-- A declaration can begin with a token of this kind. -/
def beginsDeclaration : Kind → Bool
  | .keyword .classKw | .keyword .funKw | .keyword .varKw => true
  | kind => beginsStatement kind

theorem beginsDeclaration_of_beginsStatement {kind : Kind} (h : beginsStatement kind = true) :
    beginsDeclaration kind = true := by
  unfold beginsDeclaration
  split
  all_goals first | rfl | exact h

theorem beginsExpression_of_beginsCall {kind : Kind} (h : beginsCall kind = true) :
    beginsExpression kind = true := by
  unfold beginsExpression
  split
  all_goals first | rfl | exact h

theorem beginsStatement_of_beginsExpression {kind : Kind} (h : beginsExpression kind = true) :
    beginsStatement kind = true := by
  unfold beginsStatement
  split
  all_goals first | rfl | exact h

theorem Primary.begins {ts : List Token} {e : Expr Unit} (h : Primary ts e) :
    Begins beginsCall ts := by
  cases h with
  | _ kind => exact begins_of_kind kind rfl

theorem Call.begins {ts : List Token} {e : Expr Unit} (h : Call ts e) : Begins beginsCall ts := by
  cases h with
  | of object => exact object.begins.append _

theorem Operation.begins : ∀ {l : Level} {ts : List Token} {e : Expr Unit},
    Operation l ts e → Begins beginsExpression ts
  | _, _, _, .joined _ first _ => first.begins.append _
  | _, _, _, .not kind _ => begins_of_kind kind rfl
  | _, _, _, .negate kind _ => begins_of_kind kind rfl
  | _, _, _, .call c => c.begins.mono fun _ => beginsExpression_of_beginsCall

theorem Expression.begins {ts : List Token} {e : Expr Unit} (h : Expression ts e) :
    Begins beginsExpression ts := by
  cases h with
  | assignVariable kind => exact begins_of_kind kind rfl
  | assignProperty object =>
    exact (object.begins.mono fun _ => beginsExpression_of_beginsCall).append _
  | operation o => exact o.begins

theorem Arguments.begins {ts : List Token} {es : List (Expr Unit)} (h : Arguments ts es) :
    Begins beginsExpression ts := by
  cases h with
  | last e => exact e.begins
  | more e => exact e.begins.append _

theorem Parameters.begins {ts : List Token} {names : List Name} (h : Parameters ts names) :
    Begins (·.sameSort .identifier) ts := by
  cases h with
  | last kind => exact begins_of_kind kind rfl
  | more kind => exact begins_of_kind kind rfl

theorem VariableDecl.begins {ts : List Token} {s : Stmt Unit} (h : VariableDecl ts s) :
    Begins (·.sameSort (.keyword .varKw)) ts := by
  cases h with
  | plain kind => exact begins_of_kind kind rfl
  | initialized kind => exact begins_of_kind kind rfl

theorem ExpressionStmt.begins {ts : List Token} {s : Stmt Unit} (h : ExpressionStmt ts s) :
    Begins beginsExpression ts := by
  cases h with
  | of e => exact e.begins.append _

theorem Block.begins {nearest : Bool} {ts : List Token} {ss : List (Stmt Unit)}
    (h : Block nearest ts ss) : Begins (·.sameSort (.symbol .leftBrace)) ts := by
  cases h with
  | of kind => exact begins_of_kind kind rfl

theorem Function.begins {nearest : Bool} {ts : List Token} {d : FunctionDecl Unit}
    (h : Function nearest ts d) : Begins (·.sameSort .identifier) ts := by
  cases h with
  | of kind => exact begins_of_kind kind rfl

theorem Statement.begins {nearest isOpen : Bool} {ts : List Token} {s : Stmt Unit}
    (h : Statement nearest isOpen ts s) : Begins beginsStatement ts := by
  cases h with
  | expression e => exact e.begins.mono fun _ => beginsStatement_of_beginsExpression
  | block b =>
    refine b.begins.mono fun k same => ?_
    rw [Kind.sameSort_symbol.1 same]
    rfl
  | forStmt kind => exact begins_of_kind kind rfl
  | ifThen kind => exact begins_of_kind kind rfl
  | ifElse kind => exact begins_of_kind kind rfl
  | print kind => exact begins_of_kind kind rfl
  | ret kind => exact begins_of_kind kind rfl
  | whileStmt kind => exact begins_of_kind kind rfl

theorem Declaration.begins {nearest : Bool} {ts : List Token} {s : Stmt Unit}
    (h : Declaration nearest ts s) : Begins beginsDeclaration ts := by
  cases h with
  | classDecl kind => exact begins_of_kind kind rfl
  | function kind => exact begins_of_kind kind rfl
  | «variable» d =>
    refine d.begins.mono fun k same => ?_
    rw [Kind.sameSort_keyword.1 same]
    rfl
  | statement s => exact s.begins.mono fun _ => beginsDeclaration_of_beginsStatement

/-- Neither declarations nor what can follow them begin with an `else`. -/
theorem Declarations.not_else {nearest : Bool} {ts follow : List Token} {ss : List (Stmt Unit)}
    (h : Declarations nearest ts ss) (next : ¬ Begins (·.sameSort (.keyword .elseKw)) follow) :
    ¬ Begins (·.sameSort (.keyword .elseKw)) (ts ++ follow) := by
  cases h with
  | none => exact next
  | more first => exact ((first.begins.append _).append _).not_keyword rfl

/-! ## Assignment targets

An assignment is parsed by reading its target as an operation. What derives a variable or a property
as an operation is what the rule `assignment` has in front of the equals sign. -/

/-- The tree has an operator at its root. -/
def isOperation : Expr Unit → Bool
  | .unary .. | .binary .. | .logical .. => true
  | _ => false

/-- What joins two operands is a binary or a logical operator. -/
theorem Level.join?_eq_some {l : Level} {t : Token} {left right e : Expr Unit}
    (h : l.join? t left right = some e) :
    (∃ op, e = .binary op t.line left right) ∨ ∃ op, e = .logical op left right := by
  unfold Level.join? at h
  split at h
  all_goals cases h
  · exact .inr ⟨.or, rfl⟩
  · exact .inr ⟨.and, rfl⟩
  all_goals exact .inl ⟨_, rfl⟩

theorem isOperation_of_join? {l : Level} {t : Token} {left right e : Expr Unit}
    (h : l.join? t left right = some e) : isOperation e = true := by
  obtain ⟨op, rfl⟩ | ⟨op, rfl⟩ := Level.join?_eq_some h
  · rfl
  · rfl

theorem Joined.operation_of : ∀ {l : Level} {left e : Expr Unit} {ts : List Token},
    Joined l left ts e → isOperation left = true → isOperation e = true
  | _, _, _, _, .done, h => h
  | _, _, _, _, .more join _ rest, _ => rest.operation_of (isOperation_of_join? join)

theorem Joined.eq_done {l : Level} {left e : Expr Unit} {ts : List Token}
    (h : Joined l left ts e) (plain : isOperation e = false) : ts = [] ∧ e = left := by
  cases h with
  | done => exact ⟨rfl, rfl⟩
  | more join _ rest =>
    rw [rest.operation_of (isOperation_of_join? join)] at plain
    cases plain

theorem Operation.toCall : ∀ {l : Level} {ts : List Token} {e : Expr Unit},
    Operation l ts e → isOperation e = false → Call ts e
  | _, _, _, .joined _ first rest, plain => by
    obtain ⟨none, same⟩ := rest.eq_done plain
    have call := first.toCall (same ▸ plain)
    rw [none, same, List.append_nil]
    exact call
  | _, _, _, .call c, _ => c

/-- What is derived at the level that binds most is derived at every level. -/
theorem Operation.weaken {ts : List Token} {e : Expr Unit} (h : Operation .unary ts e) :
    ∀ l : Level, Operation l ts e := by
  have step {l : Level} (binary : l ≠ .unary) (operand : Operation l.operand ts e) :
      Operation l ts e := by
    rw [← List.append_nil ts]
    exact .joined binary operand .done
  have factor : Operation .factor ts e := step (by decide) h
  have term : Operation .term ts e := step (by decide) factor
  have comparison : Operation .comparison ts e := step (by decide) term
  have equality : Operation .equality ts e := step (by decide) comparison
  have and : Operation .and ts e := step (by decide) equality
  have or : Operation .or ts e := step (by decide) and
  intro l
  cases l <;> assumption

theorem Call.toOperation {ts : List Token} {e : Expr Unit} (h : Call ts e) :
    ∀ l : Level, Operation l ts e :=
  (Operation.call h).weaken

theorem Suffixes.property_after {dot name : Token} (isDot : dot.kind = .symbol .dot)
    (isName : name.kind = .identifier) : ∀ {object e : Expr Unit} {ts : List Token},
    Suffixes object ts e → Suffixes object (ts ++ [dot, name]) (.get e name.asName)
  | _, _, _, .done => .property isDot isName .done
  | _, _, _, .call opens closes rest => .call opens closes (rest.property_after isDot isName)
  | _, _, _, .callWith opens arguments limit closes rest => by
    rw [List.append_assoc]
    exact .callWith opens arguments limit closes (rest.property_after isDot isName)
  | _, _, _, .property isDot' isName' rest =>
    .property isDot' isName' (rest.property_after isDot isName)

/-- A property of what a call derives. -/
theorem Call.property_after {dot name : Token} {ts : List Token} {e : Expr Unit} (h : Call ts e)
    (isDot : dot.kind = .symbol .dot) (isName : name.kind = .identifier) :
    Call (ts ++ [dot, name]) (.get e name.asName) := by
  cases h with
  | of first rest =>
    rw [List.append_assoc]
    exact .of first (rest.property_after isDot isName)

theorem Suffixes.eq_variable : ∀ {object e : Expr Unit} {ts : List Token} {x : Reference Unit},
    Suffixes object ts e → e = .variable x → object = .variable x ∧ ts = []
  | _, _, _, _, .done, same => ⟨same, rfl⟩
  | _, _, _, _, .call _ _ rest, same => nomatch (rest.eq_variable same).1
  | _, _, _, _, .callWith _ _ _ _ rest, same => nomatch (rest.eq_variable same).1
  | _, _, _, _, .property _ _ rest, same => nomatch (rest.eq_variable same).1

/-- A property is the object itself or its last suffix. -/
theorem Suffixes.eq_property : ∀ {object e o : Expr Unit} {ts : List Token} {p : Name},
    Suffixes object ts e → e = .get o p → (object = .get o p ∧ ts = []) ∨
      ∃ (ts' : List Token) (dot name : Token), ts = ts' ++ [dot, name] ∧ Suffixes object ts' o ∧
        dot.kind = .symbol .dot ∧ name.kind = .identifier ∧ p = name.asName
  | _, _, _, _, _, .done, same => .inl ⟨same, rfl⟩
  | _, _, _, _, _, .call opens closes rest, same => by
    obtain ⟨impossible, _⟩ | ⟨ts', dot, name, last, before, isDot, isName, named⟩ :=
      rest.eq_property same
    · cases impossible
    · exact .inr ⟨_, dot, name, by rw [last]; rfl, .call opens closes before, isDot, isName, named⟩
  | _, _, _, _, _, .callWith opens arguments limit closes rest, same => by
    obtain ⟨impossible, _⟩ | ⟨ts', dot, name, last, before, isDot, isName, named⟩ :=
      rest.eq_property same
    · cases impossible
    · exact .inr ⟨_, dot, name, by rw [last]; simp, .callWith opens arguments limit closes before,
        isDot, isName, named⟩
  | _, _, _, _, _, .property isDot isName rest, same => by
    obtain ⟨own, none⟩ | ⟨ts', dot', name', last, before, isDot', isName', named⟩ :=
      rest.eq_property same
    · cases own
      exact .inr ⟨[], _, _, by rw [none]; rfl, .done, isDot, isName, rfl⟩
    · exact .inr ⟨_, dot', name', by rw [last]; rfl, .property isDot isName before, isDot', isName',
        named⟩

theorem Operation.eq_variable {l : Level} {ts : List Token} {x : Reference Unit}
    (h : Operation l ts (.variable x)) :
    ∃ t : Token, ts = [t] ∧ t.kind = .identifier ∧ x = ⟨t.asName, ()⟩ := by
  cases h.toCall rfl with
  | of first rest =>
    obtain ⟨rfl, rfl⟩ := rest.eq_variable rfl
    cases first with
    | name kind => exact ⟨_, rfl, kind, rfl⟩

theorem Operation.eq_property {l : Level} {ts : List Token} {o : Expr Unit} {p : Name}
    (h : Operation l ts (.get o p)) :
    ∃ (ts' : List Token) (dot name : Token), ts = ts' ++ [dot, name] ∧ Call ts' o ∧
      dot.kind = .symbol .dot ∧ name.kind = .identifier ∧ p = name.asName := by
  cases h.toCall rfl with
  | of first rest =>
    obtain ⟨rfl, _⟩ | ⟨ts', dot, name, rfl, before, isDot, isName, rfl⟩ := rest.eq_property rfl
    · cases first
    · exact ⟨_, dot, name, (List.append_assoc _ _ _).symm, .of first before, isDot, isName, rfl⟩

end Grammar

end Lox
