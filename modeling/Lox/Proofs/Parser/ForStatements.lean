import Lox.Proofs.Parser.SingleExpression
import Lox.Proofs.Syntax.Shape

/-!
# `for` statements

A `for` statement and the `while` loop that it stands for, as tokens and as a tree. Whatever tokens
its clauses and its body are made of, both texts are parsed as the same statement.
-/

namespace Lox

open Grammar

/-- The symbol as a token. -/
def Symbol.at (symbol : Symbol) (line : Nat) : Token := ⟨.symbol symbol, symbol.text, line⟩

/-- The keyword as a token. -/
def Keyword.at (keyword : Keyword) (line : Nat) : Token := ⟨.keyword keyword, keyword.text, line⟩

@[simp] theorem Symbol.kind_at (symbol : Symbol) (line : Nat) :
    (symbol.at line).kind = .symbol symbol := rfl

@[simp] theorem Keyword.kind_at (keyword : Keyword) (line : Nat) :
    (keyword.at line).kind = .keyword keyword := rfl

/-! ## Clauses and bodies -/

/-- What the first clause of a `for` statement is, if it is not a semicolon alone. -/
inductive FirstClause (ρ : Type) where
  | declaration (name : Name) (initializer : Option (Expr ρ))
  | expression (value : Expr ρ)

/-- The clause as a statement. -/
def FirstClause.statement {ρ : Type} : FirstClause ρ → Stmt ρ
  | declaration name initializer => .declare name initializer
  | expression value => .expression value

/-- The trees of the clauses and of the body of a `for` statement. -/
structure ForParts (ρ : Type) where
  first : Option (FirstClause ρ)
  condition : Option (Expr ρ)
  increment : Option (Expr ρ)
  body : Stmt ρ

namespace ForParts

variable {ρ : Type}

/-- What is tested before each round. -/
def test (f : ForParts ρ) : Expr ρ := f.condition.getD (.literal (.boolean true))

/-- What is run in each round: the body, in a block with the last clause if there is one. -/
def round (f : ForParts ρ) : Stmt ρ :=
  match f.increment with
  | none => f.body
  | some increment => .block [f.body, .expression increment]

/-- What the whole statement is: a loop, in a block with the first clause if there is one. -/
def tree (f : ForParts ρ) : Stmt ρ :=
  match f.first with
  | none => .loop f.test f.round
  | some first => .block [first.statement, .loop f.test f.round]

end ForParts

/-- The tokens of the clauses and of the body of a `for` statement. Those of the first clause have
their semicolon with them. -/
structure ForTokens where
  first : Option (List Token)
  condition : Option (List Token)
  increment : Option (List Token)
  body : List Token

namespace ForTokens

/-- The tokens as a `for` statement. What is added to them stands on the given lines. -/
def asFor (p : ForTokens) (line : Nat → Nat) : List Token :=
  Keyword.forKw.at (line 0) :: Symbol.leftParen.at (line 1) ::
    p.first.getD [Symbol.semicolon.at (line 2)] ++ p.condition.getD [] ++
    Symbol.semicolon.at (line 3) :: p.increment.getD [] ++ Symbol.rightParen.at (line 4) :: p.body

/-- The body as the body of a `while` statement: with the last clause, if there is one, behind it and
braces around both. -/
def round (p : ForTokens) (line : Nat → Nat) : List Token :=
  match p.increment with
  | none => p.body
  | some ts => Symbol.leftBrace.at (line 0) :: (p.body ++ (ts ++ [Symbol.semicolon.at (line 1)])) ++
      [Symbol.rightBrace.at (line 2)]

/-- The tokens as a `while` statement, without the first clause. -/
def loop (p : ForTokens) (line : Nat → Nat) : List Token :=
  Keyword.whileKw.at (line 3) :: Symbol.leftParen.at (line 4) ::
    p.condition.getD [Keyword.trueKw.at (line 5)] ++ Symbol.rightParen.at (line 6) :: p.round line

/-- The tokens as a `while` statement, with the first clause, if there is one, in front and braces
around both. -/
def asWhile (p : ForTokens) (line : Nat → Nat) : List Token :=
  match p.first with
  | none => p.loop line
  | some ts => Symbol.leftBrace.at (line 7) :: (ts ++ p.loop line) ++
      [Symbol.rightBrace.at (line 8)]

end ForTokens

/-! ## Parts that are parsed by themselves -/

/-- With an end behind them the tokens are parsed without an error, as this statement alone. -/
def ParsedAsStatement (ts : List Token) (s : Stmt Unit) : Prop :=
  ∃ ending firstRef, EndsOnce (ts ++ [ending]) ∧
    (parseProgram (ts ++ [ending]) firstRef).errors = [] ∧
      (parseProgram (ts ++ [ending]) firstRef).result.map Stmt.bare = [s]

/-- With an end behind them the tokens are parsed without an error, as this expression. -/
def ParsedAsExpression (ts : List Token) (e : Expr Unit) : Prop :=
  ∃ ending firstRef, EndsOnce (ts ++ [ending]) ∧
    (parseExpression (ts ++ [ending]) firstRef).errors = [] ∧
      (parseExpression (ts ++ [ending]) firstRef).result.map Expr.bare = some e

/-- Each part that is there is parsed by itself without an error. The body is no declaration. -/
structure ForTokens.ParsedAs (p : ForTokens) (f : ForParts Unit) : Prop where
  first : Option.Rel (fun ts clause => ParsedAsStatement ts clause.statement) p.first f.first
  condition : Option.Rel ParsedAsExpression p.condition f.condition
  increment : Option.Rel ParsedAsExpression p.increment f.increment
  body : ParsedAsStatement p.body f.body
  plain : f.body.isDeclaration = false

theorem ParsedAsExpression.derived {ts : List Token} {e : Expr Unit} (h : ParsedAsExpression ts e) :
    Expression ts e := by
  obtain ⟨ending, firstRef, ends, noErrors, given⟩ := h
  obtain ⟨_, parsed, rfl⟩ := Option.map_eq_some_iff.1 given
  obtain ⟨ts', ending', same, -, derived⟩ := isSingle_of_noErrors ends noErrors parsed
  rw [(List.append_inj' same rfl).1]
  exact derived

theorem ParsedAsStatement.derived {ts : List Token} {s : Stmt Unit} (h : ParsedAsStatement ts s) :
    Declaration true ts s := by
  obtain ⟨ending, firstRef, ends, noErrors, given⟩ := h
  have program := program_of_noErrors ends noErrors
  rw [given] at program
  generalize whole : ts ++ [ending] = tokens at program
  cases program with
  | of items isEnd =>
    rw [(List.append_inj' whole rfl).1]
    cases items with
    | more first rest =>
      cases rest
      rw [List.append_nil]
      exact first

/-- A statement that is no declaration comes from the rule for statements. -/
theorem Grammar.Declaration.toStatement {ts : List Token} {s : Stmt Unit}
    (h : Declaration true ts s) (plain : s.isDeclaration = false) :
    ∃ isOpen, Statement true isOpen ts s := by
  cases h with
  | classDecl | function => cases plain
  | «variable» declared => cases declared <;> cases plain
  | statement derived => exact ⟨_, derived⟩

theorem Grammar.Statement.not_declaration {isOpen : Bool} {ts : List Token} {s : Stmt Unit}
    (h : Statement true isOpen ts s) : s.isDeclaration = false := by
  cases h with
  | expression derived =>
    cases derived
    rfl
  | @forStmt _ _ _ _ _ _ _ _ _ initializer =>
    cases initializer <;> rfl
  | ifThen | ifElse | print | ret | whileStmt | block => rfl

theorem Grammar.Statement.toExpressionStmt {isOpen : Bool} {ts : List Token} {s : Stmt Unit}
    (h : Statement true isOpen ts s) {value : Expr Unit} (same : s = .expression value) :
    ExpressionStmt ts s := by
  cases h with
  | expression derived => exact derived
  | @forStmt _ _ _ _ _ _ _ _ _ initializer =>
    cases initializer <;> cases same
  | ifThen | ifElse | print | ret | whileStmt | block => cases same

theorem FirstClause.derived {ts : List Token} {clause : FirstClause Unit}
    (h : Declaration true ts clause.statement) : ForInitializer ts (some clause.statement) := by
  cases clause with
  | declaration name initializer =>
    cases h with
    | «variable» declared => exact .variable declared
    | statement derived => cases derived.not_declaration
  | expression value =>
    obtain ⟨_, derived⟩ := h.toStatement rfl
    exact .expression (derived.toExpressionStmt rfl)

/-! ## Clauses that may be missing -/

theorem derived_first {ts? : Option (List Token)} {clause? : Option (FirstClause Unit)}
    (parsed : Option.Rel (fun ts clause => ParsedAsStatement ts clause.statement) ts? clause?)
    (line : Nat) : ForInitializer (ts?.getD [Symbol.semicolon.at line])
      (clause?.map FirstClause.statement) := by
  cases parsed with
  | none => exact .none rfl
  | some parsed => exact FirstClause.derived parsed.derived

theorem derived_clause {ts? : Option (List Token)} {e? : Option (Expr Unit)}
    (parsed : Option.Rel ParsedAsExpression ts? e?) : Expression? (ts?.getD []) e? := by
  cases parsed with
  | none => exact .none
  | some parsed => exact .some parsed.derived

/-- A condition that is missing is as good as `true`. -/
theorem derived_test {ts? : Option (List Token)} {e? : Option (Expr Unit)}
    (parsed : Option.Rel ParsedAsExpression ts? e?) (line : Nat) :
    Expression (ts?.getD [Keyword.trueKw.at line]) (e?.getD (.literal (.boolean true))) := by
  cases parsed with
  | none => exact .operation ((Call.of (.true rfl) .done).toOperation .or)
  | some parsed => exact parsed.derived

/-! ## Both texts -/

theorem ForParts.forTree_eq (f : ForParts Unit) :
    forTree (f.first.map FirstClause.statement) f.condition f.increment f.body = f.tree := by
  obtain ⟨first, condition, increment, body⟩ := f
  cases first <;> cases increment <;> rfl

namespace ForTokens.ParsedAs

variable {p : ForTokens} {f : ForParts Unit} (h : p.ParsedAs f) (line : Nat → Nat)
include h

theorem derived_body : ∃ isOpen, Statement true isOpen p.body f.body :=
  h.body.derived.toStatement h.plain

theorem derived_for : ∃ isOpen, Statement true isOpen (p.asFor line) f.tree := by
  obtain ⟨isOpen, body⟩ := h.derived_body
  rw [← f.forTree_eq]
  exact ⟨isOpen, .forStmt rfl rfl (derived_first h.first (line 2)) (derived_clause h.condition) rfl
    (derived_clause h.increment) rfl body⟩

theorem derived_round : ∃ isOpen, Statement true isOpen (p.round line) f.round := by
  obtain ⟨isOpen, body⟩ := h.derived_body
  obtain ⟨_, _, increment, _, _⟩ := h
  obtain ⟨_, _, ts?, _⟩ := p
  obtain ⟨_, _, e?, _⟩ := f
  cases increment with
  | none => exact ⟨isOpen, body⟩
  | some parsed =>
    have step : ExpressionStmt (_ ++ [Symbol.semicolon.at (line 1)]) _ := .of parsed.derived rfl
    have both := Declarations.more (.statement body) (.more (.statement (.expression step)) .none)
    rw [List.append_nil] at both
    exact ⟨false, .block (.of rfl both rfl)⟩

theorem derived_loop : ∃ isOpen, Statement true isOpen (p.loop line) (.loop f.test f.round) := by
  obtain ⟨isOpen, round⟩ := h.derived_round line
  exact ⟨isOpen, .whileStmt rfl rfl (derived_test h.condition (line 5)) rfl round⟩

theorem derived_while : ∃ isOpen, Statement true isOpen (p.asWhile line) f.tree := by
  obtain ⟨isOpen, loop⟩ := h.derived_loop line
  obtain ⟨first, _, _, _, _⟩ := h
  obtain ⟨ts?, _, _, _⟩ := p
  obtain ⟨clause?, _, _, _⟩ := f
  cases first with
  | none => exact ⟨isOpen, loop⟩
  | some parsed =>
    have both := Declarations.more parsed.derived (.more (.statement loop) .none)
    rw [List.append_nil] at both
    exact ⟨false, .block (.of rfl both rfl)⟩

end ForTokens.ParsedAs

theorem Grammar.Statement.parsed {isOpen : Bool} {ts : List Token} {s : Stmt Unit}
    (h : Statement true isOpen ts s) {ending : Token} (ends : ending.kind = .endOfInput)
    (firstRef : RefId) :
    (parseProgram (ts ++ [ending]) firstRef).errors = [] ∧
      (parseProgram (ts ++ [ending]) firstRef).result.map Stmt.bare = [s] := by
  have program : Program true (ts ++ [ending]) [s] := by
    rw [← List.append_nil ts]
    exact .of (.more (.statement h) .none) ends
  exact parseProgram_of_program program firstRef

/-- **Both texts are one statement.** If the parts are parsed by themselves, the `for` statement and
the `while` statement with braces are parsed without an error as the same statement, whatever lines
the words and signs between the parts stand on. -/
theorem ForTokens.ParsedAs.same_statement {p : ForTokens} {f : ForParts Unit} (h : p.ParsedAs f)
    (line : Nat → Nat) {ending : Token} (ends : ending.kind = .endOfInput) (firstRef : RefId) :
    ((parseProgram (p.asFor line ++ [ending]) firstRef).errors = [] ∧
        (parseProgram (p.asFor line ++ [ending]) firstRef).result.map Stmt.bare = [f.tree]) ∧
      (parseProgram (p.asWhile line ++ [ending]) firstRef).errors = [] ∧
        (parseProgram (p.asWhile line ++ [ending]) firstRef).result.map Stmt.bare = [f.tree] := by
  obtain ⟨_, whole⟩ := h.derived_for line
  obtain ⟨_, loop⟩ := h.derived_while line
  exact ⟨whole.parsed ends firstRef, loop.parsed ends firstRef⟩

end Lox
