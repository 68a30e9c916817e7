import Lox.Proofs.Parser.Grammar
import Lox.Proofs.Syntax.Lines

/-!
# Derivations on other lines

The rules of the grammar do not look at lines: tokens on other lines have the tree that they have,
on those lines.
-/

namespace Lox.Grammar

variable (f : Nat → Nat)

theorem Level.join?_mapLine {l : Level} {t : Token} {left right e : Expr Unit}
    (h : l.join? t left right = some e) :
    l.join? (t.mapLine f) (left.mapLines f) (right.mapLines f) = some (e.mapLines f) := by
  obtain ⟨kind, lexeme, line⟩ := t
  unfold Level.join? at h ⊢
  dsimp only [Token.mapLine] at h ⊢
  split at h
  all_goals first
    | (cases h; rfl)
    | cases h

/-! ## Expressions -/

mutual

theorem Expression.mapLines : ∀ {ts : List Token} {e : Expr Unit},
    Expression ts e → Expression (ts.map (·.mapLine f)) (e.mapLines f)
  | _, _, .assignVariable isName isEqual value => by
    simp only [List.map_cons]
    exact .assignVariable isName isEqual value.mapLines
  | _, _, .assignProperty object isDot isName isEqual value => by
    simp only [List.map_append, List.map_cons]
    exact .assignProperty object.mapLines isDot isName isEqual value.mapLines
  | _, _, .operation o => .operation o.mapLines

theorem Operation.mapLines : ∀ {l : Level} {ts : List Token} {e : Expr Unit},
    Operation l ts e → Operation l (ts.map (·.mapLine f)) (e.mapLines f)
  | _, _, _, .joined binary first rest => by
    simp only [List.map_append]
    exact .joined binary first.mapLines rest.mapLines
  | _, _, _, .not isBang operand => by
    simp only [List.map_cons]
    exact .not isBang operand.mapLines
  | _, _, _, .negate isMinus operand => by
    simp only [List.map_cons]
    exact .negate isMinus operand.mapLines
  | _, _, _, .call c => .call c.mapLines

theorem Joined.mapLines : ∀ {l : Level} {left : Expr Unit} {ts : List Token} {e : Expr Unit},
    Joined l left ts e → Joined l (left.mapLines f) (ts.map (·.mapLine f)) (e.mapLines f)
  | _, _, _, _, .done => .done
  | _, _, _, _, .more join right rest => by
    simp only [List.map_append, List.map_cons]
    exact .more (Level.join?_mapLine f join) right.mapLines rest.mapLines

theorem Call.mapLines : ∀ {ts : List Token} {e : Expr Unit},
    Call ts e → Call (ts.map (·.mapLine f)) (e.mapLines f)
  | _, _, .of object suffixes => by
    simp only [List.map_append]
    exact .of object.mapLines suffixes.mapLines

theorem Suffixes.mapLines : ∀ {object : Expr Unit} {ts : List Token} {e : Expr Unit},
    Suffixes object ts e →
      Suffixes (object.mapLines f) (ts.map (·.mapLine f)) (e.mapLines f)
  | _, _, _, .done => .done
  | _, _, _, .call opens closes rest => by
    simp only [List.map_cons]
    exact .call opens closes rest.mapLines
  | _, _, _, .callWith opens arguments few closes rest => by
    simp only [List.map_append, List.map_cons]
    exact .callWith opens arguments.mapLines (by simpa using few) closes rest.mapLines
  | _, _, _, .property isDot isName rest => by
    simp only [List.map_cons]
    exact .property isDot isName rest.mapLines

theorem Arguments.mapLines : ∀ {ts : List Token} {es : List (Expr Unit)},
    Arguments ts es → Arguments (ts.map (·.mapLine f)) (Expr.mapLinesAll f es)
  | _, _, .last e => .last e.mapLines
  | _, _, .more e isComma rest => by
    simp only [List.map_append, List.map_cons]
    exact .more e.mapLines isComma rest.mapLines

theorem Primary.mapLines : ∀ {ts : List Token} {e : Expr Unit},
    Primary ts e → Primary (ts.map (·.mapLine f)) (e.mapLines f)
  | _, _, .number isNumber => .number isNumber
  | _, _, .string isString => .string isString
  | _, _, .true word => .true word
  | _, _, .false word => .false word
  | _, _, .nil word => .nil word
  | _, _, .this isThis => .this isThis
  | _, _, .name isName => .name isName
  | _, _, .grouping opens e closes => by
    simp only [List.map_append, List.map_cons]
    exact .grouping opens e.mapLines closes
  | _, _, .super isSuper isDot isName => .super isSuper isDot isName

end

theorem Expression?.mapLines {ts : List Token} {e? : Option (Expr Unit)} (h : Expression? ts e?) :
    Expression? (ts.map (·.mapLine f)) (e?.map (·.mapLines f)) := by
  cases h with
  | none => exact .none
  | some e => exact .some (e.mapLines f)

/-! ## Statements -/

theorem Parameters.mapLines {ts : List Token} {names : List Name} (h : Parameters ts names) :
    Parameters (ts.map (·.mapLine f)) (names.map (·.mapLine f)) := by
  induction h with
  | last isName => exact .last isName
  | more isName isComma _ ih => exact .more isName isComma ih

theorem Parameters?.mapLines {ts : List Token} {names : List Name} (h : Parameters? ts names) :
    Parameters? (ts.map (·.mapLine f)) (names.map (·.mapLine f)) := by
  cases h with
  | none => exact .none
  | some parameters few => exact .some (parameters.mapLines f) (by simpa using few)

theorem Superclass?.mapLines {ts : List Token} {r? : Option (Reference Unit)}
    (h : Superclass? ts r?) :
    Superclass? (ts.map (·.mapLine f)) (r?.map (·.mapLine f)) := by
  cases h with
  | none => exact .none
  | some isLess isName => exact .some isLess isName

theorem VariableDecl.mapLines {ts : List Token} {s : Stmt Unit} (h : VariableDecl ts s) :
    VariableDecl (ts.map (·.mapLine f)) (s.mapLines f) := by
  cases h with
  | plain isVar isName ends => exact .plain isVar isName ends
  | initialized isVar isName isEqual e ends =>
    simp only [List.map_append, List.map_cons]
    exact .initialized isVar isName isEqual (e.mapLines f) ends

theorem ExpressionStmt.mapLines {ts : List Token} {s : Stmt Unit} (h : ExpressionStmt ts s) :
    ExpressionStmt (ts.map (·.mapLine f)) (s.mapLines f) := by
  cases h with
  | of e ends =>
    simp only [List.map_append, List.map_cons]
    exact .of (e.mapLines f) ends

theorem ForInitializer.mapLines {ts : List Token} {s? : Option (Stmt Unit)}
    (h : ForInitializer ts s?) :
    ForInitializer (ts.map (·.mapLine f)) (s?.map (·.mapLines f)) := by
  cases h with
  | none ends => exact .none ends
  | «variable» d => exact .variable (d.mapLines f)
  | expression s => exact .expression (s.mapLines f)

theorem forTree_mapLines (initializer : Option (Stmt Unit)) (condition increment : Option (Expr Unit))
    (body : Stmt Unit) :
    (forTree initializer condition increment body).mapLines f =
      forTree (initializer.map (·.mapLines f)) (condition.map (·.mapLines f))
        (increment.map (·.mapLines f)) (body.mapLines f) := by
  cases initializer <;> cases condition <;> cases increment <;> rfl

section

variable {nearest : Bool}

mutual

theorem Declaration.mapLines : ∀ {ts : List Token} {s : Stmt Unit},
    Declaration nearest ts s → Declaration nearest (ts.map (·.mapLine f)) (s.mapLines f)
  | _, _, .classDecl isClass isName parent opens methods closes => by
    simp only [List.map_append, List.map_cons]
    exact .classDecl isClass isName (parent.mapLines f) opens methods.mapLines closes
  | _, _, .function isFun d => .function isFun d.mapLines
  | _, _, .variable d => .variable (d.mapLines f)
  | _, _, .statement s => .statement s.mapLines

theorem Declarations.mapLines : ∀ {ts : List Token} {ss : List (Stmt Unit)},
    Declarations nearest ts ss →
      Declarations nearest (ts.map (·.mapLine f)) (Stmt.mapLinesAll f ss)
  | _, _, .none => .none
  | _, _, .more first rest => by
    simp only [List.map_append]
    exact .more first.mapLines rest.mapLines

theorem Block.mapLines : ∀ {ts : List Token} {ss : List (Stmt Unit)},
    Block nearest ts ss → Block nearest (ts.map (·.mapLine f)) (Stmt.mapLinesAll f ss)
  | _, _, .of opens items closes => by
    simp only [List.map_append, List.map_cons]
    exact .of opens items.mapLines closes

theorem Function.mapLines : ∀ {ts : List Token} {d : FunctionDecl Unit},
    Function nearest ts d → Function nearest (ts.map (·.mapLine f)) (d.mapLines f)
  | _, _, .of isName opens parameters closes body => by
    simp only [List.map_append, List.map_cons]
    exact .of isName opens (parameters.mapLines f) closes body.mapLines

theorem Functions.mapLines : ∀ {ts : List Token} {ds : List (FunctionDecl Unit)},
    Functions nearest ts ds →
      Functions nearest (ts.map (·.mapLine f)) (FunctionDecl.mapLinesAll f ds)
  | _, _, .none => .none
  | _, _, .more first rest => by
    simp only [List.map_append]
    exact .more first.mapLines rest.mapLines

theorem Statement.mapLines : ∀ {isOpen : Bool} {ts : List Token} {s : Stmt Unit},
    Statement nearest isOpen ts s →
      Statement nearest isOpen (ts.map (·.mapLine f)) (s.mapLines f)
  | _, _, _, .expression e => .expression (e.mapLines f)
  | _, _, _, .forStmt isFor opens first second ends third closes body => by
    simp only [List.map_append, List.map_cons, forTree_mapLines]
    exact .forStmt isFor opens (first.mapLines f) (second.mapLines f) ends (third.mapLines f) closes
      body.mapLines
  | _, _, _, .ifThen isIf opens condition closes s => by
    simp only [List.map_append, List.map_cons]
    exact .ifThen isIf opens (condition.mapLines f) closes s.mapLines
  | _, _, _, .ifElse isIf opens condition closes s isClosed isElse s' => by
    simp only [List.map_append, List.map_cons]
    exact .ifElse isIf opens (condition.mapLines f) closes s.mapLines isClosed isElse s'.mapLines
  | _, _, _, .print isPrint e ends => by
    simp only [List.map_append, List.map_cons]
    exact .print isPrint (e.mapLines f) ends
  | _, _, _, .ret isReturn value ends => by
    simp only [List.map_append, List.map_cons]
    exact .ret isReturn (value.mapLines f) ends
  | _, _, _, .whileStmt isWhile opens condition closes body => by
    simp only [List.map_append, List.map_cons]
    exact .whileStmt isWhile opens (condition.mapLines f) closes body.mapLines
  | _, _, _, .block b => .block b.mapLines

end

end

end Lox.Grammar
