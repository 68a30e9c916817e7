import Lox.Proofs.Parser.Soundness
import Lox.Proofs.Parser.Takes

/-!
# Derivations are parsed without errors

Tokens that derive from a rule of the grammar are taken by the rule of the parse, with the tree of
the derivation and without an error, if what follows them could not have gone on with them: behind
an expression no operator that binds as tightly as the rule, and behind an open statement no `else`.
-/

namespace Lox

namespace Grammar

/-! ## What can follow -/

/-- How tightly an operator of this kind binds what stands before it. -/
def binding : Kind → Option Nat
  | .symbol .equal => some 0
  | .keyword .orKw => some 1
  | .keyword .andKw => some 2
  | .symbol .bangEqual | .symbol .equalEqual => some 3
  | .symbol .greater | .symbol .greaterEqual | .symbol .less | .symbol .lessEqual => some 4
  | .symbol .minus | .symbol .plus => some 5
  | .symbol .slash | .symbol .star => some 6
  | .symbol .leftParen | .symbol .dot => some 7
  | _ => none

/-- How tightly the operators of a level bind. At the level of unary operators these are calls and
properties. -/
def Level.rank : Level → Nat
  | or => 1
  | and => 2
  | equality => 3
  | comparison => 4
  | term => 5
  | factor => 6
  | unary => 7

/-- What follows is no operator that binds as tightly as `k`. -/
def Quiet (k : Nat) (follow : List Token) : Prop :=
  ∀ t ∈ follow.head?, ∀ b, binding t.kind = some b → b < k

section

variable {k m : Nat} {t : Token} {ts follow : List Token}

theorem Quiet.mono (h : Quiet k follow) (le : k ≤ m) : Quiet m follow :=
  fun t mem b is => Nat.lt_of_lt_of_le (h t mem b is) le

theorem quiet_cons : Quiet k (t :: ts) ↔ ∀ b, binding t.kind = some b → b < k := by
  simp [Quiet]

/-- What is no operator stops any expression. -/
theorem quiet_of_none (none : binding t.kind = none) : Quiet k (t :: ts) := by
  rw [quiet_cons, none]
  simp

theorem quiet_symbol {symbol : Symbol} (kind : t.kind = .symbol symbol)
    (none : binding (.symbol symbol) = none) : Quiet k (t :: ts) :=
  quiet_of_none (kind ▸ none)

/-- A sort of token that binds is not next where it is quiet. -/
theorem Quiet.not_begins (h : Quiet k follow) {kind : Kind} {b : Nat}
    (binds : ∀ other : Kind, other.sameSort kind = true → binding other = some b) (le : k ≤ b) :
    ¬ Begins (·.sameSort kind) follow := by
  rintro ⟨t, mem, same⟩
  exact absurd (h t mem b (binds _ same)) (Nat.not_lt.2 le)

end

theorem binding_of_join? {l : Level} {t : Token} {left right e : Expr Unit}
    (h : l.join? t left right = some e) : binding t.kind = some l.rank := by
  unfold Level.join? at h
  split at h
  all_goals first | (next kind => rw [kind]; rfl) | cases h

theorem Level.rank_lt_operand {l : Level} (binary : l ≠ .unary) : l.rank < l.operand.rank := by
  cases l with
  | unary => exact absurd rfl binary
  | _ => decide

/-- Behind an operand stands an operator of the level or what follows the whole. -/
theorem Joined.quiet {l : Level} {left e : Expr Unit} {ts follow : List Token}
    (h : Joined l left ts e) (binary : l ≠ .unary) (quiet : Quiet l.rank follow) :
    Quiet l.operand.rank (ts ++ follow) := by
  have lt := l.rank_lt_operand binary
  cases h with
  | done => exact quiet.mono (Nat.le_of_lt lt)
  | more join operand rest =>
    rw [List.append_assoc, List.cons_append, quiet_cons]
    intro b is
    rw [binding_of_join? join] at is
    cases is
    exact lt

end Grammar

open Grammar

/-- Fewer than `n` tokens that the grammar derives are taken. -/
structure Rules.Complete (n : Nat) (r : Rules) : Prop where
  expression : ∀ {ts follow : List Token} {e : Expr Unit}, Expression ts e → ts.length < n →
    Quiet 0 follow → Parser.Takes r.expression (ts ++ follow) follow (·.bare = e)
  unary : ∀ {ts follow : List Token} {e : Expr Unit}, Operation .unary ts e → ts.length < n →
    Quiet 7 follow → Parser.Takes r.unary (ts ++ follow) follow (·.bare = e)
  statement : ∀ {isOpen : Bool} {ts follow : List Token} {s : Stmt Unit},
    Statement true isOpen ts s → ts.length < n →
    (isOpen = true → ¬ Begins (·.sameSort (.keyword .elseKw)) follow) →
    Parser.Takes r.statement (ts ++ follow) follow (·.bare = s)
  declaration : ∀ {ts follow : List Token} {s : Stmt Unit},
    Declaration true ts s → ts.length < n → ¬ Begins (·.sameSort (.keyword .elseKw)) follow →
    Parser.Takes r.declaration (ts ++ follow) follow fun s? => ∃ s', s? = some s' ∧ s'.bare = s

namespace Parser

/-! ## Operators -/

/-- What is quiet begins with no operator of the level. -/
theorem operator_of_quiet {l : Level} {operator : Kind → Option BinaryOp}
    (ends : operator .endOfInput = none)
    (joins : ∀ (t : Token) (left right : Expr Unit),
      l.join? t left right = (operator t.kind).map fun op => .binary op t.line left right)
    {follow : List Token} (quiet : Quiet l.rank follow) :
    operator (follow.headD Token.missingEnd).kind = none := by
  cases follow with
  | nil => exact ends
  | cons t rest =>
    rw [quiet_cons] at quiet
    cases is : operator t.kind with
    | none => exact is
    | some op =>
      have joined := joins t (.literal .nil) (.literal .nil)
      rw [is] at joined
      exact absurd (quiet _ (binding_of_join? joined)) (Nat.lt_irrefl _)

/-- Fewer than `n` tokens that a level derives are taken. -/
def TakesLevel (n : Nat) (l : Level) (p : Parser (Expr RefId)) : Prop :=
  ∀ {ts follow : List Token} {e : Expr Unit}, Operation l ts e → ts.length < n →
    Quiet l.rank follow → Takes p (ts ++ follow) follow (·.bare = e)

section

variable {n : Nat} {l : Level} {operand : Parser (Expr RefId)} (binary : l ≠ .unary)
  (ho : TakesLevel n l.operand operand)

include binary ho

theorem chain_takes {operator : Kind → Option BinaryOp} (ends : operator .endOfInput = none)
    (joins : ∀ (t : Token) (left right : Expr Unit),
      l.join? t left right = (operator t.kind).map fun op => .binary op t.line left right)
    (k : Nat) {left : Expr RefId} {ts follow : List Token} {e : Expr Unit}
    (derived : Joined l left.bare ts e) (few : ts.length < n) (fuel : ts.length ≤ k)
    (quiet : Quiet l.rank follow) :
    Takes (chain operator operand k left) (ts ++ follow) follow (·.bare = e) := by
  induction k generalizing left ts with
  | zero =>
    obtain rfl := List.length_eq_zero_iff.1 (Nat.le_zero.1 fuel)
    cases derived with
    | done => exact takes_pure rfl
  | succ k ih =>
    refine Takes.peek ?_
    cases derived with
    | done =>
      rw [List.nil_append, operator_of_quiet ends joins quiet]
      exact takes_pure rfl
    | @more _ t ts₁ ts₂ _ right joined _ join derived rest =>
      rw [joins] at join
      simp only [List.cons_append, List.length_cons, List.length_append, List.append_assoc,
        List.headD_cons] at few fuel ⊢
      cases is : operator t.kind with
      | none =>
        rw [is] at join
        cases join
      | some op =>
        rw [is] at join
        cases join
        refine Takes.advance (notEnd_of_operator ends is) ?_
        refine (ho derived (by omega) (rest.quiet binary quiet)).bind fun right' same => ?_
        subst same
        exact ih rest (by omega) (by omega)

theorem logicalChain_takes {keyword : Keyword} {op : LogicalOp}
    (binds : binding (.keyword keyword) = some l.rank)
    (joins : ∀ (t : Token) (left right : Expr Unit), l.join? t left right =
      if t.kind.sameSort (.keyword keyword) then some (.logical op left right) else none)
    (k : Nat) {left : Expr RefId} {ts follow : List Token} {e : Expr Unit}
    (derived : Joined l left.bare ts e) (few : ts.length < n) (fuel : ts.length ≤ k)
    (quiet : Quiet l.rank follow) :
    Takes (logicalChain keyword op operand k left) (ts ++ follow) follow (·.bare = e) := by
  induction k generalizing left ts with
  | zero =>
    obtain rfl := List.length_eq_zero_iff.1 (Nat.le_zero.1 fuel)
    cases derived with
    | done => exact takes_pure rfl
  | succ k ih =>
    cases derived with
    | done =>
      refine Takes.passed rfl (quiet.not_begins (fun other same => ?_) (Nat.le_refl _))
        (takes_pure rfl)
      rw [Kind.sameSort_keyword.1 same, binds]
    | @more _ t ts₁ ts₂ _ right joined _ join derived rest =>
      rw [joins] at join
      split at join
      · next same =>
        cases join
        simp only [List.cons_append, List.length_cons, List.length_append,
          List.append_assoc] at few fuel ⊢
        refine Takes.taken same rfl ?_
        refine (ho derived (by omega) (rest.quiet binary quiet)).bind fun right' same => ?_
        subst same
        exact ih rest (by omega) (by omega)
      · cases join

/-- A level is taken if its operands and the chain of operands joined to them are. -/
theorem level_takes {chain : Expr RefId → Parser (Expr RefId)}
    (hc : ∀ {left : Expr RefId} {ts follow : List Token} {e : Expr Unit},
      Joined l left.bare ts e → ts.length < n → Quiet l.rank follow →
      Takes (chain left) (ts ++ follow) follow (·.bare = e)) :
    TakesLevel n l (operand >>= chain) := by
  intro ts follow e derived few quiet
  cases derived with
  | joined _ derived rest =>
    rw [List.length_append] at few
    rw [List.append_assoc]
    refine (ho derived (by omega) (rest.quiet binary quiet)).bind fun first same => ?_
    subst same
    exact hc rest (by omega) quiet
  | not => exact absurd rfl binary
  | negate => exact absurd rfl binary
  | call => exact absurd rfl binary

theorem binaryLevel_takes {operator : Kind → Option BinaryOp} (ends : operator .endOfInput = none)
    (joins : ∀ (t : Token) (left right : Expr Unit),
      l.join? t left right = (operator t.kind).map fun op => .binary op t.line left right)
    (k : Nat) (le : n ≤ k + 1) : TakesLevel n l (operand >>= chain operator operand k) :=
  level_takes binary ho fun derived few quiet =>
    chain_takes binary ho ends joins k derived few (by omega) quiet

theorem logicalLevel_takes {keyword : Keyword} {op : LogicalOp}
    (binds : binding (.keyword keyword) = some l.rank)
    (joins : ∀ (t : Token) (left right : Expr Unit), l.join? t left right =
      if t.kind.sameSort (.keyword keyword) then some (.logical op left right) else none)
    (k : Nat) (le : n ≤ k + 1) :
    TakesLevel n l (operand >>= logicalChain keyword op operand k) :=
  level_takes binary ho fun derived few quiet =>
    logicalChain_takes binary ho binds joins k derived few (by omega) quiet

end

/-! ## Expressions -/

section

variable {n : Nat} {r : Rules} (hr : r.Complete n)

include hr

theorem arguments_takes (k : Nat) {seen : List (Expr RefId)} {ts follow : List Token}
    {es : List (Expr Unit)} {closing : Token} (derived : Arguments ts es) (few : ts.length < n)
    (fuel : ts.length ≤ k) (limit : seen.length + es.length ≤ listLimit)
    (closes : closing.kind = .symbol .rightParen) :
    Takes (arguments r k seen) (ts ++ closing :: follow) (closing :: follow)
      fun values => values.map Expr.bare = (seen.map Expr.bare).reverse ++ es := by
  induction k generalizing seen ts es with
  | zero =>
    obtain rfl := List.length_eq_zero_iff.1 (Nat.le_zero.1 fuel)
    exact absurd rfl derived.begins.ne_nil
  | succ k ih =>
    have inLimit : ¬ argumentLimit ≤ seen.length := by
      have one : 0 < es.length := by cases derived <;> simp
      simp only [argumentLimit, listLimit] at limit ⊢
      omega
    rw [arguments, if_neg inLimit]
    cases derived with
    | last derived =>
      refine (hr.expression derived few (quiet_symbol closes rfl)).bind fun argument same => ?_
      refine Takes.passed rfl (by simp [closes]) (takes_pure ?_)
      simp [same]
    | @more comma ts₁ ts₂ e es derived isComma rest =>
      simp only [List.append_assoc, List.cons_append, List.length_append, List.length_cons]
        at few fuel limit ⊢
      refine (hr.expression derived (by omega) (quiet_symbol isComma rfl)).bind
        fun argument same => ?_
      refine Takes.taken (by simp [isComma]) rfl ?_
      refine (ih rest (by omega) (by omega) (by simp; omega)).mono fun values holds => ?_
      simp [holds, same]

theorem suffixes_takes (k : Nat) {object : Expr RefId} {ts follow : List Token} {e : Expr Unit}
    (derived : Suffixes object.bare ts e) (few : ts.length < n + 1) (fuel : ts.length ≤ k)
    (quiet : Quiet 7 follow) :
    Takes (suffixes r k object) (ts ++ follow) follow (·.bare = e) := by
  induction k generalizing object ts with
  | zero =>
    obtain rfl := List.length_eq_zero_iff.1 (Nat.le_zero.1 fuel)
    cases derived with
    | done => exact takes_pure rfl
  | succ k ih =>
    cases derived with
    | done =>
      have noCall : ¬ Begins (·.sameSort (.symbol .leftParen)) follow :=
        quiet.not_begins (fun other same => by rw [Kind.sameSort_symbol.1 same]; rfl) (Nat.le_refl 7)
      have noProperty : ¬ Begins (·.sameSort (.symbol .dot)) follow :=
        quiet.not_begins (fun other same => by rw [Kind.sameSort_symbol.1 same]; rfl) (Nat.le_refl 7)
      exact Takes.passed rfl noCall (Takes.passed rfl noProperty (takes_pure rfl))
    | @call opening closing ts _ _ opens closes rest =>
      simp only [List.cons_append, List.length_cons] at few fuel ⊢
      refine Takes.taken (by simp [opens]) rfl ?_
      have call : Takes (callOf k r object) (closing :: (ts ++ follow)) (ts ++ follow)
          (·.bare = .call object.bare closing.line []) := by
        refine Takes.found (by simp [closes]) rfl ?_
        refine (takes_pure (P := fun values => values = []) rfl).bind fun values none => ?_
        refine (takes_expectSymbol closes _).bind fun t same => takes_pure ?_
        rw [same, none]
        rfl
      refine call.bind fun call same => ?_
      rw [← same] at rest
      exact ih rest (by omega) (by omega)
    | @callWith opening closing ts₁ ts₂ _ _ values opens arguments limit closes rest =>
      simp only [List.cons_append, List.append_assoc, List.length_cons, List.length_append]
        at few fuel ⊢
      refine Takes.taken (by simp [opens]) rfl ?_
      have notClosed : ¬ Begins (·.sameSort (.symbol .rightParen))
          (ts₁ ++ closing :: (ts₂ ++ follow)) := (arguments.begins.append _).not_symbol rfl
      have call : Takes (callOf k r object) (ts₁ ++ closing :: (ts₂ ++ follow)) (ts₂ ++ follow)
          (·.bare = .call object.bare closing.line values) := by
        refine Takes.missed rfl notClosed ?_
        refine (arguments_takes hr k arguments (by omega) (by omega) (by simpa using limit)
          closes).bind fun values' same => ?_
        refine (takes_expectSymbol closes _).bind fun t is => takes_pure ?_
        rw [Expr.bare_call, is, same]
        rfl
      refine call.bind fun call same => ?_
      rw [← same] at rest
      exact ih rest (by omega) (by omega)
    | @property dot name ts _ _ isDot isName rest =>
      simp only [List.cons_append, List.length_cons] at few fuel ⊢
      refine Takes.passed rfl (by simp [isDot]) (Takes.taken (by simp [isDot]) rfl ?_)
      refine (takes_expectName isName _).bind fun property named => ?_
      have same : (Expr.get object property).bare = .get object.bare name.asName := by
        rw [named]
        rfl
      rw [← same] at rest
      exact ih rest (by omega) (by omega)

theorem primary_takes {ts follow : List Token} {e : Expr Unit} (derived : Primary ts e)
    (few : ts.length < n + 1) : Takes (primary r) (ts ++ follow) follow (·.bare = e) := by
  refine Takes.peek ?_
  cases derived with
  | number kind =>
    simp only [List.singleton_append, List.headD_cons, kind]
    exact Takes.advance (Token.isEnd_of_kind kind rfl) (takes_pure rfl)
  | string kind =>
    simp only [List.singleton_append, List.headD_cons, kind]
    exact Takes.advance (Token.isEnd_of_kind kind rfl) (takes_pure rfl)
  | true kind =>
    simp only [List.singleton_append, List.headD_cons, kind]
    exact Takes.advance (Token.isEnd_of_kind kind rfl) (takes_pure rfl)
  | false kind =>
    simp only [List.singleton_append, List.headD_cons, kind]
    exact Takes.advance (Token.isEnd_of_kind kind rfl) (takes_pure rfl)
  | nil kind =>
    simp only [List.singleton_append, List.headD_cons, kind]
    exact Takes.advance (Token.isEnd_of_kind kind rfl) (takes_pure rfl)
  | this kind =>
    simp only [List.singleton_append, List.headD_cons, kind]
    exact Takes.advance (Token.isEnd_of_kind kind rfl)
      (takes_freshRef.bind fun ref _ => takes_pure rfl)
  | @name t kind =>
    simp only [List.singleton_append, List.headD_cons, kind]
    refine Takes.advance (Token.isEnd_of_kind kind rfl)
      ((takes_reference _).bind fun ref named => takes_pure ?_)
    simp [Expr.bare, Expr.mapMarks, Reference.mapMark, named, Token.asName]
  | @grouping opening closing ts e kind derived closes =>
    simp only [List.cons_append, List.append_assoc, List.headD_cons, kind, List.length_cons,
      List.length_append] at few ⊢
    refine Takes.advance (Token.isEnd_of_kind kind rfl) ?_
    refine (hr.expression derived (by omega) (quiet_symbol closes rfl)).bind fun inner same => ?_
    refine (takes_expectSymbol closes _).bind fun _ _ => takes_pure ?_
    rw [← same]
    rfl
  | super kind isDot isName =>
    simp only [List.cons_append, List.headD_cons, kind]
    refine Takes.advance (Token.isEnd_of_kind kind rfl) ?_
    refine (takes_expectSymbol isDot _).bind fun _ _ => ?_
    refine (takes_expectName isName _).bind fun method named => ?_
    refine takes_freshRef.bind fun ref _ => takes_pure ?_
    rw [named]
    rfl

theorem call_takes {ts follow : List Token} {e : Expr Unit} (derived : Call ts e)
    (few : ts.length < n + 1) (quiet : Quiet 7 follow) :
    Takes (call n r) (ts ++ follow) follow (·.bare = e) := by
  cases derived with
  | of first rest =>
    have taken := first.begins.length_pos
    rw [List.length_append] at few
    rw [List.append_assoc]
    refine (primary_takes hr first (by omega)).bind fun object same => ?_
    subst same
    exact suffixes_takes hr n rest (by omega) (by omega) quiet

theorem unary_takes : TakesLevel (n + 1) .unary (unary n r) := by
  intro ts follow e derived few quiet
  refine Takes.peek ?_
  cases derived with
  | joined binary => exact absurd rfl binary
  | not kind derived =>
    simp only [List.cons_append, List.headD_cons, kind, List.length_cons] at few ⊢
    refine Takes.advance (Token.isEnd_of_kind kind rfl) ?_
    refine (hr.unary derived (by omega) quiet).bind fun operand same => takes_pure ?_
    rw [← same]
    rfl
  | negate kind derived =>
    simp only [List.cons_append, List.headD_cons, kind, List.length_cons] at few ⊢
    refine Takes.advance (Token.isEnd_of_kind kind rfl) ?_
    refine (hr.unary derived (by omega) quiet).bind fun operand same => takes_pure ?_
    rw [← same]
    rfl
  | call derived =>
    obtain ⟨t, rest, rfl⟩ := List.exists_cons_of_ne_nil derived.begins.ne_nil
    have begins := begins_cons.1 derived.begins
    have none : unaryOp? t.kind = none := by
      cases is : unaryOp? t.kind with
      | none => rfl
      | some op =>
        rcases unaryOp?_eq_some is with ⟨kind, _⟩ | ⟨kind, _⟩ <;> simp [kind, beginsCall] at begins
    simp only [List.cons_append, List.headD_cons, none]
    exact call_takes hr derived few quiet

theorem factor_takes : TakesLevel (n + 1) .factor (factor n r) :=
  binaryLevel_takes (l := .factor) (by decide) (unary_takes hr) rfl join?_factor n (Nat.le_refl _)

theorem term_takes : TakesLevel (n + 1) .term (term n r) :=
  binaryLevel_takes (l := .term) (by decide) (factor_takes hr) rfl join?_term n (Nat.le_refl _)

theorem comparison_takes : TakesLevel (n + 1) .comparison (comparison n r) :=
  binaryLevel_takes (l := .comparison) (by decide) (term_takes hr) rfl join?_comparison n
    (Nat.le_refl _)

theorem equality_takes : TakesLevel (n + 1) .equality (equality n r) :=
  binaryLevel_takes (l := .equality) (by decide) (comparison_takes hr) rfl join?_equality n
    (Nat.le_refl _)

theorem conjunction_takes : TakesLevel (n + 1) .and (conjunction n r) :=
  logicalLevel_takes (l := .and) (by decide) (equality_takes hr) rfl join?_and n (Nat.le_refl _)

theorem disjunction_takes : TakesLevel (n + 1) .or (disjunction n r) :=
  logicalLevel_takes (l := .or) (by decide) (conjunction_takes hr) rfl join?_or n (Nat.le_refl _)

/-- An operation with an assignment to it behind an equals sign. -/
theorem assigned_takes {ts ts' follow : List Token} {equals : Token} {target value e : Expr Unit}
    (derived : Operation .or ts target) (isEqual : equals.kind = .symbol .equal)
    (assigned : Expression ts' value) (few : (ts ++ equals :: ts').length < n + 1)
    (quiet : Quiet 0 follow)
    (assigns : ∀ (target' value' : Expr RefId) (equals : Token), target'.bare = target →
      value'.bare = value →
        ∃ e' : Expr RefId, assignTo target' equals value' = pure e' ∧ e'.bare = e) :
    Takes (assignment n r) (ts ++ equals :: (ts' ++ follow)) follow (·.bare = e) := by
  rw [List.length_append, List.length_cons] at few
  have taken := derived.begins.length_pos
  have afterTarget : Quiet 1 (equals :: (ts' ++ follow)) := by
    rw [quiet_cons, isEqual]
    rintro b ⟨⟩
    decide
  refine (disjunction_takes hr derived (by omega) afterTarget).bind fun target' same => ?_
  refine Takes.taken (by simp [isEqual]) rfl (takes_previous.bind fun equals' _ => ?_)
  refine (hr.expression assigned (by omega) quiet).bind fun value' same' => ?_
  obtain ⟨e', result, bare⟩ := assigns target' value' equals' same same'
  rw [result]
  exact takes_pure bare

theorem assignment_takes {ts follow : List Token} {e : Expr Unit} (derived : Expression ts e)
    (few : ts.length < n + 1) (quiet : Quiet 0 follow) :
    Takes (assignment n r) (ts ++ follow) follow (·.bare = e) := by
  cases derived with
  | @assignVariable name equals ts value isName isEqual assigned =>
    have target : Operation .or [name] (.variable ⟨name.asName, ()⟩) :=
      (Call.of (.name isName) .done).toOperation .or
    refine assigned_takes hr target isEqual assigned few quiet fun target' value' _ same same' => ?_
    cases target' with
    | «variable» x =>
      refine ⟨.assign x value', rfl, ?_⟩
      have same : x.mapMark (fun _ _ => ()) = ⟨name.asName, ()⟩ := Expr.variable.inj same
      rw [← same, ← same']
      rfl
    | _ => cases same
  | @assignProperty dot name equals ts ts' object value derived isDot isName isEqual assigned =>
    have target : Operation .or (ts ++ [dot, name]) (.get object name.asName) :=
      (derived.property_after isDot isName).toOperation .or
    have tokens : ts ++ dot :: name :: equals :: ts' = (ts ++ [dot, name]) ++ equals :: ts' := by
      simp
    rw [tokens] at few ⊢
    rw [List.append_assoc]
    refine assigned_takes hr target isEqual assigned few quiet fun target' value' _ same same' => ?_
    cases target' with
    | get o p =>
      refine ⟨.set o p value', rfl, ?_⟩
      obtain ⟨sameObject, named⟩ : o.bare = object ∧ p = name.asName := Expr.get.inj same
      rw [← sameObject, ← named, ← same']
      rfl
    | _ => cases same
  | operation derived =>
    have noEqual : ¬ Begins (·.sameSort (.symbol .equal)) follow :=
      quiet.not_begins (fun other same => by rw [Kind.sameSort_symbol.1 same]; rfl) (Nat.le_refl 0)
    refine (disjunction_takes hr derived few (quiet.mono (Nat.zero_le _))).bind fun e' same => ?_
    exact Takes.passed rfl noEqual (takes_pure same)

end

/-! ## Statements -/

section

variable {n : Nat} {r : Rules} (hr : r.Complete n)

include hr

theorem blockItems_takes (k : Nat) {seen : List (Stmt RefId)} {ts follow : List Token}
    {ss : List (Stmt Unit)} {closing : Token} (derived : Declarations true ts ss)
    (few : ts.length < n) (fuel : ts.length ≤ k) (closes : closing.kind = .symbol .rightBrace) :
    Takes (blockItems r k seen) (ts ++ closing :: follow) (closing :: follow)
      fun body => body.map Stmt.bare = (seen.map Stmt.bare).reverse ++ ss := by
  induction k generalizing seen ts ss with
  | zero =>
    cases derived with
    | none => exact takes_pure (by simp)
    | more first =>
      have taken := first.begins.length_pos
      rw [List.length_append] at fuel
      omega
  | succ k ih =>
    cases derived with
    | none => exact Takes.stops closes (takes_pure (by simp))
    | @more ts₁ ts₂ s ss first rest =>
      have taken := first.begins.length_pos
      rw [List.length_append] at few fuel
      rw [List.append_assoc]
      have begins := first.begins.append (ts₂ ++ closing :: follow)
      have next : ¬ Begins (·.sameSort (.keyword .elseKw)) (ts₂ ++ closing :: follow) :=
        rest.not_else (by simp [closes])
      refine Takes.goesOn (begins.not_symbol rfl) (begins.notEnd rfl) ?_
      refine (hr.declaration first (by omega) next).bind fun s? given => ?_
      obtain ⟨s', rfl, same⟩ := given
      refine (ih rest (by omega) (by omega)).mono fun body holds => ?_
      simp [holds, same]

theorem block_takes (k : Nat) {ts follow : List Token} {ss : List (Stmt Unit)} {closing : Token}
    (derived : Declarations true ts ss) (few : ts.length < n) (fuel : ts.length ≤ k)
    (closes : closing.kind = .symbol .rightBrace) :
    Takes (block k r) (ts ++ closing :: follow) follow (·.map Stmt.bare = ss) := by
  refine (blockItems_takes hr k derived few fuel closes).bind fun body holds => ?_
  exact (takes_expectSymbol closes _).bind fun _ _ => takes_pure holds

omit hr in
theorem params_takes (k : Nat) {seen : List Name} {ts follow : List Token} {names : List Name}
    {closing : Token} (derived : Parameters ts names) (fuel : ts.length ≤ k)
    (limit : seen.length + names.length ≤ listLimit)
    (closes : closing.kind = .symbol .rightParen) :
    Takes (params k seen) (ts ++ closing :: follow) (closing :: follow)
      (· = seen.reverse ++ names) := by
  induction k generalizing seen ts names with
  | zero =>
    have taken := derived.begins.length_pos
    omega
  | succ k ih =>
    have inLimit : ¬ argumentLimit ≤ seen.length := by
      have one : 0 < names.length := by cases derived <;> simp
      simp only [argumentLimit, listLimit] at limit ⊢
      omega
    rw [params, if_neg inLimit]
    cases derived with
    | last isName =>
      refine (takes_expectName isName _).bind fun name named => ?_
      refine Takes.passed rfl (by simp [closes]) (takes_pure ?_)
      rw [named, List.reverse_cons]
    | @more name comma ts names isName isComma rest =>
      simp only [List.cons_append, List.length_cons] at fuel limit ⊢
      refine (takes_expectName isName _).bind fun name' named => ?_
      refine Takes.taken (by simp [isComma]) rfl ?_
      refine (ih rest (by omega) (by simp; omega)).mono fun values holds => ?_
      simp [holds, named]

theorem function_takes (sort : String) (k : Nat) {ts follow : List Token} {d : FunctionDecl Unit}
    (derived : Function true ts d) (few : ts.length < n + 1) (fuel : ts.length ≤ k + 1) :
    Takes (function sort k r) (ts ++ follow) follow (·.bare = d) := by
  cases derived with
  | @of name opening closing ts₁ _ names body isName opens parameters closes derived =>
    cases derived with
    | @of brace final ts₂ _ isBrace items isFinal =>
      simp only [List.cons_append, List.append_assoc, List.length_cons, List.length_append,
        List.length_nil, List.nil_append] at few fuel ⊢
      refine (takes_expectName isName _).bind fun name' named => ?_
      refine (takes_expectSymbol opens _).bind fun _ _ => ?_
      have after {names' : List Name} (same : names' = names) :
          Takes (do
            let _ ← expectSymbol .rightParen "after parameters"
            let _ ← expectSymbol .leftBrace s!"before {sort} body"
            return (⟨name', names', ← block k r⟩ : FunctionDecl RefId))
            (closing :: brace :: (ts₂ ++ final :: follow)) follow
            (·.bare = ⟨name.asName, names, body⟩) := by
        refine (takes_expectSymbol closes _).bind fun _ _ => ?_
        refine (takes_expectSymbol isBrace _).bind fun _ _ => ?_
        refine (block_takes hr k items (by omega) (by omega) isFinal).bind fun body' holds => ?_
        refine takes_pure ?_
        rw [FunctionDecl.bare_mk, named, same, holds]
      cases parameters with
      | none =>
        refine Takes.found (by simp [closes]) rfl ?_
        exact (takes_pure (P := (· = [])) rfl).bind fun _ same => after same
      | some parameters limit =>
        refine Takes.missed rfl ((parameters.begins.append _).not_symbol rfl) ?_
        refine (params_takes k parameters (by omega) (by simpa using limit) closes).bind
          fun names' same => after same

theorem methods_takes (k : Nat) {seen : List (FunctionDecl RefId)} {ts follow : List Token}
    {ds : List (FunctionDecl Unit)} {closing : Token} (derived : Functions true ts ds)
    (few : ts.length < n + 1) (fuel : ts.length ≤ k) (closes : closing.kind = .symbol .rightBrace) :
    Takes (methods r k seen) (ts ++ closing :: follow) (closing :: follow)
      fun body => body.map FunctionDecl.bare = (seen.map FunctionDecl.bare).reverse ++ ds := by
  induction k generalizing seen ts ds with
  | zero =>
    cases derived with
    | none => exact takes_pure (by simp)
    | more first =>
      have taken := first.begins.length_pos
      rw [List.length_append] at fuel
      omega
  | succ k ih =>
    cases derived with
    | none => exact Takes.stops closes (takes_pure (by simp))
    | @more ts₁ ts₂ d ds first rest =>
      have taken := first.begins.length_pos
      rw [List.length_append] at few fuel
      rw [List.append_assoc]
      have begins := first.begins.append (ts₂ ++ closing :: follow)
      refine Takes.goesOn (begins.not_symbol rfl) (begins.notEnd rfl) ?_
      refine (function_takes hr "method" k first (by omega) (by omega)).bind fun d' same => ?_
      refine (ih rest (by omega) (by omega)).mono fun body holds => ?_
      simp [holds, same]

omit hr in
theorem superclass_takes {ts follow : List Token} {parent : Option (Reference Unit)}
    (derived : Superclass? ts parent) (next : ¬ Begins (·.sameSort (.symbol .less)) follow) :
    Takes superclass (ts ++ follow) follow (·.map (·.mapMark fun _ _ => ()) = parent) := by
  cases derived with
  | none => exact Takes.passed rfl next (takes_pure rfl)
  | some isLess isName =>
    refine Takes.taken (by simp [isLess]) rfl ?_
    refine (takes_expectName isName _).bind fun name named => ?_
    refine (takes_reference name).bind fun ref same => takes_pure ?_
    rw [Option.map_some, Reference.mapMark, same, named]

omit hr in
theorem expressionStatement_takes {p : Parser (Expr RefId)} {m : Nat}
    (hp : ∀ {ts follow : List Token} {e : Expr Unit}, Expression ts e → ts.length < m →
      Quiet 0 follow → Takes p (ts ++ follow) follow (·.bare = e))
    {ts follow : List Token} {s : Stmt Unit} (derived : ExpressionStmt ts s) (few : ts.length < m) :
    Takes (expressionStatement p) (ts ++ follow) follow (·.bare = s) := by
  cases derived with
  | of derived ends =>
    simp only [List.append_assoc, List.length_append] at few ⊢
    refine (hp derived (by omega) (quiet_symbol ends rfl)).bind fun value same => ?_
    refine (takes_expectSymbol ends _).bind fun _ _ => takes_pure ?_
    rw [← same]
    rfl

theorem optional_takes {ts follow : List Token} {e : Expr Unit} (derived : Expression ts e)
    (few : ts.length < n) (quiet : Quiet 0 follow) :
    Takes (some <$> r.expression) (ts ++ follow) follow (·.map Expr.bare = some e) :=
  ((hr.expression derived few quiet).mono fun _ same => congrArg some same).map

/-- What is read behind the keyword of a variable declaration. -/
theorem variableDeclaration_takes {word : Token} {tokens ts follow : List Token} {s : Stmt Unit}
    (derived : VariableDecl tokens s) (behind : tokens = word :: ts) (few : ts.length < n) :
    Takes (variableDeclaration r) (ts ++ follow) follow (·.bare = s) := by
  cases derived with
  | @plain _ name semicolon isVar isName ends =>
    obtain ⟨rfl, rfl⟩ := List.cons.inj behind
    refine (takes_expectName isName _).bind fun name' named => ?_
    refine Takes.passed rfl (by simp [ends]) ?_
    refine (takes_pure (P := (· = none)) rfl).bind fun initializer none => ?_
    refine (takes_expectSymbol ends _).bind fun _ _ => takes_pure ?_
    rw [named, none]
    rfl
  | @initialized _ name equals semicolon ts e isVar isName isEqual derived ends =>
    rw [List.cons_append] at behind
    obtain ⟨rfl, rfl⟩ := List.cons.inj behind
    simp only [List.cons_append, List.append_assoc, List.length_cons, List.length_append] at few ⊢
    refine (takes_expectName isName _).bind fun name' named => ?_
    refine Takes.taken (by simp [isEqual]) rfl ?_
    refine (optional_takes hr derived (by omega) (quiet_symbol ends rfl)).bind
      fun initializer same => ?_
    refine (takes_expectSymbol ends _).bind fun _ _ => takes_pure ?_
    rw [named, ← same]
    rfl

theorem classDeclaration_takes {name opening closing : Token} {ts ts' follow : List Token}
    {parent : Option (Reference Unit)} {ds : List (FunctionDecl Unit)}
    (isName : name.kind = .identifier) (superclass : Superclass? ts parent)
    (opens : opening.kind = .symbol .leftBrace) (derived : Functions true ts' ds)
    (closes : closing.kind = .symbol .rightBrace) (few : ts'.length < n + 1) :
    Takes (classDeclaration n r) (name :: (ts ++ opening :: (ts' ++ closing :: follow))) follow
      (·.bare = .classDecl name.asName parent ds) := by
  refine (takes_expectName isName _).bind fun name' named => ?_
  refine (superclass_takes superclass (by simp [opens])).bind fun parent' sameParent => ?_
  refine (takes_expectSymbol opens _).bind fun _ _ => ?_
  refine (methods_takes hr n derived few (Nat.le_of_lt_succ few) closes).bind fun body same => ?_
  refine (takes_expectSymbol closes _).bind fun _ _ => takes_pure ?_
  have same : body.map FunctionDecl.bare = ds := same
  simp [Stmt.bare, Stmt.mapMarks, named, sameParent, same]

theorem forInitializer_takes {ts follow : List Token} {initializer : Option (Stmt Unit)}
    (derived : ForInitializer ts initializer) (few : ts.length < n) :
    Takes (forInitializer r) (ts ++ follow) follow (·.map Stmt.bare = initializer) := by
  have given {p : Parser (Stmt RefId)} {input : List Token} {s : Stmt Unit}
      (hp : Takes p input follow (·.bare = s)) :
      Takes (some <$> p) input follow (·.map Stmt.bare = some s) :=
    (hp.mono fun _ same => congrArg some same).map
  cases derived with
  | none ends => exact Takes.taken (by simp [ends]) rfl (takes_pure rfl)
  | «variable» derived =>
    have begins := derived.begins
    obtain ⟨word, rest, rfl⟩ := List.exists_cons_of_ne_nil begins.ne_nil
    have isVar := begins_cons.1 begins
    refine Takes.passed rfl ((begins.append _).not_symbol rfl) (Takes.taken isVar rfl ?_)
    exact given (variableDeclaration_takes hr derived rfl (Nat.lt_of_succ_lt few))
  | expression derived =>
    have begins := derived.begins.append follow
    refine Takes.passed rfl (begins.not_symbol rfl) (Takes.passed rfl (begins.not_keyword rfl) ?_)
    exact given (expressionStatement_takes hr.expression derived few)

/-- The condition of a `for` statement, which is true if it is missing. -/
theorem condition_takes {ts follow : List Token} {semicolon : Token} {condition : Option (Expr Unit)}
    {β : Type} {f : Expr RefId → Parser β} {rest : List Token} {Q : β → Prop}
    (derived : Expression? ts condition) (few : ts.length < n)
    (ends : semicolon.kind = .symbol .semicolon)
    (hf : ∀ e : Expr RefId, e.bare = condition.getD (.literal (.boolean true)) →
      Takes (f e) (semicolon :: rest) follow Q) :
    Takes (checkSymbol .semicolon >>= fun found =>
      if found = true then pure (.literal (.boolean true)) >>= f else r.expression >>= f)
      (ts ++ semicolon :: rest) follow Q := by
  cases derived with
  | none =>
    refine Takes.found (by simp [ends]) rfl ?_
    refine (takes_pure (P := (· = .literal (.boolean true))) rfl).bind fun e same => hf e ?_
    rw [same]
    rfl
  | some derived =>
    refine Takes.missed rfl ((derived.begins.append _).not_symbol rfl) ?_
    exact (hr.expression derived few (quiet_symbol ends rfl)).bind fun e same => hf e same

/-- An expression that may be missing, up to a symbol. -/
theorem missing_takes {ts follow : List Token} {symbol : Symbol} {stop : Token}
    {value : Option (Expr Unit)} {β : Type} {f : Option (Expr RefId) → Parser β} {rest : List Token}
    {Q : β → Prop} (derived : Expression? ts value) (few : ts.length < n)
    (stops : stop.kind = .symbol symbol) (other : beginsExpression (.symbol symbol) = false)
    (quiet : binding (.symbol symbol) = none)
    (hf : ∀ value' : Option (Expr RefId), value'.map Expr.bare = value →
      Takes (f value') (stop :: rest) follow Q) :
    Takes (checkSymbol symbol >>= fun found =>
      if found = true then pure none >>= f else (some <$> r.expression) >>= f)
      (ts ++ stop :: rest) follow Q := by
  cases derived with
  | none =>
    refine Takes.found (by simp [stops]) rfl ?_
    refine (takes_pure (P := (· = none)) rfl).bind fun value' same => hf value' ?_
    rw [same]
    rfl
  | some derived =>
    refine Takes.missed rfl ((derived.begins.append _).not_symbol other) ?_
    exact (optional_takes hr derived few (quiet_symbol stops quiet)).bind hf

/-- The condition of an `if` or a `while` statement, in its parentheses. -/
theorem parenthesized_takes {ts follow : List Token} {opening closing : Token}
    {condition : Expr Unit} {where₁ where₂ : String} {β : Type} {f : Expr RefId → Parser β}
    {rest : List Token} {Q : β → Prop} (opens : opening.kind = .symbol .leftParen)
    (derived : Expression ts condition) (few : ts.length < n)
    (closes : closing.kind = .symbol .rightParen)
    (hf : ∀ e : Expr RefId, e.bare = condition → Takes (f e) rest follow Q) :
    Takes (expectSymbol .leftParen where₁ >>= fun _ => r.expression >>= fun e =>
      expectSymbol .rightParen where₂ >>= fun _ => f e)
      (opening :: (ts ++ closing :: rest)) follow Q := by
  refine (takes_expectSymbol opens _).bind fun _ _ => ?_
  refine (hr.expression derived few (quiet_symbol closes rfl)).bind fun e same => ?_
  exact (takes_expectSymbol closes _).bind fun _ _ => hf e same

theorem statement_takes {isOpen : Bool} {ts follow : List Token} {s : Stmt Unit}
    (derived : Statement true isOpen ts s) (few : ts.length < n + 1)
    (next : isOpen = true → ¬ Begins (·.sameSort (.keyword .elseKw)) follow) :
    Takes (statement n r) (ts ++ follow) follow (·.bare = s) := by
  refine Takes.peek ?_
  cases derived with
  | expression derived =>
    have begins := derived.begins
    obtain ⟨word, rest, rfl⟩ := List.exists_cons_of_ne_nil begins.ne_nil
    have begins := begins_cons.1 begins
    have whole : Takes (expressionStatement (assignment n r)) (word :: rest ++ follow) follow
        (·.bare = s) := expressionStatement_takes (assignment_takes hr) derived few
    simp only [List.cons_append, List.headD_cons] at whole ⊢
    split
    all_goals first
      | exact whole
      | next kind => simp [kind, beginsExpression, beginsCall] at begins
  | @forStmt _ word opening semicolon closing ts₁ ts₂ ts₃ ts₄ initializer condition increment body
      isFor opens first second ends third closes body =>
    simp only [List.cons_append, List.append_assoc, List.headD_cons, isFor, List.length_cons,
      List.length_append] at few ⊢
    refine Takes.advance (Token.isEnd_of_kind isFor rfl) ?_
    refine (takes_expectSymbol opens _).bind fun _ _ => ?_
    refine (forInitializer_takes hr first (by omega)).bind fun initializer' same₁ => ?_
    refine condition_takes hr second (by omega) ends fun condition' same₂ => ?_
    refine (takes_expectSymbol ends _).bind fun _ _ => ?_
    refine missing_takes hr third (by omega) closes rfl rfl fun increment' same₃ => ?_
    refine (takes_expectSymbol closes _).bind fun _ _ => ?_
    refine (hr.statement body (by omega) next).bind fun body' same₄ => takes_pure ?_
    rw [bare_forLoop initializer' same₂, same₁, same₃, same₄]
  | @ifThen isOpen word opening closing ts ts' condition s isIf opens derived closes statement =>
    simp only [List.cons_append, List.append_assoc, List.headD_cons, isIf, List.length_cons,
      List.length_append] at few ⊢
    refine Takes.advance (Token.isEnd_of_kind isIf rfl) ?_
    refine parenthesized_takes hr opens derived (by omega) closes fun condition' same₁ => ?_
    refine (hr.statement statement (by omega) fun _ => next rfl).bind fun s' same₂ => ?_
    refine Takes.passed rfl (next rfl) ((takes_pure (P := (· = none)) rfl).bind
      fun elseBranch none => takes_pure ?_)
    rw [none, ← same₁, ← same₂]
    rfl
  | @ifElse isOpen _ word opening closing word' ts ts' ts'' condition s s' isIf opens derived
      closes statement nearest isElse statement' =>
    simp only [List.cons_append, List.append_assoc, List.headD_cons, isIf, List.length_cons,
      List.length_append] at few ⊢
    refine Takes.advance (Token.isEnd_of_kind isIf rfl) ?_
    refine parenthesized_takes hr opens derived (by omega) closes fun condition' same₁ => ?_
    -- the branch is closed, so the `else` behind it is not its own
    obtain rfl : isOpen = false := nearest rfl
    refine (hr.statement statement (by omega)
      fun isOpen => absurd isOpen Bool.false_ne_true).bind fun thenBranch same₂ => ?_
    refine Takes.taken (by simp [isElse]) rfl ?_
    have elseBranch : Takes (some <$> r.statement) (ts'' ++ follow) follow
        (·.map Stmt.bare = some s') :=
      ((hr.statement statement' (by omega) next).mono fun _ same => congrArg some same).map
    refine elseBranch.bind fun elseBranch same₃ => takes_pure ?_
    obtain ⟨s'', rfl, same₄⟩ := Option.map_eq_some_iff.1 same₃
    rw [← same₁, ← same₂, ← same₄]
    rfl
  | @print word semicolon ts e isPrint derived ends =>
    simp only [List.cons_append, List.append_assoc, List.headD_cons, isPrint, List.length_cons,
      List.length_append] at few ⊢
    refine Takes.advance (Token.isEnd_of_kind isPrint rfl) ?_
    refine (hr.expression derived (by omega) (quiet_symbol ends rfl)).bind fun value same => ?_
    refine (takes_expectSymbol ends _).bind fun _ _ => takes_pure ?_
    rw [← same]
    rfl
  | @ret word semicolon ts value isReturn derived ends =>
    simp only [List.cons_append, List.append_assoc, List.headD_cons, isReturn, List.length_cons,
      List.length_append] at few ⊢
    refine Takes.advance (Token.isEnd_of_kind isReturn rfl) ?_
    refine missing_takes hr derived (by omega) ends rfl rfl fun value' same => ?_
    refine (takes_expectSymbol ends _).bind fun _ _ => takes_pure ?_
    rw [← same]
    rfl
  | @whileStmt isOpen word opening closing ts ts' condition body isWhile opens derived closes body =>
    simp only [List.cons_append, List.append_assoc, List.headD_cons, isWhile, List.length_cons,
      List.length_append] at few ⊢
    refine Takes.advance (Token.isEnd_of_kind isWhile rfl) ?_
    refine parenthesized_takes hr opens derived (by omega) closes fun condition' same₁ => ?_
    refine (hr.statement body (by omega) next).bind fun body' same₂ => takes_pure ?_
    rw [← same₁, ← same₂]
    rfl
  | @block ts ss derived =>
    cases derived with
    | @of opening closing ts _ opens items closes =>
      simp only [List.cons_append, List.append_assoc, List.headD_cons, opens, List.length_cons,
        List.length_append, List.nil_append] at few ⊢
      refine Takes.advance (Token.isEnd_of_kind opens rfl) ?_
      refine (block_takes hr n items (by omega) (by omega) closes).bind fun body same => ?_
      refine takes_pure ?_
      rw [Stmt.bare_block, same]

theorem declarationOrError_takes {ts follow : List Token} {s : Stmt Unit}
    (derived : Declaration true ts s) (few : ts.length < n + 1)
    (next : ¬ Begins (·.sameSort (.keyword .elseKw)) follow) :
    Takes (declarationOrError n r) (ts ++ follow) follow (·.bare = s) := by
  refine Takes.peek ?_
  cases derived with
  | @classDecl word name opening closing ts ts' parent ds isClass isName superclass opens derived
      closes =>
    simp only [List.cons_append, List.append_assoc, List.headD_cons, isClass, List.length_cons,
      List.length_append, List.nil_append] at few ⊢
    refine Takes.advance (Token.isEnd_of_kind isClass rfl) ?_
    exact classDeclaration_takes hr isName superclass opens derived closes (by omega)
  | @function word ts d isFun derived =>
    simp only [List.cons_append, List.headD_cons, isFun, List.length_cons] at few ⊢
    refine Takes.advance (Token.isEnd_of_kind isFun rfl) ?_
    refine (function_takes hr "function" n derived (by omega) (by omega)).bind fun d' same => ?_
    refine takes_pure ?_
    rw [← same]
    rfl
  | «variable» derived =>
    have begins := derived.begins
    obtain ⟨word, rest, rfl⟩ := List.exists_cons_of_ne_nil begins.ne_nil
    have isVar := Kind.sameSort_keyword.1 (begins_cons.1 begins)
    simp only [List.cons_append, List.headD_cons, isVar]
    refine Takes.advance (Token.isEnd_of_kind isVar rfl) ?_
    exact variableDeclaration_takes hr derived rfl (Nat.lt_of_succ_lt_succ few)
  | @statement isOpen ts s derived =>
    have begins := derived.begins
    obtain ⟨word, rest, rfl⟩ := List.exists_cons_of_ne_nil begins.ne_nil
    have begins := begins_cons.1 begins
    have whole := statement_takes hr derived few fun _ => next
    simp only [List.cons_append, List.headD_cons] at whole ⊢
    split
    all_goals first
      | exact whole
      | next kind => simp [kind, Grammar.beginsStatement, beginsExpression, beginsCall] at begins

theorem declaration_takes {ts follow : List Token} {s : Stmt Unit}
    (derived : Declaration true ts s) (few : ts.length < n + 1)
    (next : ¬ Begins (·.sameSort (.keyword .elseKw)) follow) :
    Takes (declaration n r) (ts ++ follow) follow fun s? => ∃ s', s? = some s' ∧ s'.bare = s := by
  intro state left
  obtain ⟨s', state', result, left', kept, same⟩ :=
    declarationOrError_takes hr derived few next state left
  refine ⟨some s', state', ?_, left', kept, s', rfl, same⟩
  rw [declaration, result]

end

theorem rules_complete (n : Nat) : (rules n).Complete n := by
  induction n with
  | zero =>
    exact ⟨fun _ few => absurd few (Nat.not_lt_zero _), fun _ few => absurd few (Nat.not_lt_zero _),
      fun _ few => absurd few (Nat.not_lt_zero _), fun _ few => absurd few (Nat.not_lt_zero _)⟩
  | succ n ih =>
    exact ⟨assignment_takes ih, unary_takes ih, statement_takes ih, declaration_takes ih⟩

theorem programItems_takes {n : Nat} {r : Rules} (hr : r.Complete n) (k : Nat)
    {seen : List (Stmt RefId)} {ts : List Token} {ss : List (Stmt Unit)} {ending : Token}
    (derived : Declarations true ts ss) (few : ts.length < n) (fuel : ts.length < k)
    (ends : ending.kind = .endOfInput) :
    Takes (programItems r k seen) (ts ++ [ending]) [ending]
      fun body => body.map Stmt.bare = (seen.map Stmt.bare).reverse ++ ss := by
  induction k generalizing seen ts ss with
  | zero => exact absurd fuel (Nat.not_lt_zero _)
  | succ k ih =>
    have isEnd : ending.isEnd = true := Kind.sameSort_endOfInput.2 ends
    cases derived with
    | none =>
      refine takes_atEnd.bind fun ended is => ?_
      rw [is, List.nil_append, List.headD_cons, isEnd]
      exact takes_pure (by simp)
    | @more ts₁ ts₂ s ss first rest =>
      have begins := first.begins.append (ts₂ ++ [ending])
      have taken := first.begins.length_pos
      rw [List.length_append] at few fuel
      rw [List.append_assoc]
      refine takes_atEnd.bind fun ended is => ?_
      rw [is, begins.notEnd rfl]
      have next : ¬ Begins (·.sameSort (.keyword .elseKw)) (ts₂ ++ [ending]) :=
        rest.not_else (by simp [ends])
      refine (hr.declaration first (by omega) next).bind fun s? given => ?_
      obtain ⟨s', rfl, same⟩ := given
      refine (ih rest (by omega) (by omega)).mono fun body holds => ?_
      simp [holds, same]

end Parser

open Lox.Parser in
/-- Tokens that derive from the grammar are parsed without an error, with the tree of the
derivation. -/
theorem parseProgram_of_program {tokens : List Token} {tree : List (Stmt Unit)}
    (derived : Program true tokens tree) (firstRef : RefId) :
    (parseProgram tokens firstRef).errors = [] ∧
      (parseProgram tokens firstRef).result.map Stmt.bare = tree := by
  cases derived with
  | @of ending ts _ derived ends =>
    have few : ts.length < (ts ++ [ending]).length + 1 := by
      rw [List.length_append]
      omega
    have takes : Takes (programItems (rules _) _ []) (ts ++ [ending]) [ending]
        fun body => body.map Stmt.bare = tree :=
      programItems_takes (rules_complete _) ((ts ++ [ending]).length + 1) derived few few ends
    obtain ⟨body, s, result, -, kept, same⟩ := takes (.start (ts ++ [ending]) firstRef) rfl
    have none : s.errors = #[] := kept
    simp only [parseProgram, result, none]
    exact ⟨trivial, same⟩

end Lox
