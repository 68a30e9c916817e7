import Lox.Proofs.Parser.Reads

/-!
# Parses without errors are derivations

If a rule records no error, the tokens that it takes derive from the rule of the grammar, with the
tree that it gives.
-/

namespace Lox

open Grammar

/-- Where fewer than `n` tokens are left, the rules take what the grammar derives. -/
structure Rules.Sound (n : Nat) (r : Rules) : Prop where
  expression : Parser.Reads n r.expression fun ts e _ => Expression ts e.bare
  unary : Parser.Reads n r.unary fun ts e _ => Operation .unary ts e.bare
  /-- An `else` behind an open statement would have been taken. -/
  statement : Parser.Reads n r.statement fun ts s follow => ∃ isOpen,
    Statement true isOpen ts s.bare ∧
      (isOpen = true → ¬ Begins (·.sameSort (.keyword .elseKw)) follow)
  declaration : Parser.Reads n r.declaration fun ts s? _ =>
    ∃ s, s? = some s ∧ Declaration true ts s.bare

theorem Rules.Sound.fewer {n m : Nat} {r : Rules} (h : r.Sound n) (le : m ≤ n) : r.Sound m :=
  ⟨h.expression.fewer le, h.unary.fewer le, h.statement.fewer le, h.declaration.fewer le⟩

/-- The tokens are declarations up to a place where they stop. Their trees stand behind those that
`seen` holds, last one first. -/
def Lists (stops : List Token → Prop) (seen : List (Stmt RefId)) (ts : List Token)
    (ss : List (Stmt RefId)) (follow : List Token) : Prop :=
  ∃ more, ss = seen.reverse ++ more ∧ Declarations true ts (more.map Stmt.bare) ∧ stops follow

namespace Parser

/-! ## Operators -/

section

variable (t : Token) (left right : Expr Unit)

theorem join?_factor : Level.factor.join? t left right =
    (factorOp? t.kind).map fun op => .binary op t.line left right := by
  unfold Level.join? factorOp?
  cases t.kind with
  | symbol s => cases s <;> rfl
  | keyword | identifier | string | number | endOfInput => rfl

theorem join?_term : Level.term.join? t left right =
    (termOp? t.kind).map fun op => .binary op t.line left right := by
  unfold Level.join? termOp?
  cases t.kind with
  | symbol s => cases s <;> rfl
  | keyword | identifier | string | number | endOfInput => rfl

theorem join?_comparison : Level.comparison.join? t left right =
    (comparisonOp? t.kind).map fun op => .binary op t.line left right := by
  unfold Level.join? comparisonOp?
  cases t.kind with
  | symbol s => cases s <;> rfl
  | keyword | identifier | string | number | endOfInput => rfl

theorem join?_equality : Level.equality.join? t left right =
    (equalityOp? t.kind).map fun op => .binary op t.line left right := by
  unfold Level.join? equalityOp?
  cases t.kind with
  | symbol s => cases s <;> rfl
  | keyword | identifier | string | number | endOfInput => rfl

theorem join?_and : Level.and.join? t left right =
    if t.kind.sameSort (.keyword .andKw) then some (.logical .and left right) else none := by
  unfold Level.join?
  cases t.kind with
  | keyword k => cases k <;> rfl
  | symbol | identifier | string | number | endOfInput => rfl

theorem join?_or : Level.or.join? t left right =
    if t.kind.sameSort (.keyword .orKw) then some (.logical .or left right) else none := by
  unfold Level.join?
  cases t.kind with
  | keyword k => cases k <;> rfl
  | symbol | identifier | string | number | endOfInput => rfl

end

theorem unaryOp?_eq_some {kind : Kind} {op : UnaryOp} (h : unaryOp? kind = some op) :
    kind = .symbol .bang ∧ op = .not ∨ kind = .symbol .minus ∧ op = .negate := by
  unfold unaryOp? at h
  split at h
  · cases h; exact .inl ⟨rfl, rfl⟩
  · cases h; exact .inr ⟨rfl, rfl⟩
  · cases h

theorem notEnd_of_operator {operator : Kind → Option BinaryOp} {t : Token} {op : BinaryOp}
    (ends : operator .endOfInput = none) (some : operator t.kind = some op) : t.isEnd = false := by
  cases isEnd : t.isEnd with
  | false => rfl
  | true =>
    have kind : t.kind = .endOfInput := by simpa [Token.isEnd] using isEnd
    rw [kind, ends] at some
    cases some

section

variable {n : Nat} {l : Level} {operand : Parser (Expr RefId)}
  (ho : Reads n operand fun ts e _ => Operation l.operand ts e.bare)

include ho

theorem chain_reads {operator : Kind → Option BinaryOp} (ends : operator .endOfInput = none)
    (joins : ∀ (t : Token) (left right : Expr Unit),
      l.join? t left right = (operator t.kind).map fun op => .binary op t.line left right)
    (k : Nat) (left : Expr RefId) :
    Reads n (chain operator operand k left) fun ts e _ => Joined l left.bare ts e.bare := by
  induction k generalizing left with
  | zero =>
    refine reads_pure.mono ?_
    rintro ts e follow ⟨rfl, rfl⟩
    exact .done
  | succ k ih =>
    refine Reads.peek fun t => ?_
    cases isOperator : operator t.kind with
    | none =>
      refine (Reads.at reads_pure t).mono ?_
      rintro ts e follow ⟨rfl, rfl⟩
      exact .done
    | some op =>
      refine (ReadsAt.take (notEnd_of_operator ends isOperator)
        (fun token => ho.bind fun right => ih (.binary op token.line left right))
        (Nat.le_succ n)).mono ?_
      rintro ts e follow ⟨ts', rfl, right, ts₁, ts₂, rfl, operand, rest⟩
      exact .more (by rw [joins, isOperator]; rfl) operand rest

theorem logicalChain_reads {keyword : Keyword} {op : LogicalOp}
    (joins : ∀ (t : Token) (left right : Expr Unit), l.join? t left right =
      if t.kind.sameSort (.keyword keyword) then some (.logical op left right) else none)
    (k : Nat) (left : Expr RefId) :
    Reads n (logicalChain keyword op operand k left)
      fun ts e _ => Joined l left.bare ts e.bare := by
  induction k generalizing left with
  | zero =>
    refine reads_pure.mono ?_
    rintro ts e follow ⟨rfl, rfl⟩
    exact .done
  | succ k ih =>
    refine (Reads.accept (Nat.le_succ n) rfl
      (ho.bind fun right => ih (.logical op left right)) reads_pure).mono ?_
    rintro ts e follow (⟨t, ts', rfl, kind, right, ts₁, ts₂, rfl, operand, rest⟩ | ⟨-, rfl, rfl⟩)
    · exact .more (by rw [joins, kind]; rfl) operand rest
    · exact .done

/-- A level is an operand of the next one and the operands joined to it. -/
theorem level_reads {k : Expr RefId → Parser (Expr RefId)} (binary : l ≠ .unary)
    (hk : ∀ left, Reads n (k left) fun ts e _ => Joined l left.bare ts e.bare) :
    Reads n (operand >>= k) fun ts e _ => Operation l ts e.bare := by
  refine (ho.bind hk).mono ?_
  rintro ts e follow ⟨first, ts₁, ts₂, rfl, derived, rest⟩
  exact .joined binary derived rest

theorem binaryLevel_reads (binary : l ≠ .unary) {operator : Kind → Option BinaryOp}
    (ends : operator .endOfInput = none)
    (joins : ∀ (t : Token) (left right : Expr Unit),
      l.join? t left right = (operator t.kind).map fun op => .binary op t.line left right)
    (k : Nat) :
    Reads n (operand >>= chain operator operand k) fun ts e _ => Operation l ts e.bare :=
  level_reads ho binary fun left => chain_reads ho ends joins k left

theorem logicalLevel_reads (binary : l ≠ .unary) {keyword : Keyword} {op : LogicalOp}
    (joins : ∀ (t : Token) (left right : Expr Unit), l.join? t left right =
      if t.kind.sameSort (.keyword keyword) then some (.logical op left right) else none)
    (k : Nat) :
    Reads n (operand >>= logicalChain keyword op operand k)
      fun ts e _ => Operation l ts e.bare :=
  level_reads ho binary fun left => logicalChain_reads ho joins k left

end

/-! ## Expressions -/

section

variable {n : Nat} {r : Rules} (hr : r.Sound n)

include hr

theorem arguments_reads (k : Nat) (le : k ≤ n) (seen : List (Expr RefId)) :
    Reads k (arguments r k seen) fun ts es _ => ∃ more,
      es = seen.reverse ++ more ∧ Arguments ts (more.map Expr.bare) ∧ es.length ≤ listLimit := by
  induction k generalizing seen with
  | zero => exact reads_zero
  | succ k ih =>
    refine (Reads.afterReport ((hr.expression.fewer le).bind fun argument =>
      Reads.accept (Nat.le_refl _) rfl (ih (Nat.le_of_succ_le le) (argument :: seen))
        reads_pure)).mono ?_
    rintro ts es follow ⟨few, argument, ts₁, ts₂, rfl, derived, rest⟩
    rcases rest with ⟨t, ts', rfl, kind, more, rfl, others, limit⟩ | ⟨-, rfl, rfl⟩
    · refine ⟨argument :: more, by simp, ?_, by simpa using limit⟩
      exact .more derived (Kind.sameSort_symbol.1 kind) others
    · refine ⟨[argument], by simp, ?_, ?_⟩
      · rw [List.append_nil]
        exact .last derived
      · simp only [argumentLimit, listLimit, List.length_reverse, List.length_cons] at few ⊢
        omega

/-- A call has two forms, one without arguments. -/
theorem callOf_reads (k : Nat) (le : k ≤ n) (callee : Expr RefId) :
    Reads k (callOf k r callee) fun ts e _ => ∃ (closing : Token) (values : List (Expr RefId)),
      closing.kind = .symbol .rightParen ∧ e = .call callee closing.line values ∧
        ((ts = [closing] ∧ values = []) ∨
          ∃ ts', ts = ts' ++ [closing] ∧ Arguments ts' (values.map Expr.bare) ∧
            values.length ≤ listLimit) := by
  refine (Reads.checkChoose reads_pure (arguments_reads hr k le []) fun values =>
    Reads.bind (reads_expectSymbol _ _) fun closing => reads_pure).mono ?_
  rintro ts e follow ⟨values, ts₁, ts₂, rfl, read, closing, ts₃, ts₄, rfl, ⟨rfl, kind⟩, rfl, rfl⟩
  refine ⟨closing, values, kind, rfl, ?_⟩
  rcases read with ⟨rfl, rfl⟩ | ⟨more, rfl, derived, limit⟩
  · exact .inl ⟨rfl, rfl⟩
  · exact .inr ⟨ts₁, rfl, derived, limit⟩

theorem suffixes_reads (k : Nat) (le : k ≤ n) (object : Expr RefId) :
    Reads k (suffixes r k object) fun ts e _ => Suffixes object.bare ts e.bare := by
  induction k generalizing object with
  | zero => exact reads_zero
  | succ k ih =>
    have le' : k ≤ n := Nat.le_of_succ_le le
    have property : Reads (k + 1) (acceptSymbol .dot >>= fun taken =>
        if taken = true then
          expectName "property name after '.'" >>= fun name => suffixes r k (.get object name)
        else pure object) fun ts e _ => Suffixes object.bare ts e.bare := by
      refine (Reads.accept (Nat.le_refl _) rfl (Reads.bind (reads_expectName _) fun name =>
        ih le' (.get object name)) reads_pure).mono ?_
      rintro ts e follow (⟨dot, ts', rfl, kind, name, ts₁, ts₂, rfl, ⟨t, rfl, identifier, rfl⟩, rest⟩ |
        ⟨-, rfl, rfl⟩)
      · exact .property (Kind.sameSort_symbol.1 kind) identifier rest
      · exact .done
    refine (Reads.accept (Nat.le_refl _) rfl
      ((callOf_reads hr k le' object).bind fun call => ih le' call) property).mono ?_
    rintro ts e follow (⟨opening, ts', rfl, kind, call, ts₁, ts₂, rfl, read, rest⟩ | ⟨-, holds⟩)
    · obtain ⟨closing, values, closes, rfl, form⟩ := read
      have opens := Kind.sameSort_symbol.1 kind
      rw [Expr.bare_call] at rest
      rcases form with ⟨rfl, rfl⟩ | ⟨ts', rfl, derived, limit⟩
      · exact .call opens closes rest
      · rw [List.append_assoc]
        exact .callWith opens derived (by simpa using limit) closes rest
    · exact holds

omit hr in
theorem superMethod_reads (line : Nat) :
    Reads n (superMethod line) fun ts e _ => ∃ dot name : Token,
      ts = [dot, name] ∧ dot.kind = .symbol .dot ∧ name.kind = .identifier ∧
        e.bare = .super line () name.asName := by
  refine (Reads.bind (reads_expectSymbol _ _) fun _ => Reads.bind (reads_expectName _) fun method =>
    Reads.bind reads_freshRef fun ref => reads_pure).mono ?_
  rintro ts e follow ⟨dot, ts₁, ts₂, rfl, ⟨rfl, isDot⟩, method, ts₃, ts₄, rfl,
    ⟨name, rfl, identifier, rfl⟩, ref, ts₅, ts₆, rfl, rfl, rfl, rfl⟩
  exact ⟨dot, name, rfl, isDot, identifier, rfl⟩

theorem grouping_reads :
    Reads n (grouping r) fun ts e _ => ∃ (ts' : List Token) (inner : Expr Unit) (closing : Token),
      ts = ts' ++ [closing] ∧ Expression ts' inner ∧ closing.kind = .symbol .rightParen ∧
        e.bare = .grouping inner := by
  refine (hr.expression.bind fun inner => Reads.bind (reads_expectSymbol _ _) fun closing =>
    reads_pure).mono ?_
  rintro ts e follow ⟨inner, ts₁, ts₂, rfl, derived, closing, ts₃, ts₄, rfl, ⟨rfl, closes⟩,
    rfl, rfl⟩
  exact ⟨ts₁, inner.bare, closing, rfl, derived, closes, rfl⟩

theorem primary_reads : Reads (n + 1) (primary r) fun ts e _ => Primary ts e.bare := by
  refine Reads.peek fun t => ?_
  have one {literal : Literal} (notEnd : t.isEnd = false)
      (derived : Primary [t] (.literal literal)) :
      ReadsAt (n + 1) t (advance >>= fun _ => pure (Expr.literal literal : Expr RefId))
        fun ts e _ => Primary ts e.bare := by
    refine (ReadsAt.take notEnd (fun _ => reads_pure) (Nat.le_refl (n + 1))).mono ?_
    rintro ts e follow ⟨ts', rfl, rfl, rfl⟩
    exact derived
  split
  case h_1 kind => exact one (Token.isEnd_of_kind kind rfl) (.false kind)
  case h_2 kind => exact one (Token.isEnd_of_kind kind rfl) (.true kind)
  case h_3 kind => exact one (Token.isEnd_of_kind kind rfl) (.nil kind)
  case h_4 kind => exact one (Token.isEnd_of_kind kind rfl) (.number kind)
  case h_5 kind => exact one (Token.isEnd_of_kind kind rfl) (.string kind)
  case h_6 kind =>
    refine (ReadsAt.take (Token.isEnd_of_kind kind rfl)
      (fun _ => Reads.bind reads_freshRef fun ref => reads_pure) (Nat.le_refl (n + 1))).mono ?_
    rintro ts e follow ⟨ts', rfl, ref, ts₁, ts₂, rfl, rfl, rfl, rfl⟩
    exact .this kind
  case h_7 kind =>
    refine (ReadsAt.take (Token.isEnd_of_kind kind rfl)
      (fun _ => superMethod_reads t.line) (Nat.le_refl (n + 1))).mono ?_
    rintro ts e follow ⟨ts', rfl, dot, name, rfl, isDot, identifier, same⟩
    rw [same]
    exact .super kind isDot identifier
  case h_8 kind =>
    refine (ReadsAt.take (Token.isEnd_of_kind kind rfl)
      (fun _ => Reads.bind (reads_reference _) fun ref => reads_pure) (Nat.le_refl (n + 1))).mono ?_
    rintro ts e follow ⟨ts', rfl, ref, ts₁, ts₂, rfl, ⟨rfl, named⟩, rfl, rfl⟩
    have same : (Expr.variable ref).bare = .variable ⟨t.asName, ()⟩ := by
      simp [Expr.bare, Expr.mapMarks, Reference.mapMark, named, Token.asName]
    rw [same]
    exact .name kind
  case h_9 kind =>
    refine (ReadsAt.take (Token.isEnd_of_kind kind rfl)
      (fun _ => grouping_reads hr) (Nat.le_refl (n + 1))).mono ?_
    rintro ts e follow ⟨ts', rfl, ts₁, inner, closing, rfl, derived, closes, same⟩
    rw [same]
    exact .grouping kind derived closes
  case h_10 => exact reads_failHere

theorem call_reads : Reads (n + 1) (call n r) fun ts e _ => Call ts e.bare := by
  refine ((primary_reads hr).bindAfter (suffixes_reads hr n (Nat.le_refl n)) ?_).mono ?_
  · intro ts e follow derived
    have taken := derived.begins.length_pos
    omega
  · rintro ts e follow ⟨object, ts₁, ts₂, rfl, first, rest⟩
    exact .of first rest

theorem unary_reads : Reads (n + 1) (unary n r) fun ts e _ => Operation .unary ts e.bare := by
  refine Reads.peek fun t => ?_
  cases operator : unaryOp? t.kind with
  | none => exact ((call_reads hr).at t).mono fun ts e follow derived => .call derived
  | some op =>
    rcases unaryOp?_eq_some operator with ⟨kind, rfl⟩ | ⟨kind, rfl⟩
    all_goals
      refine (ReadsAt.take (Token.isEnd_of_kind kind rfl)
        (fun token => hr.unary.bind fun e => reads_pure) (Nat.le_refl (n + 1))).mono ?_
      rintro ts e follow ⟨ts', rfl, operand, ts₁, ts₂, rfl, derived, rfl, rfl⟩
      rw [List.append_nil]
    · exact .not kind derived
    · exact .negate kind derived

theorem factor_reads : Reads (n + 1) (factor n r) fun ts e _ => Operation .factor ts e.bare :=
  binaryLevel_reads (l := .factor) (unary_reads hr) (by decide) rfl join?_factor n

theorem term_reads : Reads (n + 1) (term n r) fun ts e _ => Operation .term ts e.bare :=
  binaryLevel_reads (l := .term) (factor_reads hr) (by decide) rfl join?_term n

theorem comparison_reads :
    Reads (n + 1) (comparison n r) fun ts e _ => Operation .comparison ts e.bare :=
  binaryLevel_reads (l := .comparison) (term_reads hr) (by decide) rfl join?_comparison n

theorem equality_reads :
    Reads (n + 1) (equality n r) fun ts e _ => Operation .equality ts e.bare :=
  binaryLevel_reads (l := .equality) (comparison_reads hr) (by decide) rfl join?_equality n

theorem conjunction_reads :
    Reads (n + 1) (conjunction n r) fun ts e _ => Operation .and ts e.bare :=
  logicalLevel_reads (l := .and) (equality_reads hr) (by decide) join?_and n

theorem disjunction_reads :
    Reads (n + 1) (disjunction n r) fun ts e _ => Operation .or ts e.bare :=
  logicalLevel_reads (l := .or) (conjunction_reads hr) (by decide) join?_or n

omit hr in
theorem assignTo_reads (target value : Expr RefId) (equals : Token) :
    Reads n (assignTo target equals value) fun ts e _ => ts = [] ∧
      ((∃ x, target = .variable x ∧ e = .assign x value) ∨
        ∃ o p, target = .get o p ∧ e = .set o p value) := by
  unfold assignTo
  split
  · next x =>
    refine reads_pure.mono ?_
    rintro ts e follow ⟨rfl, rfl⟩
    exact ⟨rfl, .inl ⟨x, rfl, rfl⟩⟩
  · next o p =>
    refine reads_pure.mono ?_
    rintro ts e follow ⟨rfl, rfl⟩
    exact ⟨rfl, .inr ⟨o, p, rfl, rfl⟩⟩
  · refine (Reads.bind reads_report fun _ => reads_pure).mono ?_
    rintro ts e follow ⟨_, _, _, _, impossible, _⟩
    exact impossible.elim

theorem assignment_reads : Reads (n + 1) (assignment n r) fun ts e _ => Expression ts e.bare := by
  refine ((disjunction_reads hr).bindAfter (fun target => Reads.accept (Nat.le_succ n)
    rfl (Reads.after reads_previous fun equals => hr.expression.bind fun value =>
      assignTo_reads target value equals) reads_pure) ?_).mono ?_
  · intro ts e follow derived
    have taken := derived.begins.length_pos
    omega
  · rintro ts e follow ⟨target, ts₁, ts₂, rfl, derived, rest⟩
    rcases rest with ⟨equals, ts', rfl, kind, value, ts₃, ts₄, rfl, assigned, rfl, form⟩ |
      ⟨-, rfl, rfl⟩
    · have isEqual := Kind.sameSort_symbol.1 kind
      rw [List.append_nil]
      rcases form with ⟨x, rfl, rfl⟩ | ⟨o, p, rfl, rfl⟩
      · obtain ⟨name, rfl, isName, same⟩ := derived.eq_variable
        have result : (Expr.assign x value).bare = .assign ⟨name.asName, ()⟩ value.bare := by
          rw [← same]
          rfl
        rw [result]
        exact .assignVariable isName isEqual assigned
      · obtain ⟨ts', dot, name, rfl, object, isDot, isName, rfl⟩ := derived.eq_property
        rw [List.append_assoc]
        exact .assignProperty object isDot isName isEqual assigned
    · rw [List.append_nil]
      exact .operation derived

end

/-! ## Statements -/

section

variable {n : Nat} {r : Rules} (hr : r.Sound n)

include hr

omit hr in
theorem lists_start {stops : List Token → Prop} (seen : List (Stmt RefId)) {follow : List Token}
    (stop : stops follow) : Lists stops seen [] seen.reverse follow :=
  ⟨[], (List.append_nil _).symm, .none, stop⟩

/-- One declaration, and then those that `next` reads. -/
theorem items_reads {m : Nat} (le : n ≤ m + 1) {stops : List Token → Prop}
    {next : List (Stmt RefId) → Parser (List (Stmt RefId))}
    (hn : ∀ seen, Reads m (next seen) (Lists stops seen)) (seen : List (Stmt RefId)) :
    Reads n (r.declaration >>= fun s? =>
      match s? with
      | some s => next (s :: seen)
      | none => next seen) (Lists stops seen) := by
  have go (s? : Option (Stmt RefId)) : Reads m (match s? with
      | some s => next (s :: seen)
      | none => next seen) (Lists stops (s?.elim seen (· :: seen))) := by
    cases s? with
    | none => exact hn seen
    | some s => exact hn (s :: seen)
  refine (hr.declaration.bindAfter go ?_).mono ?_
  · rintro ts s? follow ⟨s, rfl, derived⟩
    have taken := derived.begins.length_pos
    omega
  · rintro ts ss follow ⟨s?, ts₁, ts₂, rfl, ⟨s, rfl, derived⟩, more, rfl, rest, stop⟩
    exact ⟨s :: more, by simp, .more derived rest, stop⟩

theorem blockItems_reads (k : Nat) (seen : List (Stmt RefId)) :
    Reads n (blockItems r k seen) (Lists (fun _ => True) seen) := by
  have done (seen : List (Stmt RefId)) :
      Reads n (pure seen.reverse) (Lists (fun _ => True) seen) := by
    refine reads_pure.mono ?_
    rintro ts ss follow ⟨rfl, rfl⟩
    exact lists_start seen trivial
  induction k generalizing seen with
  | zero => exact done seen
  | succ k ih =>
    refine Reads.after (reads_check _) fun _ => Reads.after
      (reads_atEnd.mono fun _ _ _ h => h.1) fun _ => ?_
    refine ((done seen).ite (items_reads hr (Nat.le_succ n) ih seen)).mono ?_
    rintro ts ss follow (⟨_, read⟩ | ⟨_, read⟩)
    · exact read
    · exact read

/-- What is read behind the opening brace of a block. -/
theorem block_reads (k : Nat) :
    Reads n (block k r) fun ts ss _ => ∃ (ts' : List Token) (closing : Token),
      ts = ts' ++ [closing] ∧ Declarations true ts' (ss.map Stmt.bare) ∧
        closing.kind = .symbol .rightBrace := by
  refine ((blockItems_reads hr k []).bind fun body => Reads.bind (reads_expectSymbol _ _)
    fun closing => reads_pure).mono ?_
  rintro ts ss follow ⟨body, ts₁, ts₂, rfl, ⟨more, rfl, derived, _⟩, closing, ts₃, ts₄, rfl,
    ⟨rfl, closes⟩, rfl, rfl⟩
  exact ⟨ts₁, closing, rfl, derived, closes⟩

omit hr in
theorem params_reads (k : Nat) (seen : List Name) :
    Reads k (params k seen) fun ts names _ => ∃ more,
      names = seen.reverse ++ more ∧ Parameters ts more ∧ names.length ≤ listLimit := by
  induction k generalizing seen with
  | zero => exact reads_zero
  | succ k ih =>
    refine (Reads.afterReport (Reads.bind (reads_expectName _) fun name =>
      Reads.accept (Nat.le_refl _) rfl (ih (name :: seen)) reads_pure)).mono ?_
    rintro ts names follow ⟨few, name, ts₁, ts₂, rfl, ⟨t, rfl, isName, rfl⟩, rest⟩
    rcases rest with ⟨comma, ts', rfl, kind, more, rfl, others, limit⟩ | ⟨-, rfl, rfl⟩
    · refine ⟨t.asName :: more, by simp, ?_, by simpa using limit⟩
      exact .more isName (Kind.sameSort_symbol.1 kind) others
    · refine ⟨[t.asName], by simp, .last isName, ?_⟩
      simp only [argumentLimit, listLimit, List.length_reverse, List.length_cons] at few ⊢
      omega

theorem function_reads (sort : String) (k : Nat) (le : k ≤ n) :
    Reads (k + 1) (function sort k r) fun ts d _ => Function true ts d.bare := by
  have names : Reads k (params k []) fun ts names _ => Parameters? ts names := by
    refine (params_reads k []).mono ?_
    rintro ts names follow ⟨more, rfl, derived, limit⟩
    exact .some derived limit
  have noNames : Reads k (pure ([] : List Name)) fun ts names _ => Parameters? ts names := by
    refine reads_pure.mono ?_
    rintro ts names follow ⟨rfl, rfl⟩
    exact .none
  refine (Reads.bindAfter (reads_expectName _) (fun name =>
    Reads.bind (reads_expectSymbol _ _) fun opening => Reads.checkChoose noNames names fun names =>
      Reads.bind (reads_expectSymbol _ _) fun closing => Reads.bind (reads_expectSymbol _ _)
        fun brace => ((block_reads hr k).fewer le).bind fun body => reads_pure) ?_).mono ?_
  · rintro ts name follow ⟨t, rfl, _⟩
    exact Nat.le_of_eq (Nat.add_comm k 1)
  · rintro ts d follow ⟨name, ts₁, ts₂, rfl, ⟨t, rfl, isName, rfl⟩, opening, ts₃, ts₄, rfl,
      ⟨rfl, opens⟩, names, ts₅, ts₆, rfl, derived, closing, ts₇, ts₈, rfl, ⟨rfl, closes⟩,
      brace, ts₉, ts₁₀, rfl, ⟨rfl, isBrace⟩, body, ts₁₁, ts₁₂, rfl,
      ⟨items, final, rfl, declarations, isFinal⟩, rfl, rfl⟩
    rw [FunctionDecl.bare_mk, List.append_nil]
    have parameters : Parameters? ts₅ names := derived.elim id id
    exact .of isName opens parameters closes (.of isBrace declarations isFinal)

theorem methods_reads (k : Nat) (le : k ≤ n + 1) (seen : List (FunctionDecl RefId)) :
    Reads k (methods r k seen) fun ts ds _ => ∃ more,
      ds = seen.reverse ++ more ∧ Functions true ts (more.map FunctionDecl.bare) := by
  have done {k : Nat} (seen : List (FunctionDecl RefId)) :
      Reads k (pure seen.reverse) fun ts ds _ => ∃ more,
        ds = seen.reverse ++ more ∧ Functions true ts (more.map FunctionDecl.bare) := by
    refine reads_pure.mono ?_
    rintro ts ds follow ⟨rfl, rfl⟩
    exact ⟨[], (List.append_nil _).symm, .none⟩
  induction k generalizing seen with
  | zero => exact done seen
  | succ k ih =>
    refine Reads.after (reads_check _) fun _ => Reads.after
      (reads_atEnd.mono fun _ _ _ h => h.1) fun _ => ?_
    refine ((done seen).ite ((function_reads hr "method" k (Nat.le_of_succ_le_succ le)).bindAfter
      (fun d => ih (Nat.le_of_succ_le le) (d :: seen)) ?_)).mono ?_
    · intro ts d follow derived
      have taken := derived.begins.length_pos
      omega
    · rintro ts ds follow (⟨_, read⟩ | ⟨_, d, ts₁, ts₂, rfl, derived, more, rfl, rest⟩)
      · exact read
      · exact ⟨d :: more, by simp, .more derived rest⟩

omit hr in
theorem superclass_reads :
    Reads n superclass fun ts parent _ => Superclass? ts (parent.map (·.mapMark fun _ _ => ())) := by
  refine (Reads.accept (Nat.le_succ n) rfl (Reads.bind (reads_expectName _) fun name =>
    Reads.bind (reads_reference _) fun ref => reads_pure) reads_pure).mono ?_
  rintro ts parent follow (⟨less, ts', rfl, kind, name, ts₁, ts₂, rfl, ⟨t, rfl, isName, rfl⟩,
    ref, ts₃, ts₄, rfl, ⟨rfl, named⟩, rfl, rfl⟩ | ⟨-, rfl, rfl⟩)
  · rw [Option.map_some, Reference.mapMark, named]
    exact .some (Kind.sameSort_symbol.1 kind) isName
  · exact .none

theorem classDeclaration_reads :
    Reads n (classDeclaration n r) fun ts s _ => ∀ word : Token,
      word.kind = .keyword .classKw → Declaration true (word :: ts) s.bare := by
  refine (Reads.bind (reads_expectName _) fun name => superclass_reads.bind fun parent =>
    Reads.bind (reads_expectSymbol _ _) fun opening => (methods_reads hr n (Nat.le_succ n) []).bind
      fun methods => Reads.bind (reads_expectSymbol _ _) fun closing => reads_pure).mono ?_
  rintro ts s follow ⟨name, ts₁, ts₂, rfl, ⟨t, rfl, isName, rfl⟩, parent, ts₃, ts₄, rfl, derived,
    opening, ts₅, ts₆, rfl, ⟨rfl, opens⟩, methods, ts₇, ts₈, rfl, ⟨more, rfl, functions⟩,
    closing, ts₉, ts₁₀, rfl, ⟨rfl, closes⟩, rfl, rfl⟩ word isClass
  have result : (Stmt.classDecl t.asName parent methods).bare =
      .classDecl t.asName (parent.map (·.mapMark fun _ _ => ())) (methods.map FunctionDecl.bare) := by
    simp [Stmt.bare, Stmt.mapMarks]
  have tokens : word :: ([t] ++ (ts₃ ++ ([opening] ++ (ts₇ ++ ([closing] ++ []))))) =
      word :: t :: ts₃ ++ opening :: ts₇ ++ [closing] := by simp
  rw [result, tokens]
  exact .classDecl isClass isName derived opens functions closes

theorem variableDeclaration_reads :
    Reads n (variableDeclaration r) fun ts s _ => ∀ word : Token,
      word.kind = .keyword .varKw → VariableDecl (word :: ts) s.bare := by
  refine (Reads.bind (reads_expectName _) fun name => Reads.acceptChoose rfl hr.expression.map
    reads_pure fun initializer => Reads.bind (reads_expectSymbol _ _) fun semicolon =>
      reads_pure).mono ?_
  rintro ts s follow ⟨name, ts₁, ts₂, rfl, ⟨t, rfl, isName, rfl⟩, initializer, ts₃, ts₄, rfl, read,
    semicolon, ts₅, ts₆, rfl, ⟨rfl, ends⟩, rfl, rfl⟩ word isVar
  rcases read with ⟨equals, ts', rfl, kind, e, rfl, derived⟩ | ⟨-, rfl, rfl⟩
  · exact .initialized isVar isName (Kind.sameSort_symbol.1 kind) derived ends
  · exact .plain isVar isName ends

omit hr in
theorem expressionStatement_reads {e : Parser (Expr RefId)}
    (he : Reads n e fun ts e _ => Expression ts e.bare) :
    Reads n (expressionStatement e) fun ts s _ => ExpressionStmt ts s.bare := by
  refine (he.bind fun value => Reads.bind (reads_expectSymbol _ _) fun semicolon =>
    reads_pure).mono ?_
  rintro ts s follow ⟨value, ts₁, ts₂, rfl, derived, semicolon, ts₃, ts₄, rfl, ⟨rfl, ends⟩,
    rfl, rfl⟩
  exact .of derived ends

theorem forInitializer_reads :
    Reads n (forInitializer r) fun ts s? _ => ForInitializer ts (s?.map Stmt.bare) := by
  have declared : Reads n (acceptKeyword .varKw >>= fun taken =>
      if taken = true then some <$> variableDeclaration r
      else some <$> expressionStatement r.expression)
      fun ts s? _ => ForInitializer ts (s?.map Stmt.bare) := by
    refine (Reads.accept (Nat.le_succ n) rfl (variableDeclaration_reads hr).map
      (expressionStatement_reads hr.expression).map).mono ?_
    rintro ts s? follow (⟨word, ts', rfl, kind, s, rfl, derived⟩ | ⟨-, s, rfl, derived⟩)
    · exact .variable (derived word (Kind.sameSort_keyword.1 kind))
    · exact .expression derived
  refine (Reads.accept (Nat.le_succ n) rfl reads_pure declared).mono ?_
  rintro ts s? follow (⟨semicolon, ts', rfl, kind, rfl, rfl⟩ | ⟨-, derived⟩)
  · exact .none (Kind.sameSort_symbol.1 kind)
  · exact derived

omit hr in
/-- A `for` statement stands for the same with and without marks. -/
theorem bare_forLoop (initializer : Option (Stmt RefId)) {condition : Expr RefId}
    {condition? : Option (Expr Unit)}
    (same : condition.bare = condition?.getD (.literal (.boolean true)))
    (increment : Option (Expr RefId)) (body : Stmt RefId) :
    (forLoop initializer condition increment body).bare =
      forTree (initializer.map Stmt.bare) condition? (increment.map Expr.bare) body.bare := by
  have loop (step : Stmt RefId) : (Stmt.loop condition step).bare =
      .loop (condition?.getD (.literal (.boolean true))) step.bare := by
    rw [← same]
    rfl
  cases increment <;> cases initializer
  all_goals simp [forLoop, forTree, forBody, loop, Stmt.bare_block]
  all_goals rfl

theorem forStatement_reads {word : Token} (isFor : word.kind = .keyword .forKw) :
    Reads n (forStatement r) fun ts s follow => ∃ isOpen,
      Statement true isOpen (word :: ts) s.bare ∧
        (isOpen = true → ¬ Begins (·.sameSort (.keyword .elseKw)) follow) := by
  refine (Reads.bind (reads_expectSymbol _ _) fun opening => (forInitializer_reads hr).bind
    fun initializer => Reads.checkChoose reads_pure hr.expression fun condition =>
      Reads.bind (reads_expectSymbol _ _) fun semicolon =>
        Reads.checkChoose reads_pure hr.expression.map fun increment =>
          Reads.bind (reads_expectSymbol _ _) fun closing => hr.statement.bind fun body =>
            reads_pure).mono ?_
  rintro ts s follow ⟨opening, ts₁, ts₂, rfl, ⟨rfl, opens⟩, initializer, ts₃, ts₄, rfl, first,
    condition, ts₅, ts₆, rfl, second, semicolon, ts₇, ts₈, rfl, ⟨rfl, ends⟩,
    increment, ts₉, ts₁₀, rfl, third, closing, ts₁₁, ts₁₂, rfl, ⟨rfl, closes⟩,
    body, ts₁₃, ts₁₄, rfl, ⟨isOpen, statement, next⟩, rfl, rfl⟩
  have second : ∃ condition?, Expression? ts₅ condition? ∧
      condition.bare = condition?.getD (.literal (.boolean true)) := by
    rcases second with ⟨rfl, rfl⟩ | derived
    · exact ⟨none, .none, rfl⟩
    · exact ⟨some condition.bare, .some derived, rfl⟩
  have third : Expression? ts₉ (increment.map Expr.bare) := by
    rcases third with ⟨rfl, rfl⟩ | ⟨e, rfl, derived⟩
    · exact .none
    · exact .some derived
  obtain ⟨condition?, second, same⟩ := second
  have tokens : word :: ([opening] ++ (ts₃ ++ (ts₅ ++ ([semicolon] ++ (ts₉ ++ ([closing] ++
      (ts₁₃ ++ []))))))) = word :: opening :: ts₃ ++ ts₅ ++ semicolon :: ts₉ ++ closing :: ts₁₃ := by
    simp
  refine ⟨isOpen, ?_, next⟩
  rw [bare_forLoop initializer same, tokens]
  exact .forStmt isFor opens first second ends third closes statement

theorem ifStatement_reads {word : Token} (isIf : word.kind = .keyword .ifKw) :
    Reads n (ifStatement r) fun ts s follow => ∃ isOpen,
      Statement true isOpen (word :: ts) s.bare ∧
        (isOpen = true → ¬ Begins (·.sameSort (.keyword .elseKw)) follow) := by
  refine (Reads.bind (reads_expectSymbol _ _) fun opening => hr.expression.bind fun condition =>
    Reads.bind (reads_expectSymbol _ _) fun closing => hr.statement.bind fun thenBranch =>
      Reads.acceptChoose rfl hr.statement.map reads_pure fun elseBranch => reads_pure).mono ?_
  rintro ts s follow ⟨opening, ts₁, ts₂, rfl, ⟨rfl, opens⟩, condition, ts₃, ts₄, rfl, derived,
    closing, ts₅, ts₆, rfl, ⟨rfl, closes⟩, thenBranch, ts₇, ts₈, rfl, ⟨isOpen, statement, next⟩,
    elseBranch, ts₉, ts₁₀, rfl, read, rfl, rfl⟩
  rcases read with ⟨elseWord, ts', rfl, kind, s, rfl, isOpen', statement', next'⟩ |
    ⟨noElse, rfl, rfl⟩
  · have isElse := Kind.sameSort_keyword.1 kind
    have closed : isOpen = false := by
      cases isOpen with
      | false => rfl
      | true => exact absurd (by simp [isElse]) (next rfl)
    refine ⟨isOpen', ?_, next'⟩
    have tokens : word :: ([opening] ++ (ts₃ ++ ([closing] ++ (ts₇ ++ (elseWord :: ts' ++ []))))) =
        word :: opening :: ts₃ ++ closing :: ts₇ ++ elseWord :: ts' := by simp
    rw [tokens]
    exact .ifElse isIf opens derived closes statement (fun _ => closed) isElse statement'
  · refine ⟨true, ?_, fun _ => noElse⟩
    have tokens : word :: ([opening] ++ (ts₃ ++ ([closing] ++ (ts₇ ++ ([] ++ []))))) =
        word :: opening :: ts₃ ++ closing :: ts₇ := by simp
    rw [tokens]
    exact .ifThen isIf opens derived closes statement

theorem whileStatement_reads {word : Token} (isWhile : word.kind = .keyword .whileKw) :
    Reads n (whileStatement r) fun ts s follow => ∃ isOpen,
      Statement true isOpen (word :: ts) s.bare ∧
        (isOpen = true → ¬ Begins (·.sameSort (.keyword .elseKw)) follow) := by
  refine (Reads.bind (reads_expectSymbol _ _) fun opening => hr.expression.bind fun condition =>
    Reads.bind (reads_expectSymbol _ _) fun closing => hr.statement.bind fun body =>
      reads_pure).mono ?_
  rintro ts s follow ⟨opening, ts₁, ts₂, rfl, ⟨rfl, opens⟩, condition, ts₃, ts₄, rfl, derived,
    closing, ts₅, ts₆, rfl, ⟨rfl, closes⟩, body, ts₇, ts₈, rfl, ⟨isOpen, statement, next⟩, rfl, rfl⟩
  refine ⟨isOpen, ?_, next⟩
  rw [List.append_nil]
  exact .whileStmt isWhile opens derived closes statement

theorem returnStatement_reads {word : Token} (isReturn : word.kind = .keyword .returnKw) :
    Reads n (returnStatement word.line r) fun ts s _ =>
      Statement true false (word :: ts) s.bare := by
  refine (Reads.checkChoose reads_pure hr.expression.map fun value =>
    Reads.bind (reads_expectSymbol _ _) fun semicolon => reads_pure).mono ?_
  rintro ts s follow ⟨value, ts₁, ts₂, rfl, read, semicolon, ts₃, ts₄, rfl, ⟨rfl, ends⟩, rfl, rfl⟩
  have derived : Expression? ts₁ (value.map Expr.bare) := by
    rcases read with ⟨rfl, rfl⟩ | ⟨e, rfl, derived⟩
    · exact .none
    · exact .some derived
  exact .ret isReturn derived ends

theorem printStatement_reads {word : Token} (isPrint : word.kind = .keyword .printKw) :
    Reads n (printStatement r) fun ts s _ => Statement true false (word :: ts) s.bare := by
  refine (hr.expression.bind fun value => Reads.bind (reads_expectSymbol _ _) fun semicolon =>
    reads_pure).mono ?_
  rintro ts s follow ⟨value, ts₁, ts₂, rfl, derived, semicolon, ts₃, ts₄, rfl, ⟨rfl, ends⟩, rfl, rfl⟩
  exact .print isPrint derived ends

theorem statement_reads :
    Reads (n + 1) (statement n r) fun ts s follow => ∃ isOpen,
      Statement true isOpen ts s.bare ∧
        (isOpen = true → ¬ Begins (·.sameSort (.keyword .elseKw)) follow) := by
  refine Reads.peek fun word => ?_
  split
  case h_1 kind =>
    refine (ReadsAt.take (Token.isEnd_of_kind kind rfl) (fun _ => forStatement_reads hr kind)
      (Nat.le_refl (n + 1))).mono ?_
    rintro ts s follow ⟨ts', rfl, read⟩
    exact read
  case h_2 kind =>
    refine (ReadsAt.take (Token.isEnd_of_kind kind rfl) (fun _ => ifStatement_reads hr kind)
      (Nat.le_refl (n + 1))).mono ?_
    rintro ts s follow ⟨ts', rfl, read⟩
    exact read
  case h_3 kind =>
    refine (ReadsAt.take (Token.isEnd_of_kind kind rfl) (fun _ => whileStatement_reads hr kind)
      (Nat.le_refl (n + 1))).mono ?_
    rintro ts s follow ⟨ts', rfl, read⟩
    exact read
  case h_4 kind =>
    refine (ReadsAt.take (Token.isEnd_of_kind kind rfl) (fun _ => returnStatement_reads hr kind)
      (Nat.le_refl (n + 1))).mono ?_
    rintro ts s follow ⟨ts', rfl, read⟩
    exact ⟨false, read, nofun⟩
  case h_5 kind =>
    refine (ReadsAt.take (Token.isEnd_of_kind kind rfl)
      (fun _ => (block_reads hr n).bind fun body => reads_pure) (Nat.le_refl (n + 1))).mono ?_
    rintro ts s follow ⟨ts', rfl, body, ts₁, ts₂, rfl, ⟨items, closing, rfl, derived, closes⟩,
      rfl, rfl⟩
    rw [Stmt.bare_block, List.append_nil]
    exact ⟨false, .block (.of kind derived closes), nofun⟩
  case h_6 kind =>
    refine (ReadsAt.take (Token.isEnd_of_kind kind rfl) (fun _ => printStatement_reads hr kind)
      (Nat.le_refl (n + 1))).mono ?_
    rintro ts s follow ⟨ts', rfl, read⟩
    exact ⟨false, read, nofun⟩
  case h_7 =>
    refine ((expressionStatement_reads (assignment_reads hr)).at word).mono ?_
    intro ts s follow read
    exact ⟨false, .expression read, nofun⟩

theorem declarationOrError_reads :
    Reads (n + 1) (declarationOrError n r) fun ts s _ => Declaration true ts s.bare := by
  refine Reads.peek fun word => ?_
  split
  case h_1 kind =>
    refine (ReadsAt.take (Token.isEnd_of_kind kind rfl) (fun _ => classDeclaration_reads hr)
      (Nat.le_refl (n + 1))).mono ?_
    rintro ts s follow ⟨ts', rfl, read⟩
    exact read word kind
  case h_2 kind =>
    refine (ReadsAt.take (Token.isEnd_of_kind kind rfl)
      (fun _ => (function_reads hr "function" n (Nat.le_refl n)).bind fun d => reads_pure)
      (Nat.le_succ (n + 1))).mono ?_
    rintro ts s follow ⟨ts', rfl, d, ts₁, ts₂, rfl, derived, rfl, rfl⟩
    rw [List.append_nil]
    exact .function kind derived
  case h_3 kind =>
    refine (ReadsAt.take (Token.isEnd_of_kind kind rfl) (fun _ => variableDeclaration_reads hr)
      (Nat.le_refl (n + 1))).mono ?_
    rintro ts s follow ⟨ts', rfl, read⟩
    exact .variable (read word kind)
  case h_4 =>
    refine ((statement_reads hr).at word).mono ?_
    rintro ts s follow ⟨isOpen, derived, _⟩
    exact .statement derived

theorem declaration_reads :
    Reads (n + 1) (declaration n r) fun ts s? _ =>
      ∃ s, s? = some s ∧ Declaration true ts s.bare := by
  intro s
  have given := declarationOrError_reads hr s
  unfold declaration
  revert given
  cases declarationOrError n r s with
  | ok stmt s' =>
    rintro ⟨le, took⟩
    refine ⟨le, fun same fits => ?_⟩
    obtain ⟨ts, rest, notEnd, derived⟩ := took same fits
    exact ⟨ts, rest, notEnd, stmt, rfl, derived⟩
  | error e s' =>
    intro le
    have more : (synchronize (s'.record e)).errors.size = s'.errors.size + 1 := by
      simp only [synchronize, ParseState.errors_advance]
      exact Array.size_push _
    refine ⟨by rw [more]; exact Nat.le_succ_of_le le, fun same => ?_⟩
    rw [more] at same
    omega

end

theorem rules_sound (n : Nat) : (rules n).Sound n := by
  induction n with
  | zero => exact ⟨reads_failHere, reads_failHere, reads_failHere, reads_zero⟩
  | succ n ih =>
    exact ⟨assignment_reads ih, unary_reads ih, statement_reads ih, declaration_reads ih⟩

/-- The items of a program stop at the end only. -/
theorem programItems_reads {n : Nat} {r : Rules} (hr : r.Sound n) (k : Nat) (le : k ≤ n)
    (seen : List (Stmt RefId)) :
    Reads k (programItems r k seen)
      (Lists (fun follow => (follow.headD Token.missingEnd).isEnd = true) seen) := by
  induction k generalizing seen with
  | zero => exact reads_zero
  | succ k ih =>
    have items := items_reads (hr.fewer le) (Nat.le_refl _) (ih (Nat.le_of_succ_le le)) seen
    refine (Reads.bind reads_atEnd fun ended => Reads.ite reads_pure items).mono ?_
    rintro ts ss follow ⟨ended, ts₁, ts₂, rfl, ⟨rfl, isEnd⟩, ⟨stop, rfl, rfl⟩ | ⟨_, read⟩⟩
    · exact lists_start seen (isEnd.symm.trans stop)
    · exact read

end Parser

open Lox.Parser in
/-- Tokens that are parsed without an error derive from the grammar up to an end, with the tree that
the parse gives. -/
theorem parseProgram_derives {tokens : List Token} {firstRef : RefId}
    (noErrors : (parseProgram tokens firstRef).errors = []) :
    ∃ ts follow, tokens = ts ++ follow ∧ (∀ t ∈ ts, t.isEnd = false) ∧
      Declarations true ts ((parseProgram tokens firstRef).result.map Stmt.bare) ∧
        (follow.headD Token.missingEnd).isEnd = true := by
  have read := programItems_reads (rules_sound (tokens.length + 1)) _ (Nat.le_refl _) []
    (.start tokens firstRef)
  simp only [parseProgram] at noErrors ⊢
  revert read noErrors
  cases programItems (rules (tokens.length + 1)) (tokens.length + 1) []
      (.start tokens firstRef) with
  | error e s => simp
  | ok ss s =>
    intro noErrors ⟨_, took⟩
    have empty : s.errors = #[] := Array.toList_eq_nil_iff.1 noErrors
    have same : s.errors.size = (ParseState.start tokens firstRef).errors.size := by
      rw [empty]
      rfl
    obtain ⟨ts, rest, notEnd, more, rfl, derived, ends⟩ := took same (Nat.lt_succ_self _)
    exact ⟨ts, s.rest, rest, notEnd, derived, ends⟩

end Lox
