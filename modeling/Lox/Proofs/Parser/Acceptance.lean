import Lox.Proofs.Parser.Completeness

/-!
# What the parser accepts

The grammar leaves open which `if` an `else` belongs to. Whatever it derives, it also derives with
every `else` at the nearest `if`, and that derivation is the one that the parse finds; so tokens are
parsed without an error exactly if the grammar derives them.
-/

namespace Lox

namespace Grammar

/-! ## The nearest `if` -/

mutual

theorem Declaration.toAny : ∀ {ts : List Token} {s : Stmt Unit},
    Declaration true ts s → Declaration false ts s
  | _, _, .classDecl isClass isName parent opens methods closes =>
    .classDecl isClass isName parent opens methods.toAny closes
  | _, _, .function isFun d => .function isFun d.toAny
  | _, _, .variable d => .variable d
  | _, _, .statement s => .statement s.toAny

theorem Declarations.toAny : ∀ {ts : List Token} {ss : List (Stmt Unit)},
    Declarations true ts ss → Declarations false ts ss
  | _, _, .none => .none
  | _, _, .more first rest => .more first.toAny rest.toAny

theorem Block.toAny : ∀ {ts : List Token} {ss : List (Stmt Unit)},
    Block true ts ss → Block false ts ss
  | _, _, .of opens items closes => .of opens items.toAny closes

theorem Function.toAny : ∀ {ts : List Token} {d : FunctionDecl Unit},
    Function true ts d → Function false ts d
  | _, _, .of isName opens parameters closes body =>
    .of isName opens parameters closes body.toAny

theorem Functions.toAny : ∀ {ts : List Token} {ds : List (FunctionDecl Unit)},
    Functions true ts ds → Functions false ts ds
  | _, _, .none => .none
  | _, _, .more first rest => .more first.toAny rest.toAny

theorem Statement.toAny : ∀ {isOpen : Bool} {ts : List Token} {s : Stmt Unit},
    Statement true isOpen ts s → Statement false isOpen ts s
  | _, _, _, .expression e => .expression e
  | _, _, _, .forStmt isFor opens first second ends third closes body =>
    .forStmt isFor opens first second ends third closes body.toAny
  | _, _, _, .ifThen isIf opens condition closes s => .ifThen isIf opens condition closes s.toAny
  | _, _, _, .ifElse isIf opens condition closes s _ isElse s' =>
    .ifElse isIf opens condition closes s.toAny nofun isElse s'.toAny
  | _, _, _, .print isPrint e ends => .print isPrint e ends
  | _, _, _, .ret isReturn value ends => .ret isReturn value ends
  | _, _, _, .whileStmt isWhile opens condition closes body =>
    .whileStmt isWhile opens condition closes body.toAny
  | _, _, _, .block b => .block b.toAny

end

/-- An `else` behind an open statement can be attached to its last `if`. -/
theorem Statement.attach {word : Token} (isElse : word.kind = .keyword .elseKw) {ts' : List Token}
    (other : ∃ isOpen' s', Statement true isOpen' ts' s') :
    ∀ {isOpen : Bool} {ts : List Token} {s : Stmt Unit}, Statement true isOpen ts s →
      isOpen = true → ∃ isOpen₁ s₁, Statement true isOpen₁ (ts ++ word :: ts') s₁
  | _, _, _, .expression _ => nofun
  | _, _, _, .print _ _ _ => nofun
  | _, _, _, .ret _ _ _ => nofun
  | _, _, _, .block _ => nofun
  | _, _, _, .forStmt isFor opens first second ends third closes body => by
    intro isOpen
    obtain ⟨_, _, body⟩ := body.attach isElse other isOpen
    have whole := Statement.forStmt isFor opens first second ends third closes body
    simp only [List.cons_append, List.append_assoc] at whole ⊢
    exact ⟨_, _, whole⟩
  | _, _, _, @Statement.ifThen _ isOpen _ _ _ _ _ _ _ isIf opens condition closes branch => by
    intro _
    have attached := branch.attach isElse other
    obtain ⟨_, _, other⟩ := other
    cases isOpen with
    | true =>
      obtain ⟨_, _, branch⟩ := attached rfl
      have whole := Statement.ifThen isIf opens condition closes branch
      simp only [List.cons_append, List.append_assoc] at whole ⊢
      exact ⟨_, _, whole⟩
    | false =>
      exact ⟨_, _, .ifElse isIf opens condition closes branch (fun _ => rfl) isElse other⟩
  | _, _, _, .ifElse isIf opens condition closes branch nearest isElse' branch' => by
    intro isOpen
    obtain ⟨_, _, branch'⟩ := branch'.attach isElse other isOpen
    have whole := Statement.ifElse isIf opens condition closes branch nearest isElse' branch'
    simp only [List.cons_append, List.append_assoc] at whole ⊢
    exact ⟨_, _, whole⟩
  | _, _, _, .whileStmt isWhile opens condition closes body => by
    intro isOpen
    obtain ⟨_, _, body⟩ := body.attach isElse other isOpen
    have whole := Statement.whileStmt isWhile opens condition closes body
    simp only [List.cons_append, List.append_assoc] at whole ⊢
    exact ⟨_, _, whole⟩

mutual

theorem Declaration.toNearest : ∀ {ts : List Token} {s : Stmt Unit},
    Declaration false ts s → ∃ s', Declaration true ts s'
  | _, _, .classDecl isClass isName parent opens methods closes =>
    let ⟨_, methods⟩ := methods.toNearest
    ⟨_, .classDecl isClass isName parent opens methods closes⟩
  | _, _, .function isFun d =>
    let ⟨_, d⟩ := d.toNearest
    ⟨_, .function isFun d⟩
  | _, _, .variable d => ⟨_, .variable d⟩
  | _, _, .statement s =>
    let ⟨_, _, s⟩ := s.toNearest
    ⟨_, .statement s⟩

theorem Declarations.toNearest : ∀ {ts : List Token} {ss : List (Stmt Unit)},
    Declarations false ts ss → ∃ ss', Declarations true ts ss'
  | _, _, .none => ⟨_, .none⟩
  | _, _, .more first rest =>
    let ⟨_, first⟩ := first.toNearest
    let ⟨_, rest⟩ := rest.toNearest
    ⟨_, .more first rest⟩

theorem Block.toNearest : ∀ {ts : List Token} {ss : List (Stmt Unit)},
    Block false ts ss → ∃ ss', Block true ts ss'
  | _, _, .of opens items closes =>
    let ⟨_, items⟩ := items.toNearest
    ⟨_, .of opens items closes⟩

theorem Function.toNearest : ∀ {ts : List Token} {d : FunctionDecl Unit},
    Function false ts d → ∃ d', Function true ts d'
  | _, _, .of isName opens parameters closes body =>
    let ⟨_, body⟩ := body.toNearest
    ⟨_, .of isName opens parameters closes body⟩

theorem Functions.toNearest : ∀ {ts : List Token} {ds : List (FunctionDecl Unit)},
    Functions false ts ds → ∃ ds', Functions true ts ds'
  | _, _, .none => ⟨_, .none⟩
  | _, _, .more first rest =>
    let ⟨_, first⟩ := first.toNearest
    let ⟨_, rest⟩ := rest.toNearest
    ⟨_, .more first rest⟩

/-- Where a branch is open, the `else` behind it goes to an `if` within it. -/
theorem Statement.toNearest : ∀ {isOpen : Bool} {ts : List Token} {s : Stmt Unit},
    Statement false isOpen ts s → ∃ isOpen' s', Statement true isOpen' ts s'
  | _, _, _, .expression e => ⟨_, _, .expression e⟩
  | _, _, _, .forStmt isFor opens first second ends third closes body =>
    let ⟨_, _, body⟩ := body.toNearest
    ⟨_, _, .forStmt isFor opens first second ends third closes body⟩
  | _, _, _, .ifThen isIf opens condition closes s =>
    let ⟨_, _, s⟩ := s.toNearest
    ⟨_, _, .ifThen isIf opens condition closes s⟩
  | _, _, _, .ifElse isIf opens condition closes s _ isElse s' => by
    obtain ⟨isOpen, _, branch⟩ := s.toNearest
    obtain ⟨_, _, other⟩ := s'.toNearest
    cases isOpen with
    | false => exact ⟨_, _, .ifElse isIf opens condition closes branch (fun _ => rfl) isElse other⟩
    | true =>
      obtain ⟨_, _, branch⟩ := branch.attach isElse ⟨_, _, other⟩ rfl
      have whole := Statement.ifThen isIf opens condition closes branch
      simp only [List.cons_append, List.append_assoc] at whole ⊢
      exact ⟨_, _, whole⟩
  | _, _, _, .print isPrint e ends => ⟨_, _, .print isPrint e ends⟩
  | _, _, _, .ret isReturn value ends => ⟨_, _, .ret isReturn value ends⟩
  | _, _, _, .whileStmt isWhile opens condition closes body =>
    let ⟨_, _, body⟩ := body.toNearest
    ⟨_, _, .whileStmt isWhile opens condition closes body⟩
  | _, _, _, .block b =>
    let ⟨_, b⟩ := b.toNearest
    ⟨_, _, .block b⟩

end

theorem Program.toAny {ts : List Token} {tree : List (Stmt Unit)} (h : Program true ts tree) :
    Program false ts tree := by
  cases h with
  | of items ends => exact .of items.toAny ends

theorem Program.toNearest {ts : List Token} {tree : List (Stmt Unit)} (h : Program false ts tree) :
    ∃ tree', Program true ts tree' := by
  cases h with
  | of items ends =>
    obtain ⟨tree', items⟩ := items.toNearest
    exact ⟨tree', .of items ends⟩

end Grammar

open Grammar

/-! ## Acceptance -/

/-- The last token is the end, and no other is. -/
def EndsOnce (tokens : List Token) : Prop :=
  ∃ (ts : List Token) (ending : Token), tokens = ts ++ [ending] ∧ ending.isEnd = true ∧
    ∀ t ∈ ts, t.isEnd = false

/-- What is taken up to an end is taken up to the only one. -/
theorem taken_of_endsOnce {ts taken follow : List Token} {ending : Token}
    (isEnd : ending.isEnd = true) (others : ∀ t ∈ ts, t.isEnd = false)
    (split : ts ++ [ending] = taken ++ follow) (notEnd : ∀ t ∈ taken, t.isEnd = false)
    (stop : (follow.headD Token.missingEnd).isEnd = true) : taken = ts ∧ follow = [ending] := by
  cases follow with
  | nil =>
    have mem : ending ∈ taken := by
      rw [List.append_nil] at split
      simp [← split]
    exact absurd isEnd (by simp [notEnd ending mem])
  | cons t rest =>
    rcases List.eq_nil_or_concat rest with rfl | ⟨inner, last, rfl⟩
    · obtain ⟨same, sameEnd⟩ := List.append_inj' split rfl
      exact ⟨same.symm, by rw [List.singleton_inj.1 sameEnd]⟩
    · have whole : ts ++ [ending] = (taken ++ t :: inner) ++ [last] := by simpa using split
      have mem : t ∈ ts := by
        rw [(List.append_inj' whole rfl).1]
        simp
      exact absurd stop (by simp [others t mem])

/-- What is parsed without an error up to an end is parsed up to the only one. -/
theorem program_of_noErrors {tokens : List Token} (ends : EndsOnce tokens) {firstRef : RefId}
    (noErrors : (parseProgram tokens firstRef).errors = []) :
    Program true tokens ((parseProgram tokens firstRef).result.map Stmt.bare) := by
  obtain ⟨ts, ending, rfl, isEnd, others⟩ := ends
  obtain ⟨taken, follow, split, notEnd, derived, stop⟩ := parseProgram_derives noErrors
  obtain ⟨rfl, rfl⟩ := taken_of_endsOnce isEnd others split notEnd stop
  exact .of derived (Kind.sameSort_endOfInput.1 isEnd)

/-- **The parser accepts exactly its grammar.** A token list that ends in its only end token is
parsed without an error exactly if the grammar derives it. Then there is one derivation with every
`else` at the nearest `if`, and what the parse gives is its tree, up to the numbers of references. -/
theorem accepts_iff_derives {tokens : List Token} (ends : EndsOnce tokens) (firstRef : RefId) :
    ((parseProgram tokens firstRef).errors = [] ↔ ∃ tree, Program false tokens tree) ∧
      ((parseProgram tokens firstRef).errors = [] → ∀ tree, Program true tokens tree ↔
        tree = (parseProgram tokens firstRef).result.map Stmt.bare) := by
  constructor
  · constructor
    · intro noErrors
      exact ⟨_, (program_of_noErrors ends noErrors).toAny⟩
    · rintro ⟨tree, derived⟩
      obtain ⟨tree', derived⟩ := derived.toNearest
      exact (parseProgram_of_program derived firstRef).1
  · intro noErrors tree
    constructor
    · intro derived
      exact (parseProgram_of_program derived firstRef).2.symm
    · rintro rfl
      exact program_of_noErrors ends noErrors

/-- The tokens of a statement whose `else` could belong to either `if`. -/
def danglingElse : List Token :=
  [⟨.keyword .ifKw, "if", 1⟩, ⟨.symbol .leftParen, "(", 1⟩, ⟨.identifier, "a", 1⟩,
    ⟨.symbol .rightParen, ")", 1⟩, ⟨.keyword .ifKw, "if", 1⟩, ⟨.symbol .leftParen, "(", 1⟩,
    ⟨.identifier, "b", 1⟩, ⟨.symbol .rightParen, ")", 1⟩, ⟨.identifier, "c", 1⟩,
    ⟨.symbol .semicolon, ";", 1⟩, ⟨.keyword .elseKw, "else", 1⟩, ⟨.identifier, "d", 1⟩,
    ⟨.symbol .semicolon, ";", 1⟩, ⟨.endOfInput, "", 1⟩]

/-- An `else` that could belong to either `if` belongs to the nearest. -/
theorem accepts_danglingElse :
    EndsOnce danglingElse ∧ (parseProgram danglingElse 0).errors = [] ∧
      ∀ tree, Program true danglingElse tree ↔
        tree = [.conditional (.variable ⟨⟨"a", 1⟩, ()⟩)
          (.conditional (.variable ⟨⟨"b", 1⟩, ()⟩) (.expression (.variable ⟨⟨"c", 1⟩, ()⟩))
            (some (.expression (.variable ⟨⟨"d", 1⟩, ()⟩)))) none] := by
  have ends : EndsOnce danglingElse :=
    ⟨danglingElse.dropLast, ⟨.endOfInput, "", 1⟩, rfl, rfl,
      by simp [danglingElse, Token.isEnd, Kind.sameSort]⟩
  have noErrors : (parseProgram danglingElse 0).errors = [] := rfl
  exact ⟨ends, noErrors, (accepts_iff_derives ends 0).2 noErrors⟩

end Lox
