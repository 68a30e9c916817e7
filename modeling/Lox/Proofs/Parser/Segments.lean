import Lox.Proofs.Parser.Progress
import Lox.Proofs.Parser.Sites

/-!
# Errors stay local

A program is cut into segments: declarations without an error, and statements that may be in error
but are simple enough that the semicolon behind them is the next boundary. `ReadsAs ts trees errors`
says that the tokens of a segment are read in the same way wherever they stand. For declarations
without an error that is the completeness of the rules, for simple statements it is read off the
parse of the statement alone.
-/

namespace Lox

open Grammar Pairing Lox.Parser

/-! ## Segments -/

/-- The words of the statements that a semicolon ends. -/
def Keyword.isSimple : Keyword → Bool
  | .varKw | .printKw | .returnKw => true
  | _ => false

/-- A statement, perhaps in error, that ends in its only semicolon. It has no word that begins a
statement, except perhaps `var`, `print` or `return` as its first, and does not begin with a
brace. -/
inductive SimpleStatement : List Token → Prop
  | expression {ts : List Token} {semicolon : Token} :
    ¬ Begins (·.sameSort (.symbol .leftBrace)) ts → (∀ t ∈ ts, t.Plain) →
    semicolon.kind = .symbol .semicolon → SimpleStatement (ts ++ [semicolon])
  | keyword {word : Token} {keyword : Keyword} {ts : List Token} {semicolon : Token} :
    word.kind = .keyword keyword → keyword.isSimple = true → (∀ t ∈ ts, t.Plain) →
    semicolon.kind = .symbol .semicolon → SimpleStatement (word :: ts ++ [semicolon])

/-- Declarations that are parsed without an error where nothing else stands, or a simple
statement. -/
inductive Segment : List Token → Prop
  | good {ts : List Token} {ending : Token} {firstRef : RefId} : (∀ t ∈ ts, t.isEnd = false) →
    ending.isEnd = true → (parseProgram (ts ++ [ending]) firstRef).errors = [] → Segment ts
  | simple {ts : List Token} : SimpleStatement ts → Segment ts

/-- The tokens are read as declarations with these trees and errors wherever they stand, if there is
no `else` behind them. -/
def ReadsAs (ts : List Token) (trees : List (Stmt Unit)) (errors : List SyntaxError) : Prop :=
  ∀ (n : Nat) (s : ParseState) (follow : List Token), s.rest = ts ++ follow → s.rest.length < n →
    ¬ Begins (·.sameSort (.keyword .elseKw)) follow →
    ∃ ss s', (rules n).Declares s ss s' ∧ s'.rest = follow ∧ ss.map Stmt.bare = trees ∧
      s'.errors.toList = s.errors.toList ++ errors

namespace ReadsAs

variable {ts ts' : List Token} {trees trees' : List (Stmt Unit)} {errors errors' : List SyntaxError}

theorem nil : ReadsAs [] [] [] :=
  fun _ s _ left _ _ => ⟨[], s, .none, left, rfl, by simp⟩

theorem append (first : ReadsAs ts trees errors) (second : ReadsAs ts' trees' errors')
    (next : ¬ Begins (·.sameSort (.keyword .elseKw)) ts') :
    ReadsAs (ts ++ ts') (trees ++ trees') (errors ++ errors') := by
  intro n s follow left few notElse
  rw [List.append_assoc] at left
  obtain ⟨ss, s₁, declares, left₁, same, added⟩ :=
    first n s _ left few (not_begins_append next notElse)
  have few₁ : s₁.rest.length < n := by
    rw [left, List.length_append] at few
    rw [left₁]
    omega
  obtain ⟨ss', s₂, declares', left₂, same', added'⟩ := second n s₁ follow left₁ few₁ notElse
  refine ⟨ss ++ ss', s₂, declares.trans declares', left₂, ?_, ?_⟩
  · rw [List.map_append, same, same']
  · rw [added', added, List.append_assoc]

/-- What a program gives that consists of the tokens. -/
theorem parsed (h : ReadsAs ts trees errors) {ending : Token} (isEnd : ending.isEnd = true)
    (firstRef : RefId) :
    (parseProgram (ts ++ [ending]) firstRef).result.map Stmt.bare = trees ∧
      (parseProgram (ts ++ [ending]) firstRef).errors = errors := by
  have notElse : ¬ Begins (·.sameSort (.keyword .elseKw)) [ending] := by
    rw [begins_cons, Kind.sameSort_endOfInput.1 isEnd]
    simp [Kind.sameSort]
  have few : (ParseState.start (ts ++ [ending]) firstRef).rest.length <
      (ts ++ [ending]).length + 1 := Nat.lt_succ_self _
  obtain ⟨ss, s', declares, left, same, added⟩ := h _ _ [ending] rfl few notElse
  have ended : s'.atEnd = true := by
    rw [ParseState.atEnd, ParseState.peek, left]
    exact isEnd
  have advances : (rules ((ts ++ [ending]).length + 1)).Advances ((ts ++ [ending]).length + 1) := by
    rw [rules_eq]
    exact rulesAbove_advances _ _
  rw [parseProgram_eq (declares.programItems advances few ended few [])]
  exact ⟨same, added⟩

end ReadsAs

/-! ## Declarations without an error -/

theorem Grammar.Declaration.readsAs {ts : List Token} {tree : Stmt Unit}
    (derived : Declaration true ts tree) : ReadsAs ts [tree] [] := by
  intro n s follow left few notElse
  have fewer : ts.length < n := by
    rw [left, List.length_append] at few
    omega
  obtain ⟨_, s', result, left', kept, stmt, rfl, same⟩ :=
    (rules_complete n).declaration derived fewer notElse s left
  have notEnd : s.atEnd = false := by
    rw [ParseState.atEnd, ParseState.peek, left]
    exact (derived.begins.append follow).notEnd rfl
  exact ⟨[stmt], s', .more notEnd result .none, left', by simp [same], by simp [kept]⟩

theorem Grammar.Declarations.readsAs {ts : List Token} {trees : List (Stmt Unit)}
    (derived : Declarations true ts trees) : ReadsAs ts trees [] := by
  cases derived with
  | none => exact .nil
  | more first rest =>
    have notElse := rest.not_else not_begins_nil
    rw [List.append_nil] at notElse
    exact first.readsAs.append rest.readsAs notElse

/-- Declarations that are parsed without an error where nothing else stands are so everywhere. -/
theorem readsAs_of_noErrors {ts : List Token} {ending : Token} {firstRef : RefId}
    (others : ∀ t ∈ ts, t.isEnd = false) (isEnd : ending.isEnd = true)
    (noErrors : (parseProgram (ts ++ [ending]) firstRef).errors = []) :
    ∃ trees, ReadsAs ts trees [] := by
  obtain ⟨taken, follow, split, notEnd, derived, stop⟩ := parseProgram_derives noErrors
  obtain ⟨rfl, -⟩ := taken_of_endsOnce isEnd others split notEnd stop
  exact ⟨_, derived.readsAs⟩

/-! ## SimpleStatement statements -/

/-- The rule behind the first word of a simple statement. -/
def keywordRule (line : Nat) (r : Rules) : Keyword → Parser (Stmt RefId)
  | .varKw => variableDeclaration r
  | .printKw => printStatement r
  | _ => returnStatement line r

theorem keywordRule_closes {site : Site} {n : Nat} {r r' : Rules}
    (hr : site.pairing.ExpressionsAlike n r r') (line : Nat) (keyword : Keyword) :
    site.ClosesAlike n (keywordRule line r keyword) (keywordRule line r' keyword) := by
  unfold keywordRule
  split
  · exact Site.variableDeclaration_closes hr
  · exact Site.printStatement_closes hr
  · exact Site.returnStatement_closes hr line

theorem declarationOrError_of_isSimple {n : Nat} {r : Rules} {s : ParseState} {keyword : Keyword}
    (is : s.peek.kind = .keyword keyword) (simple : keyword.isSimple = true) :
    declarationOrError n r s = keywordRule s.peek.line r keyword s.advance := by
  cases keyword with
  | varKw | printKw | returnKw =>
    simp only [declarationOrError, statement, keywordRule, Bind.bind, EStateM.bind, Parser.peek,
      Parser.advance, is]
  | _ => cases simple

theorem declarationOrError_of_notBegin {n : Nat} {r : Rules} {s : ParseState}
    (notBegin : Parser.beginsStatement s.peek = false)
    (notBrace : s.peek.kind ≠ .symbol .leftBrace) :
    declarationOrError n r s = expressionStatement (assignment n r) s := by
  cases is : s.peek.kind with
  | symbol symbol =>
    cases symbol with
    | leftBrace => exact absurd is notBrace
    | _ => simp only [declarationOrError, statement, Bind.bind, EStateM.bind, Parser.peek, is]
  | keyword word =>
    cases word with
    | classKw | funKw | varKw | forKw | ifKw | whileKw | printKw | returnKw =>
      simp [Parser.beginsStatement, is] at notBegin
    | _ => simp only [declarationOrError, statement, Bind.bind, EStateM.bind, Parser.peek, is]
  | _ => simp only [declarationOrError, statement, Bind.bind, EStateM.bind, Parser.peek, is]

/-- A simple statement is read up to its semicolon as it is where nothing else stands. -/
theorem SimpleStatement.closes {ts : List Token} (h : SimpleStatement ts) {s : ParseState}
    {follow : List Token} (left : s.rest = ts ++ follow) {n₁ n₂ : Nat} (le₁ : ts.length ≤ n₁)
    (le₂ : ts.length ≤ n₂) :
    s.atEnd = false ∧ ∃ site : Site, site.follow = follow ∧ site.errors = s.errors.toList ∧
      site.Closes (declarationOrError n₁ (rules n₁) s)
        (declarationOrError n₂ (rules n₂) (.start ts 0)) := by
  have hr (P : Pairing) : P.ExpressionsAlike ts.length (rules n₁) (rules n₂) := by
    rw [rules_eq n₁, rules_eq n₂]
    exact rulesAbove_expressions le₁ le₂
  cases h with
  | @expression ts semicolon notBrace plain isSemicolon =>
    let site := Site.of s semicolon isSemicolon follow
    let alone := ParseState.start (ts ++ [semicolon]) 0
    have left : s.rest = ts ++ semicolon :: follow := by simpa using left
    have reaches : site.Reaches ts s := ⟨left, plain⟩
    have reaches' : site.alone.Reaches ts alone := ⟨rfl, plain⟩
    have related : site.pairing.related s alone :=
      Site.of_related isSemicolon plain left rfl rfl rfl
    refine ⟨reaches.next.1, site, rfl, rfl, ?_⟩
    rw [declarationOrError_of_notBegin reaches.next.2 (reaches.notBrace notBrace),
      declarationOrError_of_notBegin reaches'.next.2 (reaches'.notBrace notBrace)]
    have expression := assignment_progress (hr site.pairing) le₁ le₂ _ (Nat.lt_succ_self _)
    exact Site.expressionStatement_closes expression _ _ related (Nat.lt_succ_self _)
  | @keyword word keyword ts semicolon is simple plain isSemicolon =>
    let site := Site.of s.advance semicolon isSemicolon follow
    let alone := ParseState.start (word :: ts ++ [semicolon]) 0
    have notEnd : word.isEnd = false := Token.isEnd_of_kind is rfl
    have peek : s.peek = word := by
      rw [ParseState.peek, left]
      rfl
    have advanced := ParseState.advance_of_rest left notEnd
    have advanced' : alone.advance = { alone with rest := ts ++ [semicolon], previous := word } :=
      ParseState.advance_of_rest rfl notEnd
    have related : site.pairing.related s.advance alone.advance :=
      Site.of_related isSemicolon plain (congrArg ParseState.rest advanced |>.trans (by simp))
        (congrArg ParseState.rest advanced') (congrArg ParseState.errors advanced')
        (congrArg ParseState.nextRef advanced')
    refine ⟨by rw [ParseState.atEnd, peek, notEnd], site, rfl, ?_, ?_⟩
    · exact congrArg Array.toList ParseState.errors_advance
    · have is' : s.peek.kind = .keyword keyword := by rw [peek, is]
      have head : declarationOrError n₂ (rules n₂) alone = _ :=
        declarationOrError_of_isSimple is simple
      rw [declarationOrError_of_isSimple is' simple, head, peek]
      refine keywordRule_closes (hr site.pairing) word.line keyword _ _ related ?_
      rw [advanced']
      exact Nat.lt_succ_self _

theorem SimpleStatement.readsAs {ts : List Token} (h : SimpleStatement ts) :
    ∃ trees errors, ReadsAs ts trees errors := by
  have alone : ∃ t? t',
      Parser.declaration ts.length (rules ts.length) (.start ts 0) = .ok t? t' := by
    rcases declaration_ok ts.length (rules ts.length) (.start ts 0) with ⟨_, _, is⟩ | ⟨_, _, _, is⟩
    · exact ⟨_, _, is⟩
    · exact ⟨_, _, is⟩
  obtain ⟨t?, t', alone⟩ := alone
  refine ⟨t?.toList.map Stmt.bare, t'.errors.toList, fun n s follow left few _ => ?_⟩
  obtain ⟨n, rfl⟩ := Nat.exists_eq_add_one_of_ne_zero (Nat.ne_zero_of_lt few)
  have enough : ts.length ≤ n := by
    rw [left, List.length_append] at few
    omega
  obtain ⟨notEnd, site, rfl, before, closes⟩ := h.closes left enough (Nat.le_refl _)
  obtain ⟨s?, s', t?', t'', result, alone', behind, same, errors⟩ := closes.declaration
  rw [alone] at alone'
  cases alone'
  refine ⟨_, s', .more notEnd result .none, behind, ?_, by rw [errors, before]⟩
  rw [List.append_nil, ← Option.toList_map, same, Option.toList_map]

theorem Segment.readsAs {ts : List Token} (h : Segment ts) :
    ∃ trees errors, ReadsAs ts trees errors := by
  cases h with
  | good others isEnd noErrors =>
    obtain ⟨trees, reads⟩ := readsAs_of_noErrors others isEnd noErrors
    exact ⟨trees, [], reads⟩
  | simple h => exact h.readsAs

/-- **Errors stay local.** A program of segments, each of them declarations without an error or a
simple statement, and none beginning with `else`, gives the statements and the errors that its
segments give where nothing else stands, one segment after the other. So a simple statement in error
costs that statement alone, and its errors are reported once. The statements are the same up to the
numbers of references, whichever end tokens and first references the parses have. -/
theorem errors_stay_local {segments : List (List Token)} (sort : ∀ ts ∈ segments, Segment ts)
    (notElse : ∀ ts ∈ segments, ¬ Begins (·.sameSort (.keyword .elseKw)) ts)
    {ending : List Token → Token} (isEnd : ∀ ts, (ending ts).isEnd = true)
    (firstRef : List Token → RefId) :
    let parsed ts := parseProgram (ts ++ [ending ts]) (firstRef ts)
    (parsed segments.flatten).result.map Stmt.bare =
        segments.flatMap (fun ts => (parsed ts).result.map Stmt.bare) ∧
      (parsed segments.flatten).errors = segments.flatMap fun ts => (parsed ts).errors := by
  intro parsed
  suffices reads : ReadsAs segments.flatten
      (segments.flatMap fun ts => (parsed ts).result.map Stmt.bare)
      (segments.flatMap fun ts => (parsed ts).errors) from reads.parsed (isEnd _) _
  induction segments with
  | nil => exact .nil
  | cons ts segments ih =>
    rw [List.forall_mem_cons] at sort notElse
    obtain ⟨trees, errors, reads⟩ := sort.1.readsAs
    obtain ⟨rfl, rfl⟩ := reads.parsed (isEnd ts) (firstRef ts)
    exact reads.append (ih sort.2 notElse.2) (not_begins_flatten notElse.2)

/-- The tokens of `var = x; print x;`: the declaration has no name, and the other statement is
read. -/
theorem errors_stay_local_unnamed :
    let x : Token := ⟨.identifier, "x", 1⟩
    let equals : Token := ⟨.symbol .equal, "=", 1⟩
    let semicolon : Token := ⟨.symbol .semicolon, ";", 1⟩
    let segments : List (List Token) :=
      [[⟨.keyword .varKw, "var", 1⟩, equals, x, semicolon],
        [⟨.keyword .printKw, "print", 1⟩, x, semicolon]]
    let parsed ts := parseProgram (ts ++ [Token.missingEnd]) 0
    (∀ ts ∈ segments, Segment ts) ∧
      (∀ ts ∈ segments, ¬ Begins (·.sameSort (.keyword .elseKw)) ts) ∧
      (parsed segments.flatten).result.map Stmt.bare =
        segments.flatMap (fun ts => (parsed ts).result.map Stmt.bare) ∧
      (parsed segments.flatten).errors = segments.flatMap (fun ts => (parsed ts).errors) ∧
      (parsed segments.flatten).result.map Stmt.bare = [.print (.variable ⟨⟨"x", 1⟩, ()⟩)] ∧
      (parsed segments.flatten).errors = [⟨.expectedName "variable name", equals⟩] := by
  intro x equals semicolon segments parsed
  have plain : ∀ t ∈ [equals, x], t.Plain :=
    List.forall_mem_cons.2 ⟨⟨rfl, nofun, rfl⟩, List.forall_mem_singleton.2 ⟨rfl, nofun, rfl⟩⟩
  have unnamed : SimpleStatement [⟨.keyword .varKw, "var", 1⟩, equals, x, semicolon] :=
    .keyword rfl rfl plain rfl
  have noErrors : (parseProgram ([⟨.keyword .printKw, "print", 1⟩, x, semicolon] ++
      [Token.missingEnd]) 0).errors = [] := rfl
  have printed : Segment [⟨.keyword .printKw, "print", 1⟩, x, semicolon] :=
    .good (by simp [Token.isEnd, Kind.sameSort, x, semicolon]) rfl noErrors
  have sort : ∀ ts ∈ segments, Segment ts :=
    List.forall_mem_cons.2 ⟨.simple unnamed, List.forall_mem_singleton.2 printed⟩
  have notElse : ∀ ts ∈ segments, ¬ Begins (·.sameSort (.keyword .elseKw)) ts := by
    simp [segments, Kind.sameSort]
  obtain ⟨trees, errors⟩ :=
    errors_stay_local sort notElse (fun _ => rfl : ∀ _, Token.missingEnd.isEnd = true) fun _ => 0
  exact ⟨sort, notElse, trees, errors, rfl, rfl⟩

end Lox
