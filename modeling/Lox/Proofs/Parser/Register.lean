import Lox.Proofs.Parser.Pairs
import Lox.Proofs.Parser.Reads
import Lox.Proofs.Syntax.Details
import Lox.Proofs.Syntax.Origins

/-!
# The register of a parse

A parse numbers the references in the order of the tokens that it reads them at. `Register` says so
of a list of entries, one for each reference. All details of the trees that come out hold by it:
what is a reference has an entry, with its sort, its name and its number, also where it has turned
from a read into the target of an assignment, and all other names and literals are those of tokens.

`Answers phase given p details` says of the rule `p` that the details of its result hold, if the
given ones hold where it is started. No entry is lost on the way, and no error.
-/

namespace Lox

variable {tokens : List Token} {firstRef : RefId}

/-- The token is read as a reference of this sort, which goes by the name. -/
def RefSort.Reads (t : Token) (name : Name) : RefSort → Prop
  | .variable => t.kind = .identifier ∧ name = t.asName
  | .this => t.kind = .keyword .thisKw ∧ name = ⟨thisName, t.line⟩
  | .super => t.kind = .keyword .superKw ∧ name = ⟨superName, t.line⟩

/-- A reference with its number, and the place of the token that it was read at. -/
structure Entry where
  index : Nat
  sort : RefSort
  target : Reference RefId

/-- The references that a parse has numbered. -/
structure Register (tokens : List Token) (firstRef : RefId) where
  entries : List Entry
  numbered : entries.map (·.target.mark) = List.range' firstRef entries.length
  inOrder : entries.Pairwise (·.index < ·.index)
  read : ∀ e ∈ entries, ∃ t, tokens[e.index]? = some t ∧ e.sort.Reads t e.target.name

/-- The detail is as the register and the tokens say. Lists are as short as they have to be where no
error was met. -/
def Detail.Holds (register : Register tokens firstRef) (clean : Prop) : Detail RefId → Prop
  | .branch isDeclaration => isDeclaration = false
  | .reference sort target => ∃ e ∈ register.entries, e.sort = sort ∧ e.target = target
  | .name written => written.From (· ∈ tokens)
  | .list size => clean → size ≤ 255
  | .literal (.number value) => ∃ t ∈ tokens, t.kind = .number value
  | .literal (.string value) => ∃ t ∈ tokens, t.kind = .string value
  | .literal (.boolean _) | .literal .nil => True

theorem Detail.Holds.mono {register register' : Register tokens firstRef} {clean clean' : Prop}
    {d : Detail RefId} (h : d.Holds register clean) (more : register.entries ⊆ register'.entries)
    (cleaner : clean' → clean) : d.Holds register' clean' := by
  cases d with
  | branch isDeclaration => exact h
  | name written => exact h
  | list size => exact fun isClean => h (cleaner isClean)
  | literal value => cases value <;> exact h
  | reference sort target =>
    obtain ⟨e, mem, is⟩ := h
    exact ⟨e, more mem, is⟩

/-- The register before anything is read. -/
def Register.empty : Register tokens firstRef := ⟨[], rfl, .nil, nofun⟩

/-- The register with one more reference, read behind all others. -/
def Register.add (register : Register tokens firstRef) (sort : RefSort) (name : Name)
    (before : List Token) (t : Token) (after : List Token) (isThere : tokens = before ++ t :: after)
    (reads : sort.Reads t name) (later : ∀ e ∈ register.entries, e.index < before.length) :
    Register tokens firstRef where
  entries := register.entries ++
    [⟨before.length, sort, ⟨name, firstRef + register.entries.length⟩⟩]
  numbered := by
    rw [List.map_append, register.numbered, List.length_append, List.length_singleton,
      List.range'_concat, Nat.one_mul, List.map_singleton]
  inOrder := by
    refine List.pairwise_append.2 ⟨register.inOrder, List.pairwise_singleton _ _, ?_⟩
    intro e mem e' mem'
    rw [List.mem_singleton.1 mem']
    exact later e mem
  read := by
    intro e mem
    rcases List.mem_append.1 mem with mem | mem
    · exact register.read e mem
    · rw [List.mem_singleton.1 mem]
      refine ⟨t, ?_, reads⟩
      have isToken : tokens[before.length]? = some t := by
        rw [isThere, List.getElem?_append_right (Nat.le_refl _), Nat.sub_self,
          List.getElem?_cons_zero]
      exact isToken

/-- Where a rule is started. -/
inductive Phase where
  | anywhere
  /-- The token is next. -/
  | before (t : Token)
  /-- Behind a token that is read as a reference, which has no number yet. -/
  | behind (sort : RefSort) (name : Name)

namespace ParseState

/-- The parse has numbered what the register says, at tokens that it has taken. -/
structure Keeps (register : Register tokens firstRef) (s : ParseState) : Prop where
  nextRef : s.nextRef = firstRef + register.entries.length
  taken : ∃ taken, tokens = taken ++ s.rest ∧ ∀ e ∈ register.entries, e.index < taken.length

/-- The parse stands there. -/
def At (register : Register tokens firstRef) (s : ParseState) : Phase → Prop
  | .anywhere => True
  | .before t => s.peek = t
  | .behind sort name => ∃ before t after, tokens = before ++ t :: (after ++ s.rest) ∧
      sort.Reads t name ∧ ∀ e ∈ register.entries, e.index < before.length

/-- The parse has gone on, with no entry and no error lost. -/
structure Extends (register : Register tokens firstRef) (s : ParseState)
    (register' : Register tokens firstRef) (s' : ParseState) : Prop where
  keeps : s'.Keeps register'
  entries : register.entries ⊆ register'.entries
  errors : s'.errors = #[] → s.errors = #[]

/-- The details hold in this state. -/
def Knows (register : Register tokens firstRef) (s : ParseState) (details : List (Detail RefId)) :
    Prop :=
  ∀ d ∈ details, d.Holds register (s.errors = #[])

variable {register register' register'' : Register tokens firstRef} {s s' s'' : ParseState}
  {details details' : List (Detail RefId)} {t : Token} {kind : Kind}

theorem Keeps.extends (h : s.Keeps register) : Extends register s register s :=
  ⟨h, List.Subset.refl _, id⟩

theorem Extends.trans (first : Extends register s register' s')
    (second : Extends register' s' register'' s'') : Extends register s register'' s'' :=
  ⟨second.keeps, List.Subset.trans first.entries second.entries, first.errors ∘ second.errors⟩

theorem Knows.extends (h : s.Knows register details) (on : Extends register s register' s') :
    s'.Knows register' details :=
  fun d mem => (h d mem).mono on.entries on.errors

theorem Knows.append (h : s.Knows register details) (h' : s.Knows register details') :
    s.Knows register (details ++ details') :=
  List.forall_mem_append.2 ⟨h, h'⟩

theorem Knows.holds (h : s.Knows register details) :
    ∀ d ∈ details, d.Holds register (s.errors.toList = []) :=
  fun d mem => (h d mem).mono (List.Subset.refl _) Array.toList_eq_nil_iff.1

theorem Keeps.mem (h : s.Keeps register) (mem : t ∈ s.rest) : t ∈ tokens := by
  obtain ⟨taken, all, -⟩ := h.taken
  rw [all]
  exact List.mem_append_right _ mem

/-- What is next is taken from the tokens that are left, unless it is the end. -/
theorem rest_eq_cons (notEnd : s.peek.isEnd = false) : ∃ rest, s.rest = s.peek :: rest := by
  cases left : s.rest with
  | nil =>
    rw [peek, left] at notEnd
    cases notEnd
  | cons t rest => exact ⟨rest, by rw [peek, left, List.headD_cons]⟩

theorem peek_mem (notEnd : s.peek.isEnd = false) : s.peek ∈ s.rest := by
  obtain ⟨rest, left⟩ := rest_eq_cons notEnd
  rw [left]
  exact List.mem_cons_self

theorem Keeps.advance (h : s.Keeps register) : s.advance.Keeps register := by
  obtain ⟨nextRef, taken, all, before⟩ := h
  unfold ParseState.advance
  split
  · exact ⟨nextRef, taken, all, before⟩
  · next t rest left =>
    split
    · exact ⟨nextRef, taken, all, before⟩
    · refine ⟨nextRef, taken ++ [t], ?_, fun e mem => ?_⟩
      · rw [all, left, List.append_assoc, List.singleton_append]
      · rw [List.length_append]
        exact Nat.lt_add_right _ (before e mem)

theorem Keeps.extends_advance (h : s.Keeps register) : Extends register s register s.advance :=
  ⟨h.advance, List.Subset.refl _, by rw [errors_advance]; exact id⟩

theorem Keeps.extends_record (h : s.Keeps register) (e : SyntaxError) :
    Extends register s register (s.record e) :=
  ⟨⟨h.nextRef, h.taken⟩, List.Subset.refl _, fun none => by simp [record] at none⟩

theorem Keeps.extends_atBoundary (h : s.Keeps register) :
    Extends register s register (Parser.atBoundary s) := by
  generalize left : s.rest.length = n
  induction n using Nat.strongRecOn generalizing s with
  | ind n ih =>
    rw [Parser.atBoundary_eq]
    split
    · exact h.extends
    · next goesOn =>
      have notEnd : s.atEnd = false := by
        cases ended : s.atEnd with
        | false => rfl
        | true => simp [ended] at goesOn
      have shorter := length_advance notEnd
      exact h.extends_advance.trans (ih _ (by omega) h.advance rfl)

theorem Keeps.extends_synchronize (h : s.Keeps register) :
    Extends register s register (Parser.synchronize s) :=
  h.extends_advance.trans h.advance.extends_atBoundary

/-- A token that is taken stands between those taken before and those that are left. -/
theorem Keeps.behind (h : s.Keeps register) (notEnd : s.peek.isEnd = false) {sort : RefSort}
    {name : Name} (reads : sort.Reads s.peek name) : s.advance.At register (.behind sort name) := by
  obtain ⟨taken, all, before⟩ := h.taken
  obtain ⟨rest, left⟩ := rest_eq_cons notEnd
  refine ⟨taken, s.peek, [], ?_, reads, before⟩
  rw [advance_of_rest left notEnd, List.nil_append, all, left]

theorem At.advance {sort : RefSort} {name : Name} (h : s.At register (.behind sort name)) :
    s.advance.At register (.behind sort name) := by
  unfold ParseState.advance
  split
  · exact h
  · next u rest left =>
    split
    · exact h
    · obtain ⟨before, t, after, all, reads, earlier⟩ := h
      refine ⟨before, t, after ++ [u], ?_, reads, earlier⟩
      rw [all, left, List.append_assoc, List.singleton_append]

end ParseState

namespace Parser

open ParseState (Extends)

/-- The rule has come to an end from `s`, and the details of its result hold. -/
inductive Gains {α : Type} (register : Register tokens firstRef) (s : ParseState)
    (details : α → List (Detail RefId)) : EStateM.Result SyntaxError ParseState α → Prop
  | ok {a : α} {s' : ParseState} {register' : Register tokens firstRef}
      (on : Extends register s register' s') (known : s'.Knows register' (details a)) :
      Gains register s details (.ok a s')
  | error {e : SyntaxError} {s' : ParseState} {register' : Register tokens firstRef}
      (on : Extends register s register' s') : Gains register s details (.error e s')

/-- Started there, and where the given details hold, the rule comes to a result whose details
hold. -/
def Answers {α : Type} (phase : Phase) (given : List (Detail RefId)) (p : Parser α)
    (details : α → List (Detail RefId)) : Prop :=
  ∀ (tokens : List Token) (firstRef : RefId) (register : Register tokens firstRef) (s : ParseState),
    s.Keeps register → s.At register phase → s.Knows register given →
      Gains register s details (p s)

variable {α β : Type} {phase : Phase} {given : List (Detail RefId)} {p q : Parser α}
  {f : α → Parser β} {details : α → List (Detail RefId)} {more : β → List (Detail RefId)}
  {register register' : Register tokens firstRef} {s s' : ParseState} {t : Token} {a : α}

theorem Gains.trans {x : EStateM.Result SyntaxError ParseState α}
    (on : Extends register s register' s') (h : Gains register' s' details x) :
    Gains register s details x := by
  cases h with
  | ok on' known => exact .ok (on.trans on') known
  | error on' => exact .error (on.trans on')

/-- The rule goes on behind a step. -/
theorem Gains.step (ran : p s = .ok a s') (on : Extends register s register' s')
    (h : Gains register' s' more (f a s')) : Gains register s more ((p >>= f) s) := by
  simp only [Bind.bind, EStateM.bind, ran]
  exact h.trans on

theorem Gains.stop {e : SyntaxError} (ran : p s = .error e s')
    (on : Extends register s register' s') : Gains register s more ((p >>= f) s) := by
  simp only [Bind.bind, EStateM.bind, ran]
  exact .error on

/-! ## Steps -/

theorem Answers.bind (hp : Answers phase given p details)
    (hf : ∀ a, Answers .anywhere (details a ++ given) (f a) more) :
    Answers phase given (p >>= f) more := by
  intro tokens firstRef register s keeps there known
  have first := hp _ _ register s keeps there known
  generalize ran : p s = x at first
  cases first with
  | error on => exact .stop ran on
  | ok on found =>
    exact .step ran on (hf _ _ _ _ _ on.keeps trivial (found.append (known.extends on)))

theorem Answers.map {f : α → β} (hp : Answers phase given p fun a => more (f a)) :
    Answers phase given (f <$> p) more := by
  intro tokens firstRef register s keeps there known
  have first := hp _ _ register s keeps there known
  simp only [Functor.map, EStateM.map]
  revert first
  generalize p s = x
  intro first
  cases first with
  | ok on found => exact .ok on found
  | error on => exact .error on

theorem Answers.ite {c : Prop} [Decidable c] (hp : Answers phase given p details)
    (hq : Answers phase given q details) : Answers phase given (if c then p else q) details := by
  split
  · exact hp
  · exact hq

/-- Two ways to read something that the rule then goes on with. -/
theorem Answers.choose {c : Prop} [Decidable c] (hp : Answers phase given p details)
    (hq : Answers phase given q details)
    (hf : ∀ a, Answers .anywhere (details a ++ given) (f a) more) :
    Answers phase given (if c then p >>= f else q >>= f) more :=
  .ite (hp.bind hf) (hq.bind hf)

theorem Answers.mono {details' : α → List (Detail RefId)} (h : Answers phase given p details)
    (fewer : ∀ a, details' a ⊆ details a) : Answers phase given p details' := by
  intro tokens firstRef register s keeps there known
  have all := h _ _ register s keeps there known
  revert all
  generalize p s = x
  intro all
  cases all with
  | ok on found => exact .ok on fun d mem => found d (fewer _ mem)
  | error on => exact .error on

/-- A detail that holds anyway may be given. -/
theorem Answers.knowing {d : Detail RefId} (h : Answers phase (d :: given) p details)
    (holds : ∀ {tokens : List Token} {firstRef : RefId} (register : Register tokens firstRef)
      (clean : Prop), d.Holds register clean) : Answers phase given p details :=
  fun _ _ register s keeps there known =>
    h _ _ register s keeps there (List.forall_mem_cons.2 ⟨holds register _, known⟩)

theorem answers_pure (known : details a ⊆ given) : Answers phase given (pure a) details :=
  fun _ _ _ _ keeps _ knows => .ok keeps.extends fun d mem => knows d (known mem)

theorem answers_failHere (cause : SyntaxCause) :
    Answers phase given (failHere cause : Parser α) details :=
  fun _ _ _ _ keeps _ _ => .error keeps.extends

theorem answers_report (cause : SyntaxCause) (t : Token) :
    Answers phase given (report cause t) fun _ => [] :=
  fun _ _ _ _ keeps _ _ => .ok (keeps.extends_record _) nofun

theorem answers_check (kind : Kind) : Answers phase given (check kind) fun _ => [] :=
  fun _ _ _ _ keeps _ _ => .ok keeps.extends nofun

theorem answers_checkSymbol (symbol : Symbol) :
    Answers phase given (checkSymbol symbol) fun _ => [] :=
  answers_check _

theorem answers_atEnd : Answers phase given atEnd fun _ => [] :=
  fun _ _ _ _ keeps _ _ => .ok keeps.extends nofun

theorem answers_peek : Answers phase given peek fun _ => [] :=
  fun _ _ _ _ keeps _ _ => .ok keeps.extends nofun

theorem answers_previous : Answers phase given previous fun _ => [] :=
  fun _ _ _ _ keeps _ _ => .ok keeps.extends nofun

theorem answers_advance : Answers phase given advance fun _ => [] :=
  fun _ _ _ _ keeps _ _ => .ok keeps.extends_advance nofun

theorem answers_accept (kind : Kind) : Answers phase given (accept kind) fun _ => [] := by
  intro tokens firstRef register s keeps there known
  unfold accept
  split
  · exact .ok keeps.extends_advance nofun
  · exact .ok keeps.extends nofun

theorem answers_acceptSymbol (symbol : Symbol) :
    Answers phase given (acceptSymbol symbol) fun _ => [] :=
  answers_accept _

theorem answers_acceptKeyword (keyword : Keyword) :
    Answers phase given (acceptKeyword keyword) fun _ => [] :=
  answers_accept _

theorem answers_expect (kind : Kind) (cause : SyntaxCause) :
    Answers phase given (expect kind cause) fun _ => [] := by
  intro tokens firstRef register s keeps there known
  rw [expect_eq]
  split
  · exact .ok keeps.extends_advance nofun
  · exact .error keeps.extends

theorem answers_expectSymbol (symbol : Symbol) (place : String) :
    Answers phase given (expectSymbol symbol place) fun _ => [] :=
  answers_expect _ _

/-- The rule goes on with the next token, which it does not take. -/
theorem Answers.peek {f : Token → Parser β} (h : ∀ t, Answers (.before t) given (f t) more) :
    Answers phase given (Parser.peek >>= f) more :=
  fun _ _ register s keeps _ known => h s.peek _ _ register s keeps rfl known

/-- A list gets one longer. One that gets too long is an error. -/
theorem Answers.counted {size : Nat} {cause : SyntaxCause}
    (h : Answers .anywhere (.list (size + 1) :: given) p details) :
    Answers phase given (if argumentLimit ≤ size then
      Parser.peek >>= fun t => report cause t >>= fun _ => p else p) details := by
  intro tokens firstRef register s keeps there known
  split
  · next full =>
    have on := keeps.extends_record ⟨cause, s.peek⟩
    refine .step rfl keeps.extends (.step rfl on (h _ _ register _ on.keeps trivial ?_))
    refine List.forall_mem_cons.2 ⟨fun clean => ?_, known.extends on⟩
    exact absurd clean Array.push_ne_empty
  · next room =>
    refine h _ _ register s keeps trivial (List.forall_mem_cons.2 ⟨fun _ => ?_, known⟩)
    exact Nat.lt_of_not_le room

/-! ## References and names -/

/-- A name that had to stand there is that of an identifier. -/
theorem expectName_cases (keeps : s.Keeps register) (sort : String) :
    (∃ e, expectName sort s = .error e s) ∨
    ∃ name, expectName sort s = .ok name s.advance ∧ name.From (· ∈ tokens) ∧
      s.advance.At register (.behind .variable name) := by
  simp only [expectName, Bind.bind, EStateM.bind, expect_eq]
  cases next : s.isNext .identifier with
  | false => exact .inl ⟨_, rfl⟩
  | true =>
    simp only [ParseState.isNext, Bool.and_eq_true, Bool.not_eq_true'] at next
    obtain ⟨notEnd, identifier⟩ := next
    have isKind := Kind.sameSort_identifier.1 identifier
    refine .inr ⟨s.peek.asName, ?_, ?_, keeps.behind notEnd ⟨isKind, rfl⟩⟩
    · rw [if_pos rfl, ParseState.previous_advance notEnd]
      rfl
    · exact ⟨s.peek, keeps.mem (ParseState.peek_mem notEnd), isKind, rfl⟩

theorem answers_expectName (sort : String) :
    Answers phase given (expectName sort) fun name => [.name name] := by
  intro tokens firstRef register s keeps there known
  obtain ⟨e, ran⟩ | ⟨name, ran, named, -⟩ := expectName_cases keeps sort
  · rw [ran]
    exact .error keeps.extends
  · rw [ran]
    exact .ok keeps.extends_advance (List.forall_mem_singleton.2 named)

/-- The name that had to stand there is that of a variable. -/
theorem Answers.expectReference {f : Name → Parser β} {sort : String}
    (h : ∀ name, Answers (.behind .variable name) given (f name) more) :
    Answers phase given (expectName sort >>= f) more := by
  intro tokens firstRef register s keeps there known
  have on := keeps.extends_advance
  obtain ⟨e, ran⟩ | ⟨name, ran, -, behind⟩ := expectName_cases keeps sort
  · exact .stop ran keeps.extends
  · exact .step ran on (h name _ _ register _ on.keeps behind (known.extends on))

section

variable {sort : RefSort} {name : Name}

/-- A symbol may stand between the token of a reference and the place where it gets its number. -/
theorem Answers.symbolBehind {f : Token → Parser β} {symbol : Symbol} {place : String}
    (h : ∀ t, Answers (.behind sort name) given (f t) more) :
    Answers (.behind sort name) given (expectSymbol symbol place >>= f) more := by
  intro tokens firstRef register s keeps there known
  have on := keeps.extends_advance
  cases next : s.isNext (.symbol symbol) with
  | false => exact .stop (by rw [expectSymbol, expect_eq, next]; rfl) keeps.extends
  | true =>
    refine .step (by rw [expectSymbol, expect_eq, next]; rfl) on ?_
    exact h _ _ _ register _ on.keeps there.advance (known.extends on)

/-- A name may stand there, too. -/
theorem Answers.nameBehind {f : Name → Parser β} {what : String}
    (h : ∀ method, Answers (.behind sort name) (.name method :: given) (f method) more) :
    Answers (.behind sort name) given (expectName what >>= f) more := by
  intro tokens firstRef register s keeps there known
  have on := keeps.extends_advance
  obtain ⟨e, ran⟩ | ⟨method, ran, named, -⟩ := expectName_cases keeps what
  · exact .stop ran keeps.extends
  · refine .step ran on (h method _ _ register _ on.keeps there.advance ?_)
    exact List.forall_mem_cons.2 ⟨named, known.extends on⟩

/-- The one step that adds to the register. -/
theorem Answers.fresh {f : RefId → Parser β}
    (h : ∀ id, Answers .anywhere (.reference sort ⟨name, id⟩ :: given) (f id) more) :
    Answers (.behind sort name) given (freshRef >>= f) more := by
  intro tokens firstRef register s keeps there known
  obtain ⟨before, t, after, all, reads, earlier⟩ := there
  let added := register.add sort name before t _ all reads earlier
  have on : Extends register s added { s with nextRef := s.nextRef + 1 } := by
    refine ⟨⟨?_, before ++ t :: after, ?_, fun e mem => ?_⟩, List.subset_append_left _ _, id⟩
    · simp only [added, Register.add, keeps.nextRef, List.length_append, List.length_singleton,
        Nat.add_assoc]
    · rw [all, List.append_assoc, List.cons_append]
    · have later : e.index ≤ before.length := by
        rcases List.mem_append.1 mem with mem | mem
        · exact Nat.le_of_lt (earlier e mem)
        · exact Nat.le_of_eq (congrArg Entry.index (List.mem_singleton.1 mem))
      rw [List.length_append, List.length_cons]
      omega
  refine .step rfl on (h _ _ _ added _ on.keeps trivial ?_)
  refine List.forall_mem_cons.2 ⟨?_, known.extends on⟩
  rw [keeps.nextRef]
  exact ⟨_, List.mem_append_right _ (List.mem_singleton_self _), rfl, rfl⟩

theorem Answers.reference {f : Reference RefId → Parser β}
    (h : ∀ id, Answers .anywhere (.reference .variable ⟨name, id⟩ :: given) (f ⟨name, id⟩) more) :
    Answers (.behind .variable name) given (Parser.reference name >>= f) more := by
  simp only [Parser.reference, bind_assoc, pure_bind]
  exact .fresh h

/-- A token that is taken may be read as a reference. -/
theorem Answers.take (notEnd : t.isEnd = false) (reads : sort.Reads t name)
    (h : Answers (.behind sort name) given q details) :
    Answers (.before t) given (Parser.advance >>= fun _ => q) details := by
  intro tokens firstRef register s keeps there known
  have on := keeps.extends_advance
  refine .step rfl on (h _ _ register _ on.keeps ?_ (known.extends on))
  rw [← there] at notEnd reads
  exact keeps.behind notEnd reads

end

/-- A token that is taken may say what a detail is. -/
theorem Answers.takeDetail {d : Detail RefId} (notEnd : t.isEnd = false)
    (reads : ∀ {tokens : List Token} {firstRef : RefId} (register : Register tokens firstRef)
      (clean : Prop), t ∈ tokens → d.Holds register clean)
    (h : Answers .anywhere (d :: given) q details) :
    Answers (.before t) given (Parser.advance >>= fun _ => q) details := by
  intro tokens firstRef register s keeps there known
  have on := keeps.extends_advance
  refine .step rfl on (h _ _ register _ on.keeps trivial ?_)
  rw [← there] at notEnd
  have mem := keeps.mem (ParseState.peek_mem notEnd)
  rw [there] at mem
  exact List.forall_mem_cons.2 ⟨reads register _ mem, known.extends on⟩

end Parser

end Lox
