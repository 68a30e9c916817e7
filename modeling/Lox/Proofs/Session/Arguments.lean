import Lox.Proofs.History.Sessions
import Lox.Proofs.History.Supply
import Lox.Proofs.Parser.Calls
import Lox.Proofs.Scope.Parameters
import Lox.Proofs.Session.Expressions

/-!
# Arguments of calls

Whatever is run, each body that is entered has been given as many arguments as its function has
parameters, and a call with another number has no effect but its error. In a session the parameters
have names of their own, and the line of the error is that of the parenthesis behind the arguments.
-/

namespace Lox

/-! ## Runs -/

/-- What holds of the calls of a chronicled run that ends so. The plain run ends as `plain` says, and
the scope `current` was active when it began. -/
structure RunSupplied {α : Type} (ended : EStateM.Result Stop Chronicle α)
    (plain : EStateM.Result Stop Machine α) (current : Environment) : Prop where
  tells : Chronicle.forget ended = plain
  supplied : ∀ {later h earlier}, (Chronicle.left ended).past = later ++ h :: earlier →
    h.Supplied earlier
  /-- Nothing happens after a call with another number of arguments. The run stops for it, on the
  machine that the call was to be made on. -/
  refused : ∀ {later c arguments line m earlier}, (Chronicle.left ended).past =
      later ++ ⟨.calls (.callable c) arguments line, m⟩ :: earlier →
    arguments.length ≠ c.arity → later = [] ∧
      plain = .error (.fault (.runtime (.argumentCount c.arity arguments.length) line))
        (m.inScope current)

/-- **Each call of a run is fully supplied**, or the last. -/
theorem Supplies.run {α : Type} {t : Chronicled α} {r : Run α} {m : Machine}
    (supplies : Supplies ⟨m, []⟩ t) (tells : t.Tells r) :
    RunSupplied (t ⟨m, []⟩) (r m) m.current := by
  have ran := supplies trivial
  have same := tells ⟨m, []⟩
  generalize t ⟨m, []⟩ = ended at ran same
  -- a run in which no call has the wrong number of arguments
  have regular {w' : Chronicle} (grows : Chronicle.Grows ⟨m, []⟩ w') {later earlier : List Happening}
      {h : Happening} (split : w'.past = later ++ h :: earlier) : ¬h.Miscounts := by
    obtain ⟨new, past, counts⟩ := grows.since
    rw [List.append_nil] at past
    exact counts h (by rw [← past, split]; simp)
  cases ended with
  | ok a w' =>
    refine ⟨same, ran.supplied.of_split, fun {_ c arguments line _ _} split wrong => ?_⟩
    exact absurd ⟨c, arguments, line, rfl, wrong⟩ (regular ran.toGrows split)
  | error stop w' =>
    rcases ran with grows | ⟨c, arguments, line, m', new, past, all, counts, wrong, stops, machine⟩
    · refine ⟨same, grows.supplied.of_split, fun {_ c arguments line _ _} split wrong => ?_⟩
      exact absurd ⟨c, arguments, line, rfl, wrong⟩ (regular grows split)
    · refine ⟨same, all.of_split, fun {later c' arguments' line' m'' earlier} split wrong' => ?_⟩
      rw [List.append_nil] at past
      have split := past.symm.trans split
      cases later with
      | nil =>
        cases split
        refine ⟨rfl, ?_⟩
        rw [← same, stops]
        exact congrArg _ machine
      | cons first later =>
        obtain ⟨-, split⟩ := List.cons.inj split
        have counted := counts ⟨.calls (.callable c') arguments' line', m''⟩ (by rw [split]; simp)
        exact absurd ⟨c', arguments', line', rfl, wrong'⟩ counted

/-! ## Sessions -/

theorem Supplies.left {α : Type} {w : Chronicle} {t : Chronicled α} (supplies : Supplies w t)
    (before : AllSupplied w.past) : AllSupplied (Chronicle.left (t w)).past := by
  have ran := supplies before
  cases result : t w with
  | ok a w' =>
    rw [result] at ran
    exact ran.supplied
  | error stop w' =>
    rw [result] at ran
    rcases ran with grows | ⟨_, _, _, _, _, _, supplied, _⟩
    · exact grows.supplied
    · exact supplied

theorem Chronicled.plain_past {α : Type} (act : Run α) (w : Chronicle) :
    (Chronicle.left (plain act w)).past = w.past := by
  unfold plain
  cases act w.machine <;> rfl

/-- Nothing happens when the sink is flushed. -/
theorem Chronicled.interpret_past (fuel : Nat) (ss : List (Stmt Place)) (w : Chronicle) :
    (Chronicle.left (interpret fuel ss w)).past =
      (Chronicle.left (program (chronicler fuel) ss w)).past := by
  rcases left_interpret fuel ss w with same | flushed
  · rw [same]
  · rw [flushed, plain_past]

namespace ChronicledSession

theorem perform_supplied {α : Type} {s : ChronicledSession} {t : Chronicled α}
    (supplied : AllSupplied (Chronicle.left (t s.chronicle)).past) :
    AllSupplied (s.perform t).2.chronicle.past := by
  unfold perform
  cases result : t s.chronicle with
  | ok a w | error stop w =>
    rw [result] at supplied
    exact supplied

theorem serve_supplied {s : ChronicledSession} (supplied : AllSupplied s.chronicle.past)
    (r : Request) : AllSupplied (s.serve r).2.chronicle.past := by
  cases r with
  | run fuel source =>
    simp only [serve]
    cases checkProgram (readProgram source s.nextRef) with
    | error reports => exact supplied
    | ok located =>
      apply perform_supplied
      rw [Chronicled.interpret_past]
      exact (Supplies.program (chronicler_supplies fuel) _).left supplied
  | evaluate fuel source =>
    simp only [serve]
    cases checkExpression (readExpression source s.nextRef) with
    | error reports => exact supplied
    | ok located => exact perform_supplied (((chronicler_supplies fuel).eval _ _).left supplied)
  | check source | takeOutput | setClock clock => exact supplied

theorem after_supplied {s : ChronicledSession} (supplied : AllSupplied s.chronicle.past)
    (requests : List Request) : AllSupplied (s.after requests).chronicle.past := by
  induction requests generalizing s with
  | nil => exact supplied
  | cons r rest ih => exact ih (serve_supplied supplied r)

end ChronicledSession

/-! ## Source texts -/

/-- The tokens of the text that is run or evaluated. -/
def Request.Tokens (r : Request) (ts : List Token) : Prop :=
  match r with
  | .run _ source | .evaluate _ source => ∃ line, Lexer.Scans 1 source.toList ts line []
  | .check _ | .takeOutput | .setClock _ => False

theorem Stmt.callsAll_placed (tree : List (Stmt Unit)) :
    Stmt.callsAll (Stmt.placedAll [] tree) = Stmt.callsAll tree := by
  have bare {ρ : Type} (ss : List (Stmt ρ)) : Stmt.callsAll (ss.map Stmt.bare) = Stmt.callsAll ss := by
    rw [← Stmt.mapMarksAll_bare, Stmt.callsAll_mapMarks]
  rw [← bare, Stmt.bareAll_placed, bare]

/-- The code of a request has no violations, and its calls close in the text. -/
theorem Request.Reads.written {r : Request} {n : Node} (reads : r.Reads n) :
    n.violations .top = [] ∧ ∃ ts, r.Tokens ts ∧ ∀ c ∈ n.calls, Grammar.Closes ts c := by
  cases r with
  | run fuel source =>
    obtain ⟨firstRef, located, accepted, rfl⟩ := reads
    obtain ⟨tree, ⟨ts, line, scans, items, none⟩, runs⟩ := isProgram_of_checkProgram accepted
    rw [runs]
    constructor
    · rw [Node.violations, ← Stmt.violationsAll_bare, Stmt.bareAll_placed, Stmt.violationsAll_bare]
      exact none
    · refine ⟨ts, ⟨line, scans⟩, ?_⟩
      rw [Node.calls, Stmt.callsAll_placed]
      exact items.closes (List.infix_refl ts)
  | evaluate fuel source =>
    obtain ⟨firstRef, located, accepted, rfl⟩ := reads
    obtain ⟨tree, ⟨ts, line, scans, derived, none⟩, evaluates⟩ :=
      isExpression_of_checkExpression accepted
    rw [evaluates]
    constructor
    · rw [Node.violations, ← Expr.violations_mapMarks fun _ _ => (), ← Expr.bare, Expr.bare_placed,
        Expr.bare, Expr.violations_mapMarks]
      exact none
    · refine ⟨ts, ⟨line, scans⟩, ?_⟩
      rw [Node.calls, ← Expr.calls_mapMarks fun _ _ => (), ← Expr.bare, Expr.bare_placed, Expr.bare,
        Expr.calls_mapMarks]
      exact derived.closes (List.infix_refl ts)
  | check | takeOutput | setClock => exact reads.elim

theorem InCode.calls {code : Node → Prop} {n : Node} (h : InCode code n) :
    ∃ root, code root ∧ n.calls ⊆ root.calls := by
  obtain ⟨c, stands⟩ := h
  induction stands with
  | @root n isCode => exact ⟨n, isCode, List.Subset.refl _⟩
  | part _ mem ih =>
    obtain ⟨root, isCode, subset⟩ := ih
    exact ⟨root, isCode, List.Subset.trans (Node.calls_subset mem) subset⟩

/-- The parameters of a known function have names of their own. -/
theorem KnowsFunction.distinctNames {code : Node → Prop} {past : List Happening} {f : Closure}
    (known : KnowsFunction code past f) (fit : AllFit code past)
    (accepted : ∀ n, code n → n.violations .top = []) : DistinctNames f.declaration.params := by
  cases known with
  | plain inCode _ =>
    obtain ⟨c, stands⟩ := inCode
    exact Stmt.distinctNames_function (stands.violations accepted)
  | bound did =>
    obtain ⟨_, _, methods, ⟨c, stands⟩, mem⟩ := (fit.binds did).1
    exact Stmt.distinctNames_method (stands.violations accepted) mem

/-- Evaluated arguments are as many as there are expressions. -/
theorem Run.length_evalAll {ev : Evaluator} {es : List (Expr Place)} {vs : List Value}
    {m m' : Machine} (ended : evalAll ev es m = .ok vs m') : vs.length = es.length := by
  induction es generalizing vs m with
  | nil =>
    cases ended
    rfl
  | cons e es ih =>
    obtain ⟨v, m₁, -, ended⟩ := of_bind_ok ended
    obtain ⟨rest, m₂, second, ended⟩ := of_bind_ok ended
    cases ended
    rw [List.length_cons, List.length_cons, ih second]

/-- Each parameter has the argument in its place. -/
def Closure.OwnArguments (f : Closure) (arguments : List Value) (m : Machine) : Prop :=
  ∀ (i : Nat) (x : Name), f.declaration.params[i]? = some x → ∃ v, arguments[i]? = some v ∧
    (f.entered arguments m).store.getAt (f.entered arguments m).current 0 x.text = .ok v

theorem Closure.Supplied.ownArguments {f : Closure} {arguments : List Value} {m : Machine}
    (supplied : f.Supplied arguments m) (distinct : DistinctNames f.declaration.params) :
    f.OwnArguments arguments m := by
  intro i x place
  obtain ⟨lt, rfl⟩ := List.getElem?_eq_some_iff.1 place
  have split : f.declaration.params = f.declaration.params.take i ++
      f.declaration.params[i] :: f.declaration.params.drop (i + 1) := by
    rw [← List.drop_eq_getElem_cons lt, List.take_append_drop]
  unfold DistinctNames at distinct
  rw [split] at distinct
  have others := (List.pairwise_cons.1 (List.pairwise_append.1 distinct).2.1).1
  obtain ⟨v, given, found⟩ := supplied.binds split others
  rw [List.length_take, Nat.min_eq_left (Nat.le_of_lt lt)] at given
  exact ⟨v, given, found⟩

/-- What holds of a happening in a session. -/
structure Happening.Accounted (h : Happening) (earlier : List Happening) (requests : List Request) :
    Prop where
  supplied : h.Supplied earlier
  own : ∀ {f arguments}, h.deed = .enters f arguments → f.OwnArguments arguments h.machine
  /-- The line is that of the parenthesis behind the arguments in the text. -/
  closes : ∀ {callee arguments line}, h.deed = .calls callee arguments line →
    ∃ r ∈ requests, ∃ ts, r.Tokens ts ∧ Grammar.Closes ts (line, arguments.length)

/-- **Calls are fully supplied.** To call a function is to run its body on the machine on which it is
entered, and to leave it again. In a run of any program on any machine, resolved or not, each body that
is entered has as many arguments as parameters, and each parameter is bound to its own, the last one of
a name. A call with another number of arguments is the last thing that happens: the run stops with an
error for it on the machine that evaluating its callee and its arguments has left. In a session no two
parameters have one name, and the line of a call, which its error carries, is that of the parenthesis
behind its arguments. -/
theorem calls_fully_supplied :
    (∀ (fuel : Nat) (f : Closure) (arguments : List Value) (m : Machine),
      Trace.forget (f.activation fuel arguments m) =
          Run.execAll (evaluator fuel) f.declaration.body (f.entered arguments m) ∧
        Run.callClosure (evaluator fuel) f arguments m =
          f.leave m.current (f.activation fuel arguments m)) ∧
    (∀ (fuel : Nat) (ss : List (Stmt Place)) (m : Machine),
      RunSupplied (Chronicled.program (chronicler fuel) ss ⟨m, []⟩)
        (Run.program (evaluator fuel) ss m) m.current) ∧
    (∀ (fuel : Nat) (e : Expr Place) (m : Machine),
      RunSupplied ((chronicler fuel).eval e ⟨m, []⟩) ((evaluator fuel).eval e m) m.current) ∧
    ∀ (sink : Sink) (clock : Clock) (requests : List Request),
      let s := (ChronicledSession.start sink clock).after requests
      s.forget = (Session.start sink clock).after requests ∧
        ∀ later h earlier, s.chronicle.past = later ++ h :: earlier →
          h.Accounted earlier requests := by
  refine ⟨fun fuel f arguments m => ?_, fun fuel ss m => ?_, fun fuel e m => ?_,
    fun sink clock requests => ?_⟩
  · exact ⟨f.activation_forget fuel arguments m, f.call_eq_leave fuel arguments m⟩
  · exact (Supplies.program (chronicler_supplies fuel) ss).run
      (Chronicled.Tells.program (chronicler_tells fuel) ss)
  · exact ((chronicler_supplies fuel).eval _ e).run ((chronicler_tells fuel).eval e)
  intro s
  have sound : s.chronicle.Sound (codeOf requests) :=
    ChronicledSession.after_sound sink clock requests
  refine ⟨ChronicledSession.after_forget _ requests, fun later h earlier split => ?_⟩
  have supplied : h.Supplied earlier :=
    (ChronicledSession.after_supplied (s := .start sink clock) trivial requests).of_split split
  obtain ⟨fits, before⟩ := sound.fit.happening split
  obtain ⟨deed, m⟩ := h
  refine ⟨supplied, fun {f arguments} enters => ?_, fun {callee arguments line} calls => ?_⟩
  · cases enters
    have distinct := fits.1.distinctNames before.fit fun n ⟨r, _, reads⟩ => reads.written.1
    exact Closure.Supplied.ownArguments supplied distinct
  · cases calls
    obtain ⟨n, e, es, m₀, m₁, reached, -, evaluated⟩ := supplied
    obtain ⟨_, _, _, inCode, -⟩ := before.fit.of_did ⟨m₀, reached⟩
    obtain ⟨root, ⟨r, mem, reads⟩, subset⟩ := InCode.calls inCode
    obtain ⟨-, ts, tokens, closes⟩ := reads.written
    refine ⟨r, mem, ts, tokens, ?_⟩
    rw [Run.length_evalAll evaluated]
    exact closes _ (subset List.mem_cons_self)

-- the error has the line of the parenthesis behind the arguments
example : ((Session.start .reliable (.ticking 0)).run 30
      ("class A \x7b init(n) \x7b print n; \x7d \x7d class B < A \x7b\x7d B(1," ++ "\n2\n);")).1 =
    .error (.stopped (.runtime (.argumentCount 1 2) 3)) := by
  decide +kernel

end Lox
