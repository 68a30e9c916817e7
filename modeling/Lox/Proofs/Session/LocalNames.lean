import Lox.Proofs.Alpha.Renamed
import Lox.Proofs.Alpha.Rules
import Lox.Proofs.Session.Batches
import Lox.Proofs.Session.Scopes

/-!
# The names of local variables

A program and one in which a local variable has another name are alpha-equivalent, so they are
resolved alike and run alike on any machine that is like itself. The machines that sessions reach are:
the functions that are alive on them carry scopes that are there.
-/

namespace Lox

open Renaming (identity along)
open Lexer (Scans)
open Grammar (Declarations Program)

/-! ## Programs -/

section

variable {p : Renaming → Prop} {all rs : List Renaming} {m m' : Machine}

/-- The runs end the same way, up to the name of a variable that is missing. -/
inductive Ending.Alpha : Except RunError Unit → Except RunError Unit → Prop
  | same (e : Except RunError Unit) : Ending.Alpha e e
  | stopped {f f' : Fault} : f.Alpha f' → Ending.Alpha (.error (.stopped f)) (.error (.stopped f'))

/-- What comes of flushing is up to the sink alone. -/
theorem Run.flush_of_sink (same : m'.sink = m.sink) :
    (∃ message, Run.flush m = .error (.fault (.io message)) { m with sink := m.sink.asked } ∧
        Run.flush m' = .error (.fault (.io message)) { m' with sink := m.sink.asked }) ∨
      Run.flush m = .ok () { m with sink := m.sink.asked } ∧
        Run.flush m' = .ok () { m' with sink := m.sink.asked } := by
  unfold Run.flush
  rw [same]
  cases m.sink.refusal .flush m.sink.requests with
  | some message => exact .inl ⟨message, rfl, rfl⟩
  | none => exact .inr ⟨rfl, rfl⟩

/-- Alpha-equivalent programs end the same way and ask the same of the sink. -/
theorem Run.interpret_alpha (h : m.Alpha p all rs m') {ss ss' : List (Stmt Place)}
    (alpha : Stmt.AlphaAll p rs ss ss') (fuel : Nat) :
    Ending.Alpha (answer (interpret fuel ss m)) (answer (interpret fuel ss' m')) ∧
      (left (interpret fuel ss' m')).sink = (left (interpret fuel ss m)).sink := by
  unfold interpret
  rcases (Alike.program (evaluator_alike p fuel) h alpha).both with
    ⟨_, _, more, m₁, m₁', here, there, leads, -⟩ | ⟨stop, stop', m₁, m₁', here, there, alike, sink⟩
  · rw [here, there]
    dsimp only
    rcases flush_of_sink leads.alpha.sink with ⟨message, here, there⟩ | ⟨here, there⟩
    · rw [here, there]
      exact ⟨.same _, rfl⟩
    · rw [here, there]
      exact ⟨.same _, rfl⟩
  · rw [here, there]
    cases alike with
    | outOfFuel => exact ⟨.same _, sink⟩
    | fault alike =>
      dsimp only
      rcases flush_of_sink sink with ⟨message, here, there⟩ | ⟨here, there⟩
      · rw [here, there]
        exact ⟨.same _, rfl⟩
      · rw [here, there]
        exact ⟨.stopped alike, rfl⟩

end

/-! ## Machines that sessions reach -/

section

variable {p : Renaming → Prop} {all : List Renaming} {code : Node → Prop} {w : Watch}

theorem Closure.Alpha.self (allowed : p identity) (same : ∀ r ∈ all, r = identity)
    {inner : List Renaming} (sameInner : ∀ r ∈ inner, r = identity) {f : Closure}
    (inside : ∀ id ∈ f.environment.path, id < all.length) : f.Alpha p all inner f := by
  refine ⟨rfl, rfl, inside, FunctionDecl.Alpha.same allowed ?_ f.declaration⟩
  intro r mem
  rcases List.mem_append.1 mem with mem | mem
  · exact sameInner r mem
  · exact Renaming.along_identity same _ r mem

theorem Watch.AdmitsClass.alpha {c : Class} (h : w.AdmitsClass code c)
    (globals : 0 < w.machine.store.frames.size) (allowed : p identity)
    (same : ∀ r ∈ all, r = identity) (length : all.length = w.machine.store.frames.size) :
    c.Alpha p all c := by
  apply List.forall₂_same.2
  intro level mem
  refine ⟨rfl, rfl, fun name => ?_⟩
  cases found : level.methods.get? name with
  | none => exact .none
  | some f =>
    obtain ⟨outer, -, mirrors, -⟩ := ((h level mem).2 name f found).scopes
    apply Option.Rel.some
    apply Closure.Alpha.self allowed same (by simp)
    rw [length]
    exact mirrors.lt_size globals

/-- A value that is admitted is like itself. -/
theorem Watch.Admits.alpha {v : Value} (h : w.Admits code v)
    (globals : 0 < w.machine.store.frames.size) (allowed : p identity)
    (same : ∀ r ∈ all, r = identity) (length : all.length = w.machine.store.frames.size) :
    v.Alpha p all v := by
  match v with
  | .nil => exact .nil
  | .boolean b => exact .boolean b
  | .number x => exact .number x
  | .string text => exact .string text
  | .callable (.native f) => exact .native f
  | .callable (.function id f) =>
    apply Value.Alpha.function id
    apply Closure.Alpha.self allowed same (by simp)
    rw [length]
    exact h.2.mirrors.lt_size globals
  | .callable (.ofClass c) =>
    exact .ofClass (Watch.AdmitsClass.alpha h globals allowed same length)
  | .ofInstance i =>
    exact .ofInstance ⟨rfl, Watch.AdmitsClass.alpha h globals allowed same length⟩

theorem Bindings.Alpha.self {b : Bindings Value} (values : ∀ name v, b.get? name = some v →
    v.Alpha p all v) : b.Alpha p all identity b := by
  intro name
  rw [Renaming.perm_identity]
  cases found : b.get? name with
  | none => exact .none
  | some v => exact .some (values name v found)

/-- The machine of a good watch is like itself. -/
theorem WatchedSession.Good.alpha {s : WatchedSession} (h : s.Good code) (allowed : p identity) :
    ∃ all, s.watch.machine.Alpha p all [identity] s.watch.machine := by
  let m := s.watch.machine
  let all := List.replicate m.store.frames.size identity
  have globals : 0 < m.store.frames.size := h.watch.globals
  have same : ∀ r ∈ all, r = identity := fun r mem => (List.mem_replicate.1 mem).2
  have length : all.length = m.store.frames.size := List.length_replicate
  have store : m.store.Alpha p all m.store := by
    constructor
    · exact length
    · rfl
    · simp [all, globals]
    · intro id
      rw [Renaming.ofScope, Renaming.getD_identity same]
      apply Bindings.Alpha.self
      exact fun name v found =>
        (h.watch.values id name v found).admits.alpha globals allowed same length
    · rfl
    · intro id
      apply Bindings.Alpha.self
      exact fun name v found => (h.watch.fields id name v found).alpha globals allowed same length
    · rfl
  refine ⟨all, store, rfl, ?_, ?_, rfl, rfl⟩
  · rw [h.current, length]
    simpa [Environment.path, Environment.globals] using globals
  · rw [h.current]
    exact congrArg (· :: []) (Renaming.getD_identity same _)

end

/-! ## Texts -/

/-- The text is scanned to its end, and the grammar derives its tokens as this tree. -/
def Spells (source : String) (tree : List (Stmt Unit)) : Prop :=
  ∃ ts line, Scans 1 source.toList ts line [] ∧ Declarations true ts tree

namespace Spells

variable {source : String} {tree : List (Stmt Unit)}

theorem program (h : Spells source tree) : Program true (tokensOf (lex source)) tree := by
  obtain ⟨ts, line, scans, items⟩ := h
  rw [(lex_of_scans scans).1]
  exact .of items rfl

/-- The names of the tree are identifiers of the text. -/
theorem shaped (h : Spells source tree) {allowed : String → Prop}
    (named : ∀ t ∈ tokensOf (lex source), t.Names allowed) : Stmt.ShapedAll allowed tree := by
  rw [← (parseProgram_of_program h.program 0).2]
  exact (Stmt.shapedAll_bare _).2 (parseProgram_shaped (tokensOf (lex source)) 0 named)

theorem bare_eq (h : Spells source tree) : tree.map Stmt.bare = tree := by
  rw [← (parseProgram_of_program h.program 0).2, ← Stmt.mapMarksAll_bare, ← Stmt.mapMarksAll_bare,
    Stmt.mapMarksAll_mapMarksAll]

end Spells

/-- A text that is accepted spells what is run of it, and nothing is misplaced there. -/
theorem spells_of_checkProgram {source : String} {firstRef : RefId}
    {located : List (Stmt (RefId × Place))}
    (accepted : checkProgram (readProgram source firstRef) = .ok located) :
    Spells source ((runnable located).map Stmt.bare) ∧
      Stmt.violationsAll .top (runnable located) = [] := by
  obtain ⟨tree, ⟨ts, line, scans, items, ok⟩, runs⟩ := isProgram_of_checkProgram accepted
  have spelled : Spells source tree := ⟨ts, line, scans, items⟩
  have bare : (runnable located).map Stmt.bare = tree := by
    rw [runs, Stmt.bareAll_placed, spelled.bare_eq]
  constructor
  · rw [bare]
    exact spelled
  · rw [← Stmt.violationsAll_bare, bare]
    exact ok

/-- A tree that is well-scoped and spelled by a text is accepted and run. -/
theorem checkProgram_of_spells {source : String} {tree : List (Stmt Place)}
    (spelled : Spells source (tree.map Stmt.bare)) (isScoped : Stmt.ScopedAll .top tree)
    (ok : Stmt.violationsAll .top tree = []) (firstRef : RefId) :
    ∃ located, checkProgram (readProgram source firstRef) = .ok located ∧ runnable located = tree := by
  obtain ⟨ts, line, scans, items⟩ := spelled
  rw [← Stmt.violationsAll_bare] at ok
  obtain ⟨located, accepted, runs⟩ := checkProgram_of_isProgram ⟨ts, line, scans, items, ok⟩ firstRef
  refine ⟨located, accepted, ?_⟩
  rw [runs, Stmt.placedAll_bare]
  exact isScoped.placed_self

/-- **The name of a local variable does not matter.** Let a text be accepted by a session that any
requests have led to, and let a local variable or a parameter of it get a name that occurs nowhere in
the text, with all references that find it and no others. A text with this tree is accepted too, and
all its references find their variables at the same places. With any fuel, both texts print the same
and end the same way, up to the name of a variable that is missing where the scopes are blamed. -/
theorem local_names_irrelevant (sink : Sink) (clock : Clock) (requests : List Request)
    (source source' old new : String) (located : List (Stmt (RefId × Place)))
    (tree' : List (Stmt Place)) :
    let s := (Session.start sink clock).after requests
    (s.check source).1 = .ok located →
    (∀ t ∈ tokensOf (lex source), t.kind = .identifier → t.lexeme ≠ new) →
    Stmt.RenamesIn old new (runnable located) tree' →
    Spells source' (tree'.map Stmt.bare) →
    ∃ located', (s.check source').1 = .ok located' ∧ runnable located' = tree' ∧
      Stmt.marksAll (runnable located') = Stmt.marksAll (runnable located) ∧
        ∀ fuel, Ending.Alpha (s.run fuel source).1 (s.run fuel source').1 ∧
          (s.run fuel source').2.machine.sink = (s.run fuel source).2.machine.sink := by
  intro s accepted fresh renames spelled'
  have checked := Session.check_eq_ok.1 accepted
  obtain ⟨spelled, ok⟩ := spells_of_checkProgram checked
  have isFresh : Stmt.ShapedAll (· ≠ new) (runnable located) :=
    (Stmt.shapedAll_bare _).1 (spelled.shaped fresh)
  have named := renames.names.1 ((Stmt.shapedAll_bare _).1 (spelled.shaped (token_names source)))
  have named' := renames.names.2 ((Stmt.shapedAll_bare _).1 (spelled'.shaped (token_names source')))
  -- at the top level, no scope has other names
  have top : ∀ r ∈ [identity], r = identity := by simp
  have alpha := renames.alpha named named' top isFresh ok
  have apart := Renaming.exchanges_apart named named'
  have contexts : Context.Alpha (Renaming.Exchanges named named') (· ≠ new) [identity] .top .top :=
    ⟨rfl, rfl, .nil top⟩
  have isScoped := alpha.scoped apart contexts isFresh (checkProgram_scoped checked)
  have ok' := alpha.violations_eq apart contexts isFresh isScoped ok
  obtain ⟨located', checked', runs⟩ := checkProgram_of_spells spelled' isScoped ok' s.nextRef
  have accepted' := Session.check_eq_ok.2 checked'
  have places : Stmt.marksAll (runnable located') = Stmt.marksAll (runnable located) := by
    rw [runs]
    exact alpha.marks
  refine ⟨located', accepted', runs, places, fun fuel => ?_⟩
  have forget := WatchedSession.after_forget (.start sink clock) requests
  have machine : ((WatchedSession.start sink clock).after requests).watch.machine = s.machine :=
    congrArg Session.machine forget
  obtain ⟨all, alike⟩ := (WatchedSession.good_after sink clock requests).alpha apart.identity
  rw [machine] at alike
  obtain ⟨answer, left⟩ := Session.run_of_check accepted fuel
  obtain ⟨answer', left'⟩ := Session.run_of_check accepted' fuel
  rw [answer, answer', left, left', runs]
  exact Run.interpret_alpha alike alpha fuel

-- the function is declared before the variable, so it reads the global under either name
theorem local_names_irrelevant_shadowing :
    let s := (Session.start .reliable (.ticking 0)).after []
    let source := "var a = false; { fun f() { print a; } var a = true; f(); print a; }"
    let source' := "var a = false; { fun f() { print a; } var b = true; f(); print b; }"
    ∃ located tree', (s.check source).1 = .ok located ∧
      (∀ t ∈ tokensOf (lex source), t.kind = .identifier → t.lexeme ≠ "b") ∧
        Stmt.RenamesIn "a" "b" (runnable located) tree' ∧ Spells source' (tree'.map Stmt.bare) ∧
          Ending.Alpha (s.run 20 source).1 (s.run 20 source').1 ∧
            (s.run 20 source').2.machine.sink = (s.run 20 source).2.machine.sink ∧
              (s.run 20 source').2.machine.sink.written = "false
true
" := by
  have accepted : (((Session.start .reliable (.ticking 0)).after []).check
      "var a = false; \x7b fun f() \x7b print a; \x7d var a = true; f(); print a; \x7d").1 = .ok
      [.declare ⟨"a", 1⟩ (some (.literal (.boolean false))),
        .block [
          .function ⟨⟨"f", 1⟩, [], [.print (.variable ⟨⟨"a", 1⟩, (0, .global)⟩)]⟩,
          .declare ⟨"a", 1⟩ (some (.literal (.boolean true))),
          .expression (.call (.variable ⟨⟨"f", 1⟩, (1, .scope 0)⟩) 1 []),
          .print (.variable ⟨⟨"a", 1⟩, (2, .scope 0)⟩)]] := rfl
  have accepted' : (((Session.start .reliable (.ticking 0)).after []).check
      "var a = false; \x7b fun f() \x7b print a; \x7d var b = true; f(); print b; \x7d").1 = .ok
      [.declare ⟨"a", 1⟩ (some (.literal (.boolean false))),
        .block [
          .function ⟨⟨"f", 1⟩, [], [.print (.variable ⟨⟨"a", 1⟩, (0, .global)⟩)]⟩,
          .declare ⟨"b", 1⟩ (some (.literal (.boolean true))),
          .expression (.call (.variable ⟨⟨"f", 1⟩, (1, .scope 0)⟩) 1 []),
          .print (.variable ⟨⟨"b", 1⟩, (2, .scope 0)⟩)]] := rfl
  intro s source source'
  have unused : ∀ t ∈ tokensOf (lex source), t.lexeme ≠ "b" := by decide +kernel
  have fresh : ∀ t ∈ tokensOf (lex source), t.kind = .identifier → t.lexeme ≠ "b" :=
    fun t mem _ => unused t mem
  have renames : Stmt.RenamesIn "a" "b"
      [.declare ⟨"a", 1⟩ (some (.literal (.boolean false))),
        .block [
          .function ⟨⟨"f", 1⟩, [], [.print (.variable ⟨⟨"a", 1⟩, .global⟩)]⟩,
          .declare ⟨"a", 1⟩ (some (.literal (.boolean true))),
          .expression (.call (.variable ⟨⟨"f", 1⟩, .scope 0⟩) 1 []),
          .print (.variable ⟨⟨"a", 1⟩, .scope 0⟩)]] _ :=
    .one [_] [] (.block (.variable [_] [_, _]))
  have spelled := (spells_of_checkProgram (Session.check_eq_ok.1 accepted')).1
  obtain ⟨located', -, -, -, alike⟩ := local_names_irrelevant .reliable (.ticking 0) [] source source'
    "a" "b" _ _ accepted fresh renames spelled
  exact ⟨_, _, accepted, fresh, renames, spelled, (alike 20).1, (alike 20).2, by decide +kernel⟩

end Lox
