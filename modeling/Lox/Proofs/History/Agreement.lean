import Lox.Proofs.History.Chronicle
import Lox.Proofs.Session.Requests

/-!
# A chronicled run is the plain run

`t.Tells r` says that the chronicled run `t` gives what the plain run `r` gives on its machine, and
leaves the machine that `r` leaves. There is one lemma for each definition of a chronicled run, and
`chronicler_tells` puts them together. So a session may be chronicled as well: it gives the same
answers and is left with the same machine.
-/

namespace Lox

/-- What is left of a chronicled run without the chronicle. -/
def Chronicle.forget {α : Type} :
    EStateM.Result Stop Chronicle α → EStateM.Result Stop Machine α
  | .ok a w => .ok a w.machine
  | .error stop w => .error stop w.machine

/-- The chronicled run is the plain one with the chronicle added. -/
def Chronicled.Tells {α : Type} (t : Chronicled α) (r : Run α) : Prop :=
  ∀ w, Chronicle.forget (t w) = r w.machine

/-- The evaluation of each part of a program is the plain one with the chronicle added. -/
structure Chronicler.Tells (t : Chronicler) (ev : Evaluator) : Prop where
  eval : ∀ e, (t.eval e).Tells (ev.eval e)
  exec : ∀ s, (t.exec s).Tells (ev.exec s)

namespace Chronicled.Tells

variable {α β : Type}

theorem pure (a : α) : Chronicled.Tells (Pure.pure a) (Pure.pure a) := fun _ => rfl

theorem bind {t : Chronicled α} {r : Run α} {f : α → Chronicled β} {g : α → Run β}
    (first : t.Tells r) (next : ∀ a, (f a).Tells (g a)) : Chronicled.Tells (t >>= f) (r >>= g) := by
  intro w
  have same := first w
  simp only [Bind.bind, EStateM.bind]
  rw [← same]
  cases t w with
  | ok a w' => exact next a w'
  | error stop w' => rfl

theorem plain (act : Run α) : (Chronicled.plain act).Tells act := by
  intro w
  unfold Chronicled.plain
  cases act w.machine with
  | ok a m => rfl
  | error stop m => rfl

/-- What is written down leaves the machine alone. -/
theorem note (deed : Deed) {f : Unit → Chronicled β} {r : Run β} (next : (f ()).Tells r) :
    Chronicled.Tells (Chronicled.note deed >>= f) r :=
  fun w => next { w with past := ⟨deed, w.machine⟩ :: w.past }

theorem withEnvironment {e : Environment} {t : Chronicled α} {r : Run α} (inner : t.Tells r) :
    (Chronicled.withEnvironment e t).Tells (Run.withEnvironment e r) := by
  intro w
  have same := inner { w with machine := { w.machine with current := e } }
  unfold Chronicled.withEnvironment Run.withEnvironment
  dsimp only
  rw [← same]
  cases t { w with machine := { w.machine with current := e } } with
  | ok a w' => rfl
  | error stop w' => rfl

theorem newInstance (c : Class) : (Chronicled.newInstance c).Tells (Run.newInstance c) :=
  fun _ => rfl

theorem bindMethod (method : Closure) (i : Instance) :
    (Chronicled.bindMethod method i).Tells (Run.bindMethod method i) := fun _ => rfl

theorem setField (i : Instance) (property : String) (v : Value) :
    (Chronicled.setField i property v).Tells (Run.setField i property v) := fun _ => rfl

theorem newClass (name : String) (superclass : Option Class) (methods : List (FunctionDecl Place)) :
    (Chronicled.newClass name superclass methods).Tells (Run.newClass name superclass methods) :=
  fun _ => rfl

/-! ## Methods and properties -/

theorem methodOf (c : Class) (i : Instance) (name : Name) :
    (Chronicled.methodOf c i name).Tells (Run.methodOf c i name) := by
  unfold Chronicled.methodOf Run.methodOf
  cases c.findMethod? name.text with
  | none => exact plain _
  | some method => exact (bindMethod method i).bind fun bound => plain _

theorem getProperty (object : Value) (name : Name) :
    (Chronicled.getProperty object name).Tells (Run.getProperty object name) := by
  cases object with
  | ofInstance i =>
    apply note
    apply (plain _).bind
    intro field
    cases field with
    | some value => exact pure _
    | none => exact methodOf _ _ _
  | nil | boolean | number | string | callable => exact plain (Run.failWith .propertyOfOther _)

theorem superMethod (place : Place) (method : Name) :
    (Chronicled.superMethod place method).Tells (Run.superMethod place method) := by
  cases place with
  | global => exact plain (Run.mismatch .superUnresolved)
  | scope hops => exact (plain _).bind fun _ => methodOf _ _ _

theorem declareClass (name : Name) (superclass : Option (Reference Place))
    (methods : List (FunctionDecl Place)) :
    (Chronicled.declareClass name superclass methods).Tells
      (Run.declareClass name superclass methods) := by
  apply (plain _).bind
  intro _
  apply (plain _).bind
  intro parent
  apply (plain _).bind
  intro e
  apply (withEnvironment (newClass name.text parent methods)).bind
  intro made
  exact (plain _).bind fun _ => plain _

variable {t : Chronicler} {ev : Evaluator} (h : t.Tells ev)
include h

/-! ## Calls -/

theorem evalAll (es : List (Expr Place)) :
    (Chronicled.evalAll t es).Tells (Run.evalAll ev es) := by
  induction es with
  | nil => exact pure _
  | cons e es ih => exact (h.eval e).bind fun _ => ih.bind fun _ => pure _

theorem execAll (ss : List (Stmt Place)) :
    (Chronicled.execAll t ss).Tells (Run.execAll ev ss) := by
  induction ss with
  | nil => exact pure _
  | cons s ss ih =>
    apply (h.exec s).bind
    intro completion
    cases completion with
    | normal => exact ih
    | returned value => exact pure _

theorem callClosure (c : Closure) (arguments : List Value) :
    (Chronicled.callClosure t c arguments).Tells (Run.callClosure ev c arguments) := by
  apply note
  apply (plain _).bind
  intro e
  apply (withEnvironment (execAll h _)).bind
  intro completion
  split
  · exact plain _
  · exact pure _

theorem instantiate (c : Class) (arguments : List Value) :
    (Chronicled.instantiate t c arguments).Tells (Run.instantiate ev c arguments) := by
  apply (newInstance c).bind
  intro i
  cases c.findMethod? initializerName with
  | none => exact pure _
  | some method =>
    exact (bindMethod method i).bind fun bound =>
      (callClosure h bound arguments).bind fun _ => pure _

theorem callValue (callee : Value) (arguments : List Value) (line : Nat) :
    (Chronicled.callValue t callee arguments line).Tells
      (Run.callValue ev callee arguments line) := by
  unfold Chronicled.callValue
  apply note
  cases callee with
  | callable c =>
    unfold Run.callValue
    dsimp only
    split
    · cases c with
      | native f => exact plain (Run.callNative f)
      | function id c => exact callClosure h c arguments
      | ofClass c => exact instantiate h c arguments
    · exact plain _
  | nil | boolean | number | string | ofInstance => exact plain _

/-! ## Expressions and statements -/

theorem setProperty (object : Value) (name : Name) (value : Expr Place) :
    (Chronicled.setProperty t object name value).Tells
      (Run.setProperty ev object name value) := by
  cases object with
  | ofInstance i =>
    exact (h.eval value).bind fun v => (setField i name.text v).bind fun _ => pure _
  | nil | boolean | number | string | callable => exact plain (Run.failWith .fieldOfOther _)

theorem evalWith (e : Expr Place) :
    (Chronicled.evalWith t e).Tells (Run.evalWith ev e) := by
  cases e with
  | literal value => exact pure _
  | grouping inner => exact h.eval inner
  | unary op line operand => exact (h.eval operand).bind fun _ => plain _
  | binary op line left right =>
    exact (h.eval left).bind fun _ => (h.eval right).bind fun _ => plain _
  | logical op left right =>
    apply (h.eval left).bind
    intro l
    split
    · exact pure _
    · exact h.eval right
  | «variable» target => exact plain _
  | assign target value => exact (h.eval value).bind fun _ => (plain _).bind fun _ => pure _
  | call callee line arguments =>
    exact (h.eval callee).bind fun _ => (evalAll h arguments).bind fun _ => callValue h _ _ _
  | get object property => exact (h.eval object).bind fun _ => getProperty _ _
  | set object property value => exact (h.eval object).bind fun _ => setProperty h _ _ _
  | this line mark => exact plain _
  | super line mark method => exact superMethod _ _

theorem eval? (e? : Option (Expr Place)) : (Chronicled.eval? t e?).Tells (Run.eval? ev e?) := by
  cases e? with
  | none => exact pure _
  | some e => exact h.eval e

theorem loop (n : Nat) (condition : Expr Place) (body : Stmt Place) :
    (Chronicled.loop t n condition body).Tells (Run.loop ev n condition body) := by
  induction n with
  | zero => exact plain Run.outOfFuel
  | succ n ih =>
    apply (h.eval condition).bind
    intro holds
    split
    · apply (h.exec body).bind
      intro completion
      cases completion with
      | normal => exact ih
      | returned value => exact pure _
    · exact pure _

theorem choose (condition : Value) (thenBranch : Stmt Place) (elseBranch : Option (Stmt Place)) :
    (Chronicled.choose t condition thenBranch elseBranch).Tells
      (Run.choose ev condition thenBranch elseBranch) := by
  unfold Chronicled.choose Run.choose
  cases elseBranch with
  | some other =>
    dsimp only
    split
    · exact h.exec thenBranch
    · exact h.exec other
  | none =>
    dsimp only
    split
    · exact h.exec thenBranch
    · exact pure _

theorem execWith (n : Nat) (s : Stmt Place) :
    (Chronicled.execWith n t s).Tells (Run.execWith n ev s) := by
  cases s with
  | expression value => exact (h.eval value).bind fun _ => pure _
  | print value => exact (h.eval value).bind fun _ => (plain _).bind fun _ => pure _
  | declare name initializer =>
    exact (eval? h initializer).bind fun _ => (plain _).bind fun _ => pure _
  | block body => exact (plain _).bind fun e => withEnvironment (execAll h body)
  | conditional condition thenBranch elseBranch =>
    exact (h.eval condition).bind fun v => choose h v thenBranch elseBranch
  | loop condition body => exact loop h n condition body
  | function declaration => exact (plain _).bind fun _ => pure _
  | ret line value => exact (eval? h value).bind fun _ => pure _
  | classDecl name superclass methods =>
    exact (declareClass name superclass methods).bind fun _ => pure _

omit h in
theorem program (h : t.Tells ev) (ss : List (Stmt Place)) :
    (Chronicled.program t ss).Tells (Run.program ev ss) := by
  induction ss with
  | nil => exact pure _
  | cons s ss ih =>
    apply (h.exec s).bind
    intro completion
    cases completion with
    | normal => exact ih
    | returned value => exact plain _

end Chronicled.Tells

/-- Chronicled evaluation is evaluation. -/
theorem chronicler_tells (n : Nat) : (chronicler n).Tells (evaluator n) := by
  induction n with
  | zero => exact ⟨fun _ => .plain Run.outOfFuel, fun _ => .plain Run.outOfFuel⟩
  | succ n ih =>
    exact ⟨fun e => .note _ (Chronicled.Tells.evalWith ih e),
      fun s => .note _ (Chronicled.Tells.execWith ih n s)⟩

/-- A chronicled program run is the program run. -/
theorem Chronicled.Tells.interpret (fuel : Nat) (ss : List (Stmt Place)) :
    (Chronicled.interpret fuel ss).Tells (Run.interpret fuel ss) := by
  intro w
  have same := Chronicled.Tells.program (chronicler_tells fuel) ss w
  unfold Chronicled.interpret Run.interpret
  rw [← same]
  cases Chronicled.program (chronicler fuel) ss w with
  | ok a w' => exact plain Run.flush w'
  | error stop w' =>
    cases stop with
    | outOfFuel => rfl
    | fault f =>
      have flushed := plain Run.flush w'
      simp only [Chronicle.forget] at flushed ⊢
      rw [← flushed]
      cases Chronicled.plain Run.flush w' with
      | ok a w'' => rfl
      | error stop w'' => rfl

/-! ## Sessions -/

/-- A session whose runs are chronicled. -/
structure ChronicledSession where
  chronicle : Chronicle
  nextRef : RefId

namespace ChronicledSession

/-- The session without the chronicle. -/
def forget (s : ChronicledSession) : Session := ⟨s.chronicle.machine, s.nextRef⟩

/-- A session in which nothing has happened. -/
def start (sink : Sink) (clock : Clock) : ChronicledSession := ⟨⟨.start sink clock, []⟩, 0⟩

/-- Carries out a part of a chronicled run. -/
def perform {α : Type} (s : ChronicledSession) (act : Chronicled α) :
    Except RunError α × ChronicledSession :=
  match act s.chronicle with
  | .ok a w => (.ok a, { s with chronicle := w })
  | .error stop w => (.error (.ofStop stop), { s with chronicle := w })

/-- The session with another machine. -/
def on (s : ChronicledSession) (m : Machine) : ChronicledSession :=
  { s with chronicle := { s.chronicle with machine := m } }

/-- The session after a request, with the answer to it. -/
def serve (s : ChronicledSession) : Request → Answer × ChronicledSession
  | .run fuel source =>
    let reading := readProgram source s.nextRef
    let s := { s with nextRef := reading.nextRef }
    match checkProgram reading with
    | .error reports => (.error (.rejected reports), s)
    | .ok statements =>
      let served := s.perform (Chronicled.interpret fuel (runnable statements))
      (served.1.map fun _ => none, served.2)
  | .evaluate fuel source =>
    let reading := readExpression source s.nextRef
    let s := { s with nextRef := reading.nextRef }
    match checkExpression reading with
    | .error reports => (.error (.rejected reports), s)
    | .ok e =>
      let served := s.perform ((chronicler fuel).eval (runnableExpr e))
      (served.1.map some, served.2)
  | .check source =>
    let reading := readProgram source s.nextRef
    (((checkProgram reading).mapError .rejected).map fun _ => none,
      { s with nextRef := reading.nextRef })
  | .takeOutput => (.ok none, s.on s.chronicle.machine.emptied)
  | .setClock clock => (.ok none, s.on { s.chronicle.machine with clock := clock })

/-- The session after requests. -/
def after (s : ChronicledSession) (requests : List Request) : ChronicledSession :=
  requests.foldl (fun s r => (s.serve r).2) s

theorem perform_forget {α : Type} (s : ChronicledSession) {t : Chronicled α} {r : Run α}
    (tells : t.Tells r) :
    (s.perform t).1 = (s.forget.perform r).1 ∧ (s.perform t).2.forget = (s.forget.perform r).2 := by
  have same := tells s.chronicle
  simp only [perform, Session.perform, forget]
  rw [← same]
  cases t s.chronicle <;> exact ⟨rfl, rfl⟩

/-- A chronicled session serves a request as the session does. -/
theorem serve_forget (s : ChronicledSession) (r : Request) :
    (s.serve r).1 = (s.forget.serve r).1 ∧ (s.serve r).2.forget = (s.forget.serve r).2 := by
  cases r with
  | run fuel source =>
    simp only [serve, Session.serve, Session.run]
    rw [show s.forget.nextRef = s.nextRef from rfl]
    cases checkProgram (readProgram source s.nextRef) with
    | error reports => exact ⟨rfl, rfl⟩
    | ok statements =>
      obtain ⟨answer, session⟩ :=
        perform_forget { s with nextRef := (readProgram source s.nextRef).nextRef }
          (Chronicled.Tells.interpret fuel (runnable statements))
      exact ⟨congrArg (Except.map fun _ => none) answer, session⟩
  | evaluate fuel source =>
    simp only [serve, Session.serve, Session.evaluate]
    rw [show s.forget.nextRef = s.nextRef from rfl]
    cases checkExpression (readExpression source s.nextRef) with
    | error reports => exact ⟨rfl, rfl⟩
    | ok e =>
      obtain ⟨answer, session⟩ :=
        perform_forget { s with nextRef := (readExpression source s.nextRef).nextRef }
          ((chronicler_tells fuel).eval (runnableExpr e))
      exact ⟨congrArg (Except.map some) answer, session⟩
  | check source | takeOutput | setClock clock => exact ⟨rfl, rfl⟩

/-- A chronicled session is the session with the chronicle added. -/
theorem after_forget (s : ChronicledSession) (requests : List Request) :
    (s.after requests).forget = s.forget.after requests := by
  induction requests generalizing s with
  | nil => rfl
  | cons r rest ih =>
    simp only [after, Session.after, List.foldl_cons] at ih ⊢
    rw [ih, (s.serve_forget r).2]

end ChronicledSession

end Lox
