import Lox.Proofs.Sibling.Steps

/-!
# Evaluation leaves functions where they were declared

One lemma for each rule of a watched run, and `watcher_recalls` puts them together: with any fuel and
for any code, a variable keeps the function that it was declared as until it is bound again.
-/

namespace Lox

/-- Whatever is evaluated or run, the watch recalls behind it if it did before. What is evaluated
runs statements in new scopes only, what is run does so in the active scope besides. -/
structure Watcher.Recalls (t : Watcher) : Prop where
  eval : ∀ {bound : FrameId} {w : Watch} (p : Spot) (e : Expr Place), Passing bound w (t.eval p e)
  exec : ∀ {bound : FrameId} {w : Watch} (p : Spot) (s : Stmt Place),
    bound ≤ w.machine.current.frame → Passing bound w (t.exec p s)

variable {bound : FrameId} {w w' : Watch}

/-- The scope that was active is active again. -/
theorem Watch.Passes.within (h : w.Passes bound w') (le : bound ≤ w.machine.current.frame) :
    bound ≤ w'.machine.current.frame := by
  rw [h.current]
  exact le

namespace Passing

/-! ## Methods -/

theorem newFunction (p : Spot) (c : Closure) : Passing bound w (Watched.newFunction p c) :=
  (newObject p).bind fun _ _ _ => pure _

theorem methodSpot (c : Class) (name : String) : Passing bound w (Watched.methodSpot c name) := by
  intro recalls _
  unfold Watched.methodSpot
  cases c.definer? name with
  | none => exact .refl recalls
  | some level => exact .refl recalls

theorem methodOf (c : Class) (i : Instance) (name : Name) :
    Passing bound w (Watched.methodOf c i name) := by
  unfold Watched.methodOf
  cases c.findMethod? name.text with
  | none => exact plain (.fault _)
  | some method =>
    apply (methodSpot c name.text).bind
    intro p _ _
    apply (plain (.bindMethod method i)).bind
    intro c _ _
    exact newFunction p c

/-! ## Calls -/

variable {t : Watcher} (h : t.Recalls)
include h

theorem evalAll (p : Spot) (es : List (Expr Place)) :
    Passing bound w (Watched.evalAll t p es) := by
  induction es generalizing w with
  | nil => exact pure _
  | cons e es ih =>
    apply (h.eval p e).bind
    intro v _ _
    exact ih.bind fun vs _ _ => pure _

theorem execAll (p : Spot) (ss : List (Stmt Place)) (le : bound ≤ w.machine.current.frame) :
    Passing bound w (Watched.execAll t p ss) := by
  induction ss generalizing w p with
  | nil => exact pure _
  | cons s ss ih =>
    apply (h.exec p s le).bind
    intro completion w' passes
    cases completion with
    | normal => exact ih _ (passes.within le)
    | returned v => exact pure _

/-- Statements in a scope that is new. -/
theorem execIn (p : Spot) {e : Environment} (ss : List (Stmt Place)) (le : bound ≤ e.frame)
    (lt : e.frame < w.machine.store.frames.size) :
    Passing bound w (Watched.execIn t p e ss) :=
  withEnvironment lt (execAll h p ss le)

theorem callClosure (p : Spot) (c : Closure) (arguments : List Value) :
    Passing bound w (Watched.callClosure t p c arguments) := by
  apply newFrame_bind
  intro e w' _ le lt
  apply (execIn h (p.inBody c) c.declaration.body le lt).bind
  intro completion _ _
  exact ite (plain (.read _)) (pure _)

theorem instantiate (c : Class) (arguments : List Value) :
    Passing bound w (Watched.instantiate t c arguments) := by
  apply (plain (.newInstance c)).bind
  intro i _ _
  cases c.findMethod? initializerName with
  | none => exact pure _
  | some method =>
    apply (methodSpot c initializerName).bind
    intro p _ _
    apply (plain (.bindMethod method i)).bind
    intro initializer _ _
    exact (callClosure h p initializer arguments).bind fun _ _ _ => pure _

theorem callValue (callee : Value) (arguments : List Value) (line : Nat) :
    Passing bound w (Watched.callValue t callee arguments line) := by
  unfold Watched.callValue
  cases callee with
  | callable c =>
    dsimp only
    split
    · cases c with
      | native f =>
        cases f with
        | clock => exact plain (.bind .readClock fun _ => .pure _)
      | function id c => exact callClosure h (w.spots id) c arguments
      | ofClass c => exact instantiate h c arguments
    · exact plain (.fault _)
  | nil | boolean | number | string | ofInstance => exact plain (.fault _)

omit h

/-! ## Expressions -/

theorem getProperty (object : Value) (name : Name) :
    Passing bound w (Watched.getProperty object name) := by
  unfold Watched.getProperty
  cases object with
  | ofInstance i =>
    apply (plain (.read _)).bind
    intro field _ _
    cases field with
    | some v => exact pure v
    | none => exact methodOf i.ofClass i name
  | nil | boolean | number | string | callable => exact plain (.fault _)

theorem superMethod (place : Place) (method : Name) :
    Passing bound w (Watched.superMethod place method) := by
  cases place with
  | global => exact plain (.fault _)
  | scope hops =>
    exact (plain (.superAt hops)).bind fun found _ _ =>
      methodOf found.1 found.2 method

include h

theorem setProperty (p : Spot) (object : Value) (name : Name) (value : Expr Place) :
    Passing bound w (Watched.setProperty t p object name value) := by
  unfold Watched.setProperty
  cases object with
  | ofInstance i =>
    apply (h.eval p value).bind
    intro v _ _
    exact (plain (.setField i name.text v)).bind fun _ _ _ => pure v
  | nil | boolean | number | string | callable => exact plain (.fault _)

theorem evalWith (p : Spot) (e : Expr Place) : Passing bound w (Watched.evalWith t p e) := by
  cases e with
  | literal value => exact pure _
  | grouping inner => exact h.eval p inner
  | unary op line operand => exact (h.eval p operand).bind fun _ _ _ => plain (.liftCause line _)
  | binary op line left right =>
    apply (h.eval p left).bind
    intro a _ _
    exact (h.eval p right).bind fun _ _ _ => plain (.liftCause line _)
  | logical op left right =>
    apply (h.eval p left).bind
    intro a _ _
    exact ite (pure a) (h.eval p right)
  | «variable» target => exact plain (.readVariable target.mark target.name)
  | assign target value =>
    apply (h.eval p value).bind
    intro v _ _
    exact store p target v
  | call callee line arguments =>
    apply (h.eval p callee).bind
    intro f _ _
    apply (evalAll h p arguments).bind
    intro vs _ _
    exact callValue h f vs line
  | get object property => exact (h.eval p object).bind fun v _ _ => getProperty v property
  | set object property value =>
    exact (h.eval p object).bind fun v _ _ => setProperty h p v property value
  | this line mark => exact plain (.readVariable mark _)
  | super line mark method => exact superMethod mark method

omit h

/-! ## Classes -/

theorem readSuperclass (p : Spot) (superclass : Option (Reference Place)) :
    Passing bound w (Watched.readSuperclass p superclass) := by
  cases superclass with
  | none => exact pure none
  | some r =>
    apply (note p (.superclass r) rfl fun s same => by cases same).bind
    intro _ _ _
    exact plain (.readSuperclass (some r))

theorem newClass (p : Spot) (name : String) (superclass : Option Class)
    (methods : List (FunctionDecl Place)) :
    Passing bound w (Watched.newClass p name superclass methods) := by
  apply current_bind
  apply (newObject p).bind
  intro id _ _
  exact pure _

/-- A class is bound in the active scope twice, with no function declared there in between. -/
theorem declareClass (p : Spot) (name : Name) (superclass : Option (Reference Place))
    (methods : List (FunctionDecl Place)) (active : w.machine.current.frame < bound)
    (unclaimed : Unclaimed w.moments w.machine.current.frame name.text) :
    Passing bound w (Watched.declareClass p name superclass methods) := by
  apply define_bind unclaimed
  intro w₁ defined here
  apply (readSuperclass _ superclass).bind
  intro parent w₂ read
  apply current_bind
  apply methodEnvironment_bind
  intro e w₃ opened lt
  apply (withEnvironment lt (newClass _ _ _ _)).bind
  intro made w₄ numbered
  apply current_bind
  have since := (read.trans opened).trans numbered
  have passes := defined.trans since
  apply assign_active
  · rw [passes.current]
    exact since.names _ _ here
  · rw [passes.current]
    exact passes.unclaimed active unclaimed

/-! ## Statements -/

include h

theorem eval? (p : Spot) (value : Option (Expr Place)) :
    Passing bound w (Watched.eval? t p value) := by
  cases value with
  | none => exact pure _
  | some e => exact h.eval p e

theorem loop (p : Spot) (n : Nat) (condition : Expr Place) (body : Stmt Place)
    (le : bound ≤ w.machine.current.frame) :
    Passing bound w (Watched.loop t p n condition body) := by
  induction n generalizing w with
  | zero => exact plain .outOfFuel
  | succ n ih =>
    apply (h.eval p condition).bind
    intro holds w₁ first
    apply ite
    · apply (h.exec p body (first.within le)).bind
      intro completion w₂ second
      cases completion with
      | normal => exact ih ((first.trans second).within le)
      | returned v => exact pure _
    · exact pure _

theorem choose (p : Spot) (condition : Value) (thenBranch : Stmt Place)
    (elseBranch : Option (Stmt Place)) (le : bound ≤ w.machine.current.frame) :
    Passing bound w (Watched.choose t p condition thenBranch elseBranch) := by
  cases elseBranch with
  | none => exact ite (h.exec p thenBranch le) (pure _)
  | some other => exact ite (h.exec p thenBranch le) (h.exec p other le)

/-- A statement that is no declaration of a function, behind the moment at which it begins. -/
theorem execWith (n : Nat) (p : Spot) {s : Stmt Place}
    (other : ∀ d, s ≠ .function d) (le : bound ≤ w.machine.current.frame)
    (began : ∃ earlier, w.moments = ⟨.execute s, p, w.machine⟩ :: earlier) :
    Passing bound w (Watched.execWith n t p s) := by
  have unclaimed {name : String} (declared : s.declared? = some name) :
      Unclaimed w.moments w.machine.current.frame name := by
    obtain ⟨earlier, began⟩ := began
    rw [began]
    exact .cons_self (by simp [Moment.binds, declared]) (Moment.function?_of_execute other)
  cases s with
  | expression value => exact (h.eval p value).bind fun _ _ _ => pure _
  | print value =>
    apply (h.eval p value).bind
    intro v _ _
    exact (plain (.write _)).bind fun _ _ _ => pure _
  | declare name initializer =>
    -- what the initializer runs is in scopes that come after this one
    apply widen
    intro active
    apply (eval? h _ initializer).bind
    intro v w₁ passes
    apply define_bind
    · rw [passes.current]
      exact passes.unclaimed active (unclaimed rfl)
    · exact fun _ _ _ => pure _
  | block body =>
    apply current_bind
    apply newFrame_bind
    intro e w' _ le lt
    exact execIn h _ body le lt
  | conditional condition thenBranch elseBranch =>
    apply (h.eval p condition).bind
    intro v _ passes
    exact choose h p v thenBranch elseBranch (passes.within le)
  | loop condition body => exact loop h p n condition body le
  | function d => exact absurd rfl (other d)
  | ret line value => exact (eval? h p value).bind fun _ _ _ => pure _
  | classDecl name superclass methods =>
    apply widen
    intro active
    apply (declareClass p name superclass methods active (unclaimed rfl)).bind
    exact fun _ _ _ => pure _

omit h

/-- A function is declared. -/
theorem function (n : Nat) (p : Spot) (d : FunctionDecl Place)
    (le : bound ≤ w.machine.current.frame) :
    Passing bound w (do
      Watched.note p (.execute (.function d))
      Watched.execWith n t p (.function d)) := by
  intro recalls _
  let m : Moment := ⟨.execute (.function d), p, w.machine⟩
  let v : Value :=
    .callable (.function w.machine.store.nextObject ⟨d, w.machine.current, false⟩)
  let s := w.machine.store.takeObject
  let id := w.machine.current.frame
  have size : (s.setVariable id d.name.text v).frames.size = w.machine.store.frames.size :=
    Store.size_setVariable s id d.name.text v
  have remembers : (s.setVariable id d.name.text v).Remembers (m :: w.moments) :=
    Store.Remembers.declare (s := s) recalls.store recalls.active rfl rfl
  constructor
  · exact ⟨Nat.lt_of_lt_of_eq recalls.active size.symm, remembers, recalls.store, recalls.moments⟩
  · rfl
  · exact Nat.le_of_eq size.symm
  · intro other x here
    have still : (s.frame other).contains x = true := here
    exact (Store.contains_setVariable s id d.name.text v other x).trans (by simp [still])
  · refine ⟨[m], rfl, fun m' mem s' event => ?_⟩
    cases List.mem_singleton.1 mem
    exact le

end Passing

/-- **With any fuel, functions stay where they were declared until their variables are bound
again.** -/
theorem watcher_recalls (n : Nat) : (watcher n).Recalls := by
  induction n with
  | zero => exact ⟨fun _ _ => .plain .outOfFuel, fun _ _ _ => .plain .outOfFuel⟩
  | succ n ih =>
    constructor
    · intro bound w p e
      apply (Passing.note p (.evaluate e) rfl fun s same => by cases same).bind
      intro _ _ _
      exact Passing.evalWith ih p e
    · intro bound w p s le
      by_cases declares : ∃ d, s = .function d
      · obtain ⟨d, rfl⟩ := declares
        exact Passing.function n p d le
      · intro recalls bounded
        have other : ∀ d, s ≠ .function d := fun d same => declares ⟨d, same⟩
        let w' : Watch := { w with moments := ⟨.execute s, p, w.machine⟩ :: w.moments }
        have noted : w.Passes bound w' :=
          .note recalls p (.execute s) (Moment.function?_of_execute other) fun _ _ => le
        have runs : Passing bound w' (Watched.execWith n (watcher n) p s) :=
          Passing.execWith ih n p other le ⟨w.moments, rfl⟩
        exact noted.trans (runs noted.recalls bounded)

/-- The statements of a program. -/
theorem Passing.program {t : Watcher} (h : t.Recalls) (p : Spot) (ss : List (Stmt Place)) :
    Passing 0 w (Watched.program t p ss) := by
  induction ss generalizing w p with
  | nil => exact pure ()
  | cons s ss ih =>
    apply (h.exec p s (Nat.zero_le _)).bind
    intro completion _ _
    cases completion with
    | normal => exact ih _
    | returned v => exact plain (.fault _)

end Lox
