import Lox.Proofs.History.Agreement
import Lox.Proofs.Run.Activation

/-!
# Calls are fully supplied

`Supplies t` says of a part `t` of a chronicled run, of whatever program: each body that it enters has
as many arguments as parameters, and each call that it makes is that of a call expression whose callee
and arguments have just been evaluated. A call with another number of arguments is the last thing
that happens, and leaves the machine as it found it. There is one lemma for each definition of a
chronicled run, and `chronicler_supplies` puts them together.
-/

namespace Lox

/-! ## Parameters -/

/-- A function has been given as many arguments as it has parameters, and its body begins in a scope
that binds each parameter to its own argument; of parameters with one name the last one counts. -/
structure Closure.Supplied (f : Closure) (arguments : List Value) (m : Machine) : Prop where
  count : arguments.length = f.declaration.params.length
  binds : ∀ {before x after}, f.declaration.params = before ++ x :: after →
    (∀ y ∈ after, y.text ≠ x.text) → ∃ v, arguments[before.length]? = some v ∧
      (f.entered arguments m).store.getAt (f.entered arguments m).current 0 x.text = .ok v
  only : ∀ {name}, ((f.entered arguments m).store.frame
      (f.entered arguments m).current.frame).contains name = true →
    ∃ x ∈ f.declaration.params, x.text = name

theorem Run.parameters_get? {before after : List Name} {x : Name} {arguments : List Value}
    (count : arguments.length = (before ++ x :: after).length)
    (others : ∀ y ∈ after, y.text ≠ x.text) :
    ∃ v, arguments[before.length]? = some v ∧
      (parameters (before ++ x :: after) arguments).get? x.text = some v := by
  have lt : before.length < arguments.length := by
    rw [count]
    simp
  have split : arguments = arguments.take before.length ++
      arguments[before.length] :: arguments.drop (before.length + 1) := by
    rw [← List.drop_eq_getElem_cons lt, List.take_append_drop]
  refine ⟨arguments[before.length], List.getElem?_eq_getElem lt, ?_⟩
  have zipped : ((before ++ x :: after).map Name.text).zip arguments =
      (before.map Name.text).zip (arguments.take before.length) ++
        (x.text, arguments[before.length]) ::
          (after.map Name.text).zip (arguments.drop (before.length + 1)) := by
    conv => lhs; rw [split]
    rw [List.map_append, List.map_cons, List.zip_append, List.zip_cons_cons]
    rw [List.length_map, List.length_take, Nat.min_eq_left (Nat.le_of_lt lt)]
  rw [parameters, zipped]
  apply Bindings.get?_ofList_last
  rintro ⟨name, v⟩ mem
  obtain ⟨y, isParam, rfl⟩ := List.mem_map.1 (List.of_mem_zip mem).1
  exact others y isParam

theorem Closure.supplied_of_count {f : Closure} {arguments : List Value}
    (count : arguments.length = f.arity) (m : Machine) : f.Supplied arguments m := by
  have frame : (f.entered arguments m).store.frame (f.entered arguments m).current.frame =
      Run.parameters f.declaration.params arguments :=
    Store.frame_pushFrame_self m.store _
  refine ⟨count, fun {before x after} split others => ?_, fun {name} bound => ?_⟩
  · have count : arguments.length = (before ++ x :: after).length := count.trans (by rw [← split]; rfl)
    obtain ⟨v, given, found⟩ := Run.parameters_get? count others
    rw [← split] at found
    exact ⟨v, given, Store.getAt_of_get? rfl (by rw [frame]; exact found)⟩
  · rw [frame, Run.parameters, Bindings.contains_ofList, decide_eq_true_eq] at bound
    obtain ⟨⟨key, v⟩, mem, rfl⟩ := List.mem_map.1 bound
    exact List.mem_map.1 (List.of_mem_zip mem).1

/-! ## Happenings -/

/-- What holds of a call that is made and of a body that is entered. -/
def Happening.Supplied (h : Happening) (earlier : List Happening) : Prop :=
  match h.deed with
  | .enters f arguments => f.Supplied arguments h.machine
  | .calls callee arguments line => ∃ n e es m m',
    ⟨.reaches (.expression (.call e line es)), m⟩ ∈ earlier ∧
      (evaluator n).eval e m = .ok callee m' ∧
        Run.evalAll (evaluator n) es m' = .ok arguments h.machine
  | .reaches _ | .makes _ | .binds .. | .reads .. | .stores .. | .declares .. => True

/-- A call with another number of arguments than the callee has parameters. -/
def Happening.Miscounts (h : Happening) : Prop :=
  ∃ c arguments line, h.deed = .calls (.callable c) arguments line ∧ arguments.length ≠ c.arity

def AllSupplied : List Happening → Prop
  | [] => True
  | h :: earlier => h.Supplied earlier ∧ AllSupplied earlier

theorem AllSupplied.of_split {past later earlier : List Happening} {h : Happening}
    (supplied : AllSupplied past) (split : past = later ++ h :: earlier) : h.Supplied earlier := by
  subst split
  induction later with
  | nil => exact supplied.1
  | cons first later ih => exact ih supplied.2

namespace Chronicle

/-- More has happened, and no call has had the wrong number of arguments. -/
structure Grows (w w' : Chronicle) : Prop where
  supplied : AllSupplied w'.past
  since : ∃ new, w'.past = new ++ w.past ∧ ∀ h ∈ new, ¬h.Miscounts

/-- The run has gone on, and the scope is active that was active before. -/
structure GoesOn (w w' : Chronicle) : Prop extends w.Grows w' where
  current : w'.machine.current = w.machine.current

/-- The run has gone on up to a call with the wrong number of arguments, and has stopped for that. The
machine is that before the call, with the scope active that was active at first. -/
def Refuses (w : Chronicle) (stop : Stop) (w' : Chronicle) : Prop :=
  ∃ c arguments line m new,
    w'.past = ⟨.calls (.callable c) arguments line, m⟩ :: (new ++ w.past) ∧
      AllSupplied w'.past ∧ (∀ h ∈ new, ¬h.Miscounts) ∧ arguments.length ≠ c.arity ∧
        stop = .fault (.runtime (.argumentCount c.arity arguments.length) line) ∧
          w'.machine = m.inScope w.machine.current

variable {w w' w'' : Chronicle} {stop : Stop}

theorem Grows.trans (first : w.Grows w') (second : w'.Grows w'') : w.Grows w'' := by
  obtain ⟨new, split, counts⟩ := first.since
  obtain ⟨new', split', counts'⟩ := second.since
  refine ⟨second.supplied, new' ++ new, ?_, List.forall_mem_append.2 ⟨counts', counts⟩⟩
  rw [split', split, List.append_assoc]

theorem GoesOn.refl (supplied : AllSupplied w.past) : w.GoesOn w :=
  ⟨⟨supplied, [], rfl, nofun⟩, rfl⟩

theorem GoesOn.trans (first : w.GoesOn w') (second : w'.GoesOn w'') : w.GoesOn w'' :=
  ⟨first.toGrows.trans second.toGrows, second.current.trans first.current⟩

theorem Grows.suffix (h : w.Grows w') : w.past <:+ w'.past := by
  obtain ⟨new, split, -⟩ := h.since
  exact ⟨new, split.symm⟩

theorem GoesOn.refuses (first : w.GoesOn w') (second : w'.Refuses stop w'') :
    w.Refuses stop w'' := by
  obtain ⟨new, split, counts⟩ := first.since
  obtain ⟨c, arguments, line, m, new', past, supplied, counts', wrong, stops, machine⟩ := second
  rw [split, ← List.append_assoc] at past
  rw [first.current] at machine
  exact ⟨c, arguments, line, m, new' ++ new, past, supplied,
    List.forall_mem_append.2 ⟨counts', counts⟩, wrong, stops, machine⟩

end Chronicle

/-! ## Parts of a run -/

/-- All calls of the part of a run are fully supplied, if those before are. -/
def Supplies {α : Type} (w : Chronicle) (t : Chronicled α) : Prop :=
  AllSupplied w.past →
    match t w with
    | .ok _ w' => w.GoesOn w'
    | .error stop w' => w.Grows w' ∨ w.Refuses stop w'

/-- All calls of each part of a program are fully supplied. -/
structure Chronicler.Supplies (t : Chronicler) : Prop where
  eval : ∀ w e, Lox.Supplies w (t.eval e)
  exec : ∀ w s, Lox.Supplies w (t.exec s)

theorem Chronicled.Tells.ok {α : Type} {t : Chronicled α} {r : Run α} (tells : t.Tells r)
    {w w' : Chronicle} {a : α} (ended : t w = .ok a w') : r w.machine = .ok a w'.machine := by
  have same := tells w
  rw [ended] at same
  exact same.symm

variable {w : Chronicle}

namespace Supplies

variable {α β : Type}

theorem pure (a : α) : Supplies w (Pure.pure a) := fun supplied => .refl supplied

theorem bind {t : Chronicled α} {f : α → Chronicled β} (first : Supplies w t)
    (next : ∀ a w', t w = .ok a w' → w.GoesOn w' → Supplies w' (f a)) :
    Supplies w (t >>= f) := by
  intro supplied
  have first := first supplied
  simp only [Bind.bind, EStateM.bind]
  cases result : t w with
  | error stop w' =>
    rw [result] at first
    exact first
  | ok a w' =>
    rw [result] at first
    have second := next a w' result first first.supplied
    dsimp only
    cases result' : f a w' with
    | ok b w'' =>
      rw [result'] at second
      exact first.trans second
    | error stop w'' =>
      rw [result'] at second
      exact second.imp first.toGrows.trans first.refuses

/-- What follows another part, whatever that gives. -/
theorem andThen {t : Chronicled α} {f : α → Chronicled β} (first : Supplies w t)
    (next : ∀ a w', Supplies w' (f a)) : Supplies w (t >>= f) :=
  first.bind fun a w' _ _ => next a w'

theorem withEnvironment (e : Environment) {t : Chronicled α} (inner : ∀ w, Supplies w t) :
    Supplies w (Chronicled.withEnvironment e t) := by
  intro supplied
  have result := inner { w with machine := { w.machine with current := e } } supplied
  unfold Chronicled.withEnvironment
  dsimp only
  cases ended : t { w with machine := { w.machine with current := e } } with
  | ok a w' =>
    rw [ended] at result
    exact ⟨⟨result.supplied, result.since⟩, rfl⟩
  | error stop w' =>
    rw [ended] at result
    rcases result with grows | ⟨c, arguments, line, m, new, past, all, counts, wrong, stops, same⟩
    · exact .inl ⟨grows.supplied, grows.since⟩
    · refine .inr ⟨c, arguments, line, m, new, past, all, counts, wrong, stops, ?_⟩
      rw [same]
      rfl

/-- A step that is not written down. -/
theorem plain {act : Run α} (kept : Run.Preserves Machine.current act) :
    Supplies w (Chronicled.plain act) := by
  intro supplied
  have current := kept w.machine
  unfold Chronicled.plain
  cases result : act w.machine with
  | ok a m =>
    rw [result] at current
    exact ⟨⟨supplied, [], rfl, nofun⟩, current⟩
  | error stop m => exact .inl ⟨supplied, [], rfl, nofun⟩

/-- A step that is written down. -/
theorem deed {t : Chronicled α} {deed : Deed} {a : α} {m : Machine}
    (result : t w = .ok a ⟨m, ⟨deed, w.machine⟩ :: w.past⟩)
    (current : m.current = w.machine.current)
    (supplied : Happening.Supplied ⟨deed, w.machine⟩ w.past)
    (counts : ¬Happening.Miscounts ⟨deed, w.machine⟩) : Supplies w t := by
  intro before
  rw [result]
  exact ⟨⟨⟨supplied, before⟩, [⟨deed, w.machine⟩], rfl, by simpa using counts⟩, current⟩

theorem note (deed : Deed) (supplied : Happening.Supplied ⟨deed, w.machine⟩ w.past)
    (counts : ¬Happening.Miscounts ⟨deed, w.machine⟩) : Supplies w (Chronicled.note deed) :=
  Supplies.deed rfl rfl supplied counts

theorem newInstance (c : Class) : Supplies w (Chronicled.newInstance c) :=
  Supplies.deed rfl rfl trivial (by rintro ⟨_, _, _, ⟨⟩, -⟩)

theorem bindMethod (method : Closure) (i : Instance) :
    Supplies w (Chronicled.bindMethod method i) :=
  Supplies.deed rfl rfl trivial (by rintro ⟨_, _, _, ⟨⟩, -⟩)

theorem setField (i : Instance) (property : String) (v : Value) :
    Supplies w (Chronicled.setField i property v) :=
  Supplies.deed rfl rfl trivial (by rintro ⟨_, _, _, ⟨⟩, -⟩)

theorem newClass (name : String) (superclass : Option Class) (methods : List (FunctionDecl Place)) :
    Supplies w (Chronicled.newClass name superclass methods) :=
  Supplies.deed rfl rfl trivial (by rintro ⟨_, _, _, ⟨⟩, -⟩)

/-! ## Methods and properties -/

open Run (current_uniform)

theorem methodOf (c : Class) (i : Instance) (name : Name) :
    Supplies w (Chronicled.methodOf c i name) := by
  unfold Chronicled.methodOf
  cases c.findMethod? name.text with
  | none => exact plain (current_uniform.fault _)
  | some method =>
    exact (bindMethod method i).andThen fun bound _ => plain (current_uniform.newFunction bound)

theorem getProperty (object : Value) (name : Name) :
    Supplies w (Chronicled.getProperty object name) := by
  cases object with
  | ofInstance i =>
    apply (note (.reads i name) trivial (by rintro ⟨_, _, _, ⟨⟩, -⟩)).andThen
    intro _ w
    apply (plain (.read _)).andThen
    intro field w
    cases field with
    | some value => exact pure value
    | none => exact methodOf i.ofClass i name
  | nil | boolean | number | string | callable =>
    exact plain (current_uniform.fault (.runtime .propertyOfOther name.line))

theorem superMethod (place : Place) (method : Name) :
    Supplies w (Chronicled.superMethod place method) := by
  cases place with
  | global => exact plain (current_uniform.fault (.mismatch .superUnresolved))
  | scope hops =>
    exact (plain (current_uniform.superAt hops)).andThen fun found _ =>
      methodOf found.1 found.2 method

theorem declareClass (name : Name) (superclass : Option (Reference Place))
    (methods : List (FunctionDecl Place)) :
    Supplies w (Chronicled.declareClass name superclass methods) := by
  apply (plain (current_uniform.define _ _)).andThen
  intro _ w
  apply (plain (current_uniform.readSuperclass superclass)).andThen
  intro parent w
  apply (plain (current_uniform.methodEnvironment parent)).andThen
  intro e w
  apply (withEnvironment e fun _ => newClass name.text parent methods).andThen
  intro made w
  exact (plain current_uniform.current).andThen fun e w => plain (current_uniform.assign e name _)

/-! ## Calls -/

variable {t : Chronicler} (h : t.Supplies)
include h

theorem evalAll (es : List (Expr Place)) : Supplies w (Chronicled.evalAll t es) := by
  induction es generalizing w with
  | nil => exact pure []
  | cons e es ih =>
    exact (h.eval w e).andThen fun v w => ih.andThen fun vs w => pure (v :: vs)

theorem execAll (ss : List (Stmt Place)) : Supplies w (Chronicled.execAll t ss) := by
  induction ss generalizing w with
  | nil => exact pure _
  | cons s ss ih =>
    apply (h.exec w s).andThen
    intro completion w
    cases completion with
    | normal => exact ih
    | returned v => exact pure _

theorem callClosure {f : Closure} {arguments : List Value} (count : arguments.length = f.arity) :
    Supplies w (Chronicled.callClosure t f arguments) := by
  apply (note (.enters f arguments) (Closure.supplied_of_count count w.machine)
    (by rintro ⟨_, _, _, ⟨⟩, -⟩)).andThen
  intro _ w
  apply (plain (current_uniform.newFrame _ _)).andThen
  intro e w
  apply (withEnvironment e fun w => execAll h f.declaration.body).andThen
  intro completion w
  cases f.isInitializer with
  | true => exact plain (.read _)
  | false => exact pure _

theorem instantiate {c : Class} {arguments : List Value} (count : arguments.length = c.arity) :
    Supplies w (Chronicled.instantiate t c arguments) := by
  apply (newInstance c).andThen
  intro i w
  cases found : c.findMethod? initializerName with
  | none => exact pure _
  | some method =>
    -- the number has been checked against the method that is found here again
    have count : arguments.length = method.arity := by rw [count, Class.arity, found]
    apply (bindMethod method i).bind
    intro bound w' ended _
    have same : bound.arity = method.arity := by
      cases ended
      rfl
    exact (callClosure h (count.trans same.symm)).andThen fun _ _ => pure _

/-- A call of a program is made, or refused for the number of its arguments. -/
theorem callValue {callee : Value} {arguments : List Value} {line : Nat}
    (made : Happening.Supplied ⟨.calls callee arguments line, w.machine⟩ w.past) :
    Supplies w (Chronicled.callValue t callee arguments line) := by
  cases callee with
  | callable c =>
    by_cases count : arguments.length = c.arity
    · apply (note _ made (by rintro ⟨_, _, _, ⟨⟩, wrong⟩; exact wrong count)).andThen
      intro _ w
      simp only [count, if_true]
      cases c with
      | native f =>
        cases f with
        | clock => exact plain (current_uniform.bind current_uniform.readClock fun _ => .pure _)
      | function id f => exact callClosure h count
      | ofClass c => exact instantiate h count
    · intro supplied
      have result : Chronicled.callValue t (.callable c) arguments line w =
          .error (.fault (.runtime (.argumentCount c.arity arguments.length) line))
            { w with past := ⟨.calls (.callable c) arguments line, w.machine⟩ :: w.past } := by
        simp only [Chronicled.callValue, Bind.bind, EStateM.bind, Chronicled.note, if_neg count]
        rfl
      rw [result]
      exact .inr ⟨c, arguments, line, w.machine, [], rfl, ⟨made, supplied⟩, nofun, count, rfl, rfl⟩
  | nil | boolean | number | string | ofInstance =>
    exact (note _ made (by rintro ⟨_, _, _, ⟨⟩, -⟩)).andThen fun _ _ =>
      plain (current_uniform.fault (.runtime .notCallable line))

/-! ## Expressions and statements -/

theorem setProperty (object : Value) (name : Name) (value : Expr Place) :
    Supplies w (Chronicled.setProperty t object name value) := by
  cases object with
  | ofInstance i =>
    exact (h.eval w value).andThen fun v w => (setField i name.text v).andThen fun _ _ => pure _
  | nil | boolean | number | string | callable =>
    exact plain (current_uniform.fault (.runtime .fieldOfOther name.line))

/-- An expression that the run has just reached. -/
theorem evalWith {n : Nat} (tells : t.Tells (evaluator n)) {e : Expr Place}
    (reached : ⟨.reaches (.expression e), w.machine⟩ ∈ w.past) :
    Supplies w (Chronicled.evalWith t e) := by
  cases e with
  | literal value => exact pure _
  | grouping inner => exact h.eval w inner
  | unary op line operand =>
    exact (h.eval w operand).andThen fun v w => plain (current_uniform.liftCause line _)
  | binary op line left right =>
    exact (h.eval w left).andThen fun a w => (h.eval w right).andThen fun b w =>
      plain (current_uniform.liftCause line _)
  | logical op left right =>
    apply (h.eval w left).andThen
    intro v w
    split
    · exact pure v
    · exact h.eval w right
  | «variable» target => exact plain (current_uniform.readVariable target.mark target.name)
  | assign target value =>
    exact (h.eval w value).andThen fun v w =>
      (plain (current_uniform.assignVariable target.mark target.name v)).andThen fun _ _ => pure v
  | call callee line arguments =>
    apply (h.eval w callee).bind
    intro f w₁ first on₁
    apply (evalAll h arguments).bind
    intro vs w₂ second on₂
    apply callValue h
    have mem := on₂.suffix.subset (on₁.suffix.subset reached)
    exact ⟨n, callee, arguments, w.machine, w₁.machine, mem, (tells.eval callee).ok first,
      (Chronicled.Tells.evalAll tells arguments).ok second⟩
  | get object property => exact (h.eval w object).andThen fun v w => getProperty v property
  | set object property value =>
    exact (h.eval w object).andThen fun v w => setProperty h v property value
  | this line mark => exact plain (current_uniform.readVariable mark ⟨thisName, line⟩)
  | super line mark method => exact superMethod mark method

theorem eval? (value : Option (Expr Place)) : Supplies w (Chronicled.eval? t value) := by
  cases value with
  | none => exact pure _
  | some e => exact h.eval w e

theorem loop (n : Nat) (condition : Expr Place) (body : Stmt Place) :
    Supplies w (Chronicled.loop t n condition body) := by
  induction n generalizing w with
  | zero => exact plain current_uniform.outOfFuel
  | succ n ih =>
    apply (h.eval w condition).andThen
    intro holds w
    split
    · apply (h.exec w body).andThen
      intro completion w
      cases completion with
      | normal => exact ih
      | returned v => exact pure _
    · exact pure _

theorem choose (condition : Value) (thenBranch : Stmt Place) (elseBranch : Option (Stmt Place)) :
    Supplies w (Chronicled.choose t condition thenBranch elseBranch) := by
  cases elseBranch with
  | none =>
    unfold Chronicled.choose
    dsimp only
    split
    · exact h.exec w thenBranch
    · exact pure _
  | some other =>
    unfold Chronicled.choose
    dsimp only
    split
    · exact h.exec w thenBranch
    · exact h.exec w other

theorem execWith (n : Nat) (s : Stmt Place) : Supplies w (Chronicled.execWith n t s) := by
  cases s with
  | expression value => exact (h.eval w value).andThen fun _ _ => pure _
  | print value =>
    exact (h.eval w value).andThen fun v w =>
      (plain (current_uniform.write _)).andThen fun _ _ => pure _
  | declare name initializer =>
    exact (eval? h initializer).andThen fun v w =>
      (plain (current_uniform.define name.text v)).andThen fun _ _ => pure _
  | block body =>
    apply (plain (current_uniform.bind current_uniform.current fun e =>
      current_uniform.newFrame e _)).andThen
    intro e w
    exact withEnvironment e fun w => execAll h body
  | conditional condition thenBranch elseBranch =>
    exact (h.eval w condition).andThen fun v w => choose h v thenBranch elseBranch
  | loop condition body => exact loop h n condition body
  | function declaration =>
    apply (plain (current_uniform.bind current_uniform.current fun e =>
      current_uniform.bind (current_uniform.newFunction _) fun f =>
        current_uniform.define declaration.name.text f)).andThen
    intro _ w
    exact pure _
  | ret line value => exact (eval? h value).andThen fun v w => pure _
  | classDecl name superclass methods =>
    exact (declareClass name superclass methods).andThen fun _ _ => pure _

theorem program (ss : List (Stmt Place)) : Supplies w (Chronicled.program t ss) := by
  induction ss generalizing w with
  | nil => exact pure ()
  | cons s ss ih =>
    apply (h.exec w s).andThen
    intro completion w
    cases completion with
    | normal => exact ih
    | returned v => exact plain (current_uniform.fault (.mismatch .returnAtTopLevel))

end Supplies

/-- **With any fuel, all calls of all parts of programs are fully supplied.** -/
theorem chronicler_supplies (n : Nat) : (chronicler n).Supplies := by
  induction n with
  | zero =>
    exact ⟨fun _ _ => .plain Run.current_uniform.outOfFuel,
      fun _ _ => .plain Run.current_uniform.outOfFuel⟩
  | succ n ih =>
    constructor
    · intro w e
      apply (Supplies.note (.reaches (.expression e)) trivial (by rintro ⟨_, _, _, ⟨⟩, -⟩)).bind
      intro _ w' ended _
      cases ended
      exact Supplies.evalWith ih (chronicler_tells n) List.mem_cons_self
    · intro w s
      exact (Supplies.note (.reaches (.statement s)) trivial (by rintro ⟨_, _, _, ⟨⟩, -⟩)).andThen
        fun _ w => Supplies.execWith ih n s

end Lox
