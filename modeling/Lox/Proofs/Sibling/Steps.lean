import Lox.Proofs.Run.Keeps
import Lox.Proofs.Run.Preserved
import Lox.Proofs.Scope.Declarations

/-!
# What a record tells of variables

The record of a watched run has the moments at which a variable is bound: a declaration of its name
in its scope, or an assignment to it. `Store.Remembers` says that a variable has the function that
was declared when it was last bound, if a function was. A declaration with an initializer binds its
variable only behind the initializer, which may run any number of calls; but these run in scopes
that are new, so the declaration is still the last moment that binds the variable
(`Watch.Passes.unclaimed`).
-/

namespace Lox

/-! ## Moments that bind a variable -/

/-- The scope in which a reference with this place finds its variable. -/
def Environment.scopeAt? (e : Environment) : Place → Option FrameId
  | .scope hops => e.path[hops]?
  | .global => some Environment.globals.frame

namespace Moment

/-- The variable of this name in the scope is about to be declared, or assigned to. -/
def binds (m : Moment) (id : FrameId) (name : String) : Bool :=
  match m.event with
  | .execute s => m.machine.current.frame = id && s.declared? = some name
  | .store target => m.machine.current.scopeAt? target.mark = some id && target.name.text = name
  | .evaluate _ | .superclass _ => false

/-- The function that is declared at the moment. -/
def function? (m : Moment) : Option Value :=
  match m.event with
  | .execute (.function d) =>
    some (.callable (.function m.machine.store.nextObject ⟨d, m.machine.current, false⟩))
  | .evaluate _ | .execute _ | .store _ | .superclass _ => none

theorem function?_eq_some {m : Moment} {v : Value} (h : m.function? = some v) :
    ∃ d, m.event = .execute (.function d) ∧
      v = .callable (.function m.machine.store.nextObject ⟨d, m.machine.current, false⟩) := by
  unfold function? at h
  split at h
  · next d isFunction => exact ⟨d, isFunction, (Option.some.inj h).symm⟩
  all_goals cases h

theorem function?_of_execute {s : Stmt Place} {p : Spot} {machine : Machine}
    (other : ∀ d, s ≠ .function d) : (Moment.mk (.execute s) p machine).function? = none := by
  cases s with
  | function d => exact absurd rfl (other d)
  | expression | print | declare | block | conditional | loop | ret | classDecl => rfl

/-- A function is declared in the scope that is active. -/
theorem frame_of_function {m : Moment} {v : Value} {id : FrameId} {name : String}
    (function : m.function? = some v) (binds : m.binds id name = true) :
    m.machine.current.frame = id := by
  obtain ⟨d, event, -⟩ := function?_eq_some function
  simp only [Moment.binds, event, Bool.and_eq_true, decide_eq_true_eq] at binds
  exact binds.1

end Moment

/-- The last one of the moments that binds the variable. -/
def lastBinding (moments : List Moment) (id : FrameId) (name : String) : Option Moment :=
  moments.find? (·.binds id name)

/-- The variable was last bound to something else than a function that was declared. -/
def Unclaimed (moments : List Moment) (id : FrameId) (name : String) : Prop :=
  ∀ g, lastBinding moments id name = some g → g.function? = none

theorem binds_of_lastBinding {moments : List Moment} {id : FrameId} {name : String} {g : Moment}
    (last : lastBinding moments id name = some g) : g.binds id name = true :=
  List.find?_some (p := fun m : Moment => m.binds id name) last

theorem lastBinding_cons_self {m : Moment} {moments : List Moment} {id : FrameId} {name : String}
    (binds : m.binds id name = true) : lastBinding (m :: moments) id name = some m :=
  List.find?_cons_of_pos binds

/-- Moments that do not bind the variable do not count. -/
theorem lastBinding_append {since before : List Moment} {id : FrameId} {name : String}
    (unbound : ∀ m ∈ since, m.binds id name = false) :
    lastBinding (since ++ before) id name = lastBinding before id name := by
  have none : lastBinding since id name = none := by
    apply List.find?_eq_none.2
    intro m mem
    rw [unbound m mem]
    exact Bool.false_ne_true
  rw [lastBinding, List.find?_append, ← lastBinding, none]
  rfl

theorem Unclaimed.cons_self {m : Moment} {moments : List Moment} {id : FrameId} {name : String}
    (binds : m.binds id name = true) (other : m.function? = none) :
    Unclaimed (m :: moments) id name := by
  intro g last
  rw [lastBinding_cons_self binds] at last
  cases last
  exact other

/-! ## Stores that remember -/

/-- A variable that was last bound to a function that was declared has this function. -/
def Store.Remembers (s : Store) (moments : List Moment) : Prop :=
  ∀ id name g v, lastBinding moments id name = some g → g.function? = some v →
    (s.frame id).get? name = some v

/-- At each moment the store remembers the moments before. -/
def AllRemembered : List Moment → Prop
  | [] => True
  | m :: earlier => m.machine.store.Remembers earlier ∧ AllRemembered earlier

namespace Store.Remembers

variable {s s' : Store} {moments : List Moment} {m : Moment} {id : FrameId} {name : String}
  {v : Value}

/-- Nothing is forgotten where no variable changes. -/
theorem mono (h : s.Remembers moments)
    (kept : ∀ id name v, (s.frame id).get? name = some v → (s'.frame id).get? name = some v) :
    s'.Remembers moments :=
  fun id name g v last function => kept id name v (h id name g v last function)

/-- A moment changes nothing yet. -/
theorem cons (h : s.Remembers moments) (other : m.function? = none) :
    s.Remembers (m :: moments) := by
  intro id name g v last function
  rw [lastBinding, List.find?_cons] at last
  split at last
  · cases last
    rw [other] at function
    cases function
  · exact h id name g v last function

/-- A variable that has no function to remember may be set. -/
theorem setVariable (h : s.Remembers moments) (unclaimed : Unclaimed moments id name) :
    (s.setVariable id name v).Remembers moments := by
  intro other x g value last function
  rw [Store.get?_setVariable]
  split
  · next here =>
    obtain ⟨⟨rfl, -⟩, rfl⟩ := here
    rw [unclaimed g last] at function
    cases function
  · exact h other x g value last function

/-- A function that is declared is remembered. -/
theorem declare (h : s.Remembers moments) (lt : m.machine.current.frame < s.frames.size)
    {d : FunctionDecl Place} (event : m.event = .execute (.function d))
    (function : m.function? = some v) :
    (s.setVariable m.machine.current.frame d.name.text v).Remembers (m :: moments) := by
  intro other x g value last isFunction
  rw [Store.get?_setVariable]
  have binds : m.binds other x =
      (decide (m.machine.current.frame = other) && decide (some d.name.text = some x)) := by
    obtain ⟨_, _, _⟩ := d
    simp only [Moment.binds, event]
    rfl
  by_cases here : m.machine.current.frame = other ∧ d.name.text = x
  · obtain ⟨rfl, rfl⟩ := here
    rw [lastBinding_cons_self (by simp [binds])] at last
    cases last
    rw [if_pos ⟨⟨rfl, lt⟩, rfl⟩]
    exact function.symm.trans isFunction
  · have elsewhere : m.binds other x = false := by
      rw [binds]
      simpa using here
    rw [lastBinding, List.find?_cons_of_neg (by simp [elsewhere])] at last
    rw [if_neg fun same => here ⟨same.1.1.symm, same.2.symm⟩]
    exact h other x g value last isFunction

end Store.Remembers

/-! ## Parts of a run -/

/-- What holds all along a watched run. -/
structure Watch.Recalls (w : Watch) : Prop where
  active : w.machine.current.frame < w.machine.store.frames.size
  store : w.machine.store.Remembers w.moments
  moments : AllRemembered w.moments

/-- The watch recalls again, and the scope that was active is active again. No statement has begun
in a scope before the one with the number `bound`. -/
structure Watch.Passes (bound : FrameId) (w w' : Watch) : Prop where
  recalls : w'.Recalls
  current : w'.machine.current = w.machine.current
  frames : w.machine.store.frames.size ≤ w'.machine.store.frames.size
  names : ∀ id name, (w.machine.store.frame id).contains name = true →
    (w'.machine.store.frame id).contains name = true
  record : ∃ new, w'.moments = new ++ w.moments ∧
    ∀ m ∈ new, ∀ s, m.event = .execute s → bound ≤ m.machine.current.frame

variable {bound : FrameId} {w w' w'' : Watch}

namespace Watch.Passes

theorem refl (recalls : w.Recalls) : w.Passes bound w :=
  ⟨recalls, rfl, Nat.le_refl _, fun _ _ h => h, [], rfl, fun _ mem => by cases mem⟩

theorem trans (first : w.Passes bound w') (second : w'.Passes bound w'') :
    w.Passes bound w'' where
  recalls := second.recalls
  current := second.current.trans first.current
  frames := Nat.le_trans first.frames second.frames
  names id name h := second.names id name (first.names id name h)
  record := by
    obtain ⟨new₁, same₁, later₁⟩ := first.record
    obtain ⟨new₂, same₂, later₂⟩ := second.record
    refine ⟨new₂ ++ new₁, by rw [same₂, same₁, List.append_assoc], fun m mem => ?_⟩
    rcases List.mem_append.1 mem with mem | mem
    · exact later₂ m mem
    · exact later₁ m mem

/-- Fewer scopes may be excluded. -/
theorem widen {lower : FrameId} (h : w.Passes bound w') (le : lower ≤ bound) :
    w.Passes lower w' := by
  obtain ⟨new, same, later⟩ := h.record
  exact { h with record := ⟨new, same, fun m mem s event => Nat.le_trans le (later m mem s event)⟩ }

/-- What runs in new scopes declares no function in one that was there. -/
theorem unclaimed (h : w.Passes bound w') {id : FrameId} {name : String} (lt : id < bound)
    (unclaimed : Unclaimed w.moments id name) : Unclaimed w'.moments id name := by
  obtain ⟨new, same, later⟩ := h.record
  intro g last
  rw [same, lastBinding, List.find?_append] at last
  cases found : lastBinding new id name with
  | none =>
    rw [← lastBinding, found] at last
    exact unclaimed g last
  | some g' =>
    rw [← lastBinding, found] at last
    cases last
    cases function : g.function? with
    | none => rfl
    | some v =>
      obtain ⟨d, event, -⟩ := Moment.function?_eq_some function
      have le := later g (List.mem_of_find?_eq_some found) _ event
      rw [Moment.frame_of_function function (binds_of_lastBinding found)] at le
      exact absurd le (Nat.not_le_of_lt lt)

end Watch.Passes

/-- If the watch recalls, it does so behind the part of the run, however that ends, and no statement
begins in a scope before this one. -/
def Passing (bound : FrameId) {α : Type} (w : Watch) (t : Watched α) : Prop :=
  w.Recalls → bound ≤ w.machine.store.frames.size → w.Passes bound (Watched.left (t w))

namespace Passing

variable {α β : Type}

theorem pure (a : α) : Passing bound w (Pure.pure a) := fun recalls _ => .refl recalls

theorem bind {t : Watched α} {f : α → Watched β} (first : Passing bound w t)
    (next : ∀ a w', w.Passes bound w' → Passing bound w' (f a)) :
    Passing bound w (t >>= f) := by
  intro recalls le
  have passes := first recalls le
  simp only [Bind.bind, EStateM.bind]
  cases result : t w with
  | error stop w' =>
    rw [result] at passes
    exact passes
  | ok a w' =>
    rw [result] at passes
    exact passes.trans (next a w' passes passes.recalls (Nat.le_trans le passes.frames))

theorem ite {b : Bool} {t t' : Watched α} (yes : Passing bound w t) (no : Passing bound w t') :
    Passing bound w (if b = true then t else t') := by
  cases b with
  | true => exact yes
  | false => exact no

/-- What runs in new scopes only may run anywhere. The active scope is none of them. -/
theorem widen {t : Watched α} (h : w.machine.current.frame < w.machine.store.frames.size →
    Passing w.machine.store.frames.size w t) : Passing bound w t :=
  fun recalls le => (h recalls.active recalls (Nat.le_refl _)).widen le

end Passing

/-! ## Steps that add to the store -/

/-- There may be new scopes, but nothing has changed in those that were there. -/
structure Machine.Extends (m m' : Machine) : Prop where
  current : m'.current = m.current
  frames : m.store.frames.size ≤ m'.store.frames.size
  kept : ∀ id name v, (m.store.frame id).get? name = some v →
    (m'.store.frame id).get? name = some v

namespace Machine.Extends

variable {m m' m'' : Machine}

/-- No scope has been touched. -/
theorem of_frames (current : m'.current = m.current)
    (same : m'.store.frames = m.store.frames) : m.Extends m' := by
  refine ⟨current, Nat.le_of_eq (congrArg Array.size same.symm), fun id name v found => ?_⟩
  rw [Store.frame, same]
  exact found

theorem trans (first : m.Extends m') (second : m'.Extends m'') : m.Extends m'' where
  current := second.current.trans first.current
  frames := Nat.le_trans first.frames second.frames
  kept id name v h := second.kept id name v (first.kept id name v h)

end Machine.Extends

namespace Run

variable {α β : Type}

/-- However the part of a run ends, it changes nothing in the scopes that are there. -/
def Adds (act : Run α) : Prop := ∀ m : Machine, m.Extends (left (act m))

namespace Adds

theorem pure (a : α) : Adds (Pure.pure a : Run α) := fun _ => .of_frames rfl rfl

theorem bind {act : Run α} {next : α → Run β} (first : Adds act) (then_ : ∀ a, Adds (next a)) :
    Adds (act >>= next) := by
  intro m
  have before := first m
  simp only [Bind.bind, EStateM.bind]
  cases result : act m with
  | ok a m' =>
    rw [result] at before
    exact before.trans (then_ a m')
  | error stop m' =>
    rw [result] at before
    exact before

theorem fault (f : Fault) : Adds (Run.fault f : Run α) := fun _ => .of_frames rfl rfl

theorem outOfFuel : Adds (Run.outOfFuel : Run α) := fun _ => .of_frames rfl rfl

theorem read (f : Machine → Except Fault α) : Adds (Run.read f) := by
  intro m
  unfold Run.read
  cases f m with
  | ok a => exact .of_frames rfl rfl
  | error cause => exact .of_frames rfl rfl

theorem newFrame (outer : Environment) (bound : Bindings Value) :
    Adds (Run.newFrame outer bound) := by
  intro m
  refine ⟨rfl, Nat.le_of_lt ?_, fun id name v found => ?_⟩
  · exact Nat.lt_of_lt_of_eq (Nat.lt_succ_self _) (Store.size_pushFrame m.store bound).symm
  · have here : (m.store.frame id).contains name = true := by simp [Bindings.contains, found]
    exact (Store.frame_pushFrame_of_lt bound (Store.lt_of_contains here)).symm ▸ found

theorem newInstance (c : Class) : Adds (Run.newInstance c) := fun _ => .of_frames rfl rfl

theorem setField (i : Instance) (name : String) (v : Value) : Adds (Run.setField i name v) :=
  fun _ => .of_frames rfl rfl

theorem readClock : Adds Run.readClock := fun _ => .of_frames rfl rfl

theorem write (text : String) : Adds (Run.write text) := by
  intro m
  unfold Run.write
  split
  · exact .of_frames rfl rfl
  · exact .of_frames rfl rfl

theorem flush : Adds Run.flush := by
  intro m
  unfold Run.flush
  split
  · exact .of_frames rfl rfl
  · exact .of_frames rfl rfl

theorem liftCause (line : Nat) (result : Except RuntimeCause α) :
    Adds (Run.liftCause line result) := by
  cases result with
  | ok a => exact pure a
  | error cause => exact fault _

theorem readVariable (place : Place) (name : Name) : Adds (Run.readVariable place name) := by
  cases place with
  | scope hops => exact read _
  | global => exact read _

theorem bindMethod (method : Closure) (i : Instance) : Adds (Run.bindMethod method i) :=
  (newFrame _ _).bind fun _ => pure _

theorem superAt (hops : Nat) : Adds (Run.superAt hops) := by
  apply (read _).bind
  intro superclass
  split
  · cases hops with
    | zero => exact fault _
    | succ inner =>
      apply (read _).bind
      intro receiver
      split
      · exact pure _
      · exact fault _
  · exact fault _

theorem readSuperclass (superclass : Option (Reference Place)) :
    Adds (Run.readSuperclass superclass) := by
  cases superclass with
  | none => exact pure none
  | some r =>
    apply (readVariable r.mark r.name).bind
    intro value
    split
    · exact pure _
    · exact fault _

end Adds

end Run

namespace Watch.Passes

/-- A machine that adds to the store. -/
theorem on (recalls : w.Recalls) {m : Machine} (h : w.machine.Extends m) :
    w.Passes bound (w.on m) := by
  refine ⟨⟨?_, recalls.store.mono h.kept, recalls.moments⟩, h.current, h.frames, ?_, [], rfl,
    fun _ mem => by cases mem⟩
  · exact Nat.lt_of_lt_of_le (h.current ▸ recalls.active) h.frames
  · intro id name here
    obtain ⟨v, found⟩ := Option.isSome_iff_exists.1 here
    exact Option.isSome_iff_exists.2 ⟨v, h.kept id name v found⟩

/-- A variable is set that has no function to remember. -/
theorem setVariable (recalls : w.Recalls) {id : FrameId} {name : String} {v : Value}
    (unclaimed : Unclaimed w.moments id name) :
    w.Passes bound
      (w.on { w.machine with store := w.machine.store.setVariable id name v }) := by
  have size := Store.size_setVariable w.machine.store id name v
  refine ⟨⟨?_, recalls.store.setVariable unclaimed, recalls.moments⟩, rfl, Nat.le_of_eq size.symm,
    ?_, [], rfl, fun _ mem => by cases mem⟩
  · exact Nat.lt_of_lt_of_eq recalls.active size.symm
  · intro other x here
    simp [Watch.on, Store.contains_setVariable, here]

/-- A moment is recorded at which no function is declared. -/
theorem note (recalls : w.Recalls) (p : Spot) (event : Event)
    (other : (Moment.mk event p w.machine).function? = none)
    (later : ∀ s, event = .execute s → bound ≤ w.machine.current.frame) :
    w.Passes bound { w with moments := ⟨event, p, w.machine⟩ :: w.moments } := by
  refine ⟨⟨recalls.active, recalls.store.cons other, recalls.store, recalls.moments⟩, rfl,
    Nat.le_refl _, fun _ _ h => h, [_], rfl, fun m mem s same => ?_⟩
  cases List.mem_singleton.1 mem
  exact later s same

end Watch.Passes

namespace Passing

variable {α : Type}

theorem plain {act : Run α} (adds : Run.Adds act) : Passing bound w (Watched.plain act) := by
  intro recalls _
  have extends_ := adds w.machine
  unfold Watched.plain
  cases result : act w.machine with
  | ok a m =>
    rw [result] at extends_
    exact .on recalls extends_
  | error stop m =>
    rw [result] at extends_
    exact .on recalls extends_

theorem newObject (p : Spot) : Passing bound w (Watched.newObject p) := by
  intro recalls _
  have passes : w.Passes bound
      (w.on { w.machine with store := w.machine.store.takeObject }) :=
    .on recalls (.of_frames rfl rfl)
  exact { passes with recalls := ⟨passes.recalls.active, passes.recalls.store, recalls.moments⟩ }

theorem note (p : Spot) (event : Event)
    (other : (Moment.mk event p w.machine).function? = none)
    (later : ∀ s, event = .execute s → bound ≤ w.machine.current.frame) :
    Passing bound w (Watched.note p event) :=
  fun recalls _ => .note recalls p event other later

/-- What opens a scope has a new one to run in. -/
theorem newFrame_bind {outer : Environment} {binding : Bindings Value} {f : Environment → Watched α}
    (next : ∀ e w', w.Passes bound w' → bound ≤ e.frame →
      e.frame < w'.machine.store.frames.size → Passing bound w' (f e)) :
    Passing bound w (Watched.plain (Run.newFrame outer binding) >>= f) := by
  intro recalls le
  let e : Environment := ⟨w.machine.store.frames.size, outer.path⟩
  let m : Machine := { w.machine with store := w.machine.store.pushFrame binding }
  have opened : w.Passes bound (w.on m) :=
    .on recalls (Run.Adds.newFrame outer binding w.machine)
  have lt : e.frame < (w.on m).machine.store.frames.size :=
    Nat.lt_of_lt_of_eq (Nat.lt_succ_self _) (Store.size_pushFrame _ _).symm
  exact opened.trans (next e (w.on m) opened le lt opened.recalls (Nat.le_trans le opened.frames))

/-- What runs in another scope. -/
theorem withEnvironment {e : Environment} {t : Watched α}
    (lt : e.frame < w.machine.store.frames.size)
    (inner : Passing bound (w.on { w.machine with current := e }) t) :
    Passing bound w (Watched.withEnvironment e t) := by
  intro recalls le
  have entered : (w.on { w.machine with current := e }).Recalls :=
    ⟨lt, recalls.store, recalls.moments⟩
  have leaves {w' : Watch} (passes : (w.on { w.machine with current := e }).Passes bound w') :
      w.Passes bound (w'.on { w'.machine with current := w.machine.current }) :=
    { passes with
      recalls := ⟨Nat.lt_of_lt_of_le recalls.active passes.frames, passes.recalls.store,
        passes.recalls.moments⟩
      current := rfl }
  have passes := inner entered le
  unfold Watched.withEnvironment
  rw [show ({ w with machine := { w.machine with current := e } } : Watch) =
    w.on { w.machine with current := e } from rfl]
  cases result : t (w.on { w.machine with current := e }) with
  | ok a w' =>
    rw [result] at passes
    exact leaves passes
  | error stop w' =>
    rw [result] at passes
    exact leaves passes

theorem current_bind {f : Environment → Watched α} (next : Passing bound w (f w.machine.current)) :
    Passing bound w (Watched.current >>= f) := next

/-- The scope around the methods of a class is the active one, or new. -/
theorem methodEnvironment_bind {parent : Option Class} {f : Environment → Watched α}
    (next : ∀ e w', w.Passes bound w' → e.frame < w'.machine.store.frames.size →
      Passing bound w' (f e)) :
    Passing bound w (Watched.plain (Run.methodEnvironment parent) >>= f) := by
  cases parent with
  | none => exact fun recalls => next _ w (.refl recalls) recalls.active recalls
  | some c =>
    rw [Run.methodEnvironment, Watched.plain_bind, bind_assoc]
    apply current_bind
    apply newFrame_bind
    intro e w' opened _ lt
    exact next e w' opened lt

/-- A declaration binds its name in the active scope. -/
theorem define_bind {name : String} {v : Value} {f : Unit → Watched α}
    (unclaimed : Unclaimed w.moments w.machine.current.frame name)
    (next : ∀ w', w.Passes bound w' →
      (w'.machine.store.frame w.machine.current.frame).contains name = true →
        Passing bound w' (f ())) :
    Passing bound w (Watched.plain (Run.define name v) >>= f) := by
  intro recalls le
  let m : Machine := { w.machine with store := w.machine.store.define w.machine.current name v }
  have defined : w.Passes bound (w.on m) := .setVariable recalls unclaimed
  have here : (m.store.frame w.machine.current.frame).contains name = true := by
    simp [m, Store.define, Store.contains_setVariable, recalls.active]
  have rest := next (w.on m) defined here
  exact defined.trans (rest defined.recalls (Nat.le_trans le defined.frames))

/-- An assignment by name from the active scope outward, if this scope binds the name. -/
theorem assign_active {name : Name} {v : Value}
    (here : (w.machine.store.frame w.machine.current.frame).contains name.text = true)
    (unclaimed : Unclaimed w.moments w.machine.current.frame name.text) :
    Passing bound w (Watched.plain (Run.assign w.machine.current name v)) := by
  have found : w.machine.store.binder? w.machine.current.path name.text =
      some w.machine.current.frame := List.find?_cons_of_pos here
  intro recalls _
  simp only [Watched.plain, Run.assign, Store.assign, found]
  exact .setVariable recalls unclaimed

/-- An assignment to a variable is the last moment that binds the variable. -/
theorem store (p : Spot) (target : Reference Place) (v : Value) :
    Passing bound w (do
      Watched.note p (.store target)
      Watched.plain (Run.assignVariable target.mark target.name v)
      return v) := by
  let m : Moment := ⟨.store target, p, w.machine⟩
  intro recalls le
  have noted : w.Passes bound { w with moments := m :: w.moments } :=
    .note recalls p (.store target) rfl fun s same => by cases same
  have sets {id : FrameId} (here : w.machine.current.scopeAt? target.mark = some id) (v : Value) :
      w.Passes bound { w with
        machine :=
          { w.machine with store := w.machine.store.setVariable id target.name.text v }
        moments := m :: w.moments } := by
    have binds : m.binds id target.name.text = true := by simp [m, Moment.binds, here]
    exact noted.trans (.setVariable noted.recalls (.cons_self binds rfl))
  simp only [Bind.bind, EStateM.bind, Watched.note, Watched.plain]
  cases place : target.mark with
  | scope hops =>
    simp only [Run.assignVariable, Run.assignAt, Store.assignAt]
    cases found : w.machine.store.binderAt w.machine.current hops target.name.text with
    | error f => exact noted
    | ok id =>
      apply sets
      rw [place]
      exact Store.path_of_binderAt found
  | global =>
    simp only [Run.assignVariable, Run.assign, Store.assign]
    cases found : w.machine.store.binder? Environment.globals.path target.name.text with
    | none => exact noted
    | some id =>
      apply sets
      have isGlobals := List.mem_singleton.1 (List.mem_of_find?_eq_some found)
      rw [place, isGlobals]
      rfl

end Passing

end Lox
