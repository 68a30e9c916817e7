import Lox.Proofs.Receiver.Rules
import Lox.Proofs.Session.Requests

/-!
# `this` and `super` all along a session

The watch of a session stays settled from request to request. So whatever has been asked of a
session, `this` has always been the instance that the method around it was bound to, and `super` the
superclass that the class around it was declared with.
-/

namespace Lox

variable {code : Node → Prop}

/-! ## Looking up the receiver -/

namespace Run

/-- The method of the class is looked up. It is given bound to the instance, which a new scope holds,
unless there is no method of this name. -/
def GivesBound (t : Run Value) (c : Class) (i : Instance) (method : Name) (m : Machine) : Prop :=
  match c.findMethod? method.text with
  | none => t m = .error (.fault (.runtime (.undefinedProperty method.text) method.line)) m
  | some f =>
    let own := m.store.frames.size
    ∃ id m', m'.store.HoldsThis own i ∧
      t m = .ok (.callable (.function id { f with environment := ⟨own, f.environment.path⟩ })) m'

theorem methodOf_givesBound (c : Class) (i : Instance) (method : Name) (m : Machine) :
    GivesBound (methodOf c i method) c i method m := by
  unfold GivesBound methodOf
  cases c.findMethod? method.text with
  | none => rfl
  | some f =>
    let bound := m.store.pushFrame (Bindings.empty.insert thisName (.ofInstance i))
    exact ⟨m.store.nextObject, { m with store := bound.takeObject },
      Store.frame_pushFrame_self m.store _, rfl⟩

end Run

namespace Receiver

variable {m : Machine} {c : Context} {r : Receiver}

theorem At.readThis (h : r.At m.store m.current.path c) (line : Nat) :
    Run.readVariable (c.scopes.place thisName) ⟨thisName, line⟩ m = .ok (.ofInstance r.self) m := by
  obtain ⟨hops, own, place, here, holds, -⟩ := h
  rw [place]
  simp only [Run.readVariable, Run.read, Store.getAt_of_get? here holds.get]

/-- A `super` expression looks the method up from the superclass on, and binds it to the instance. -/
theorem At.superMethod (h : r.At m.store m.current.path c) (derived : c.classContext = .derived)
    (method : Name) :
    ∃ superclass, r.superclass = some superclass ∧
      Run.superMethod (c.scopes.place superName) method m =
        Run.methodOf superclass r.self method m := by
  obtain ⟨hops, own, -, here, holds, rest⟩ := h
  cases isSuper : r.superclass with
  | none =>
    rw [isSuper] at rest
    rw [rest] at derived
    cases derived
  | some superclass =>
    rw [isSuper] at rest
    obtain ⟨-, place, outer, there, holdsSuper⟩ := rest
    have found : Run.superAt (hops + 1) m = .ok (superclass, r.self) m := by
      simp only [Run.superAt, Bind.bind, EStateM.bind, Run.read,
        Store.getAt_of_get? there holdsSuper.get, Store.getAt_of_get? here holds.get]
      rfl
    refine ⟨superclass, rfl, ?_⟩
    rw [place]
    simp only [Run.superMethod, Bind.bind, EStateM.bind, found]

end Receiver

/-! ## Moments -/

/-- What `this` and `super` stand for at a moment, and what has become of the scopes. -/
structure Moment.Receives (code : Node → Prop) (m : Moment) (earlier : List Moment) : Prop where
  /-- The expression is in a method, and gives the instance that this is bound to. -/
  this : ∀ line mark, m.event = .evaluate (.this line mark) → ∃ r c,
    Nested code m.machine.store earlier (some r) m.machine.current.path c
        (.expression (.this line mark)) ∧
      Run.readVariable mark ⟨thisName, line⟩ m.machine = .ok (.ofInstance r.self) m.machine
  /-- The expression is in a method of a class with a superclass. The method that it names is looked
  up from that superclass on and bound to the instance that `this` stands for. -/
  super : ∀ line mark method, m.event = .evaluate (.super line mark method) →
    ∃ i superclass c,
      Nested code m.machine.store earlier (some ⟨i, some superclass⟩) m.machine.current.path c
          (.expression (.super line mark method)) ∧
        Run.readVariable (c.scopes.place thisName) ⟨thisName, line⟩ m.machine =
          .ok (.ofInstance i) m.machine ∧
        Run.GivesBound (Run.superMethod mark method) superclass i method m.machine
  /-- A scope that holds an instance or a superclass holds nothing else. -/
  sorted : ∀ id < m.machine.store.frames.size, m.machine.store.IsSorted id
  /-- It has held that at each moment since it was made. -/
  since : ∀ m' ∈ earlier, m'.machine.store.Settles m.machine.store

theorem Moment.Seated.receives {m : Moment} {earlier : List Moment} (h : m.Seated code earlier)
    (rooted : ∀ n, code n → n.Scoped .top) : m.Receives code earlier where
  this line mark event := by
    obtain ⟨o, c, nested⟩ := h.nested _ event
    obtain ⟨placed, inside⟩ := (nested.stands.scoped rooted).1
    have receiver := nested.receiver rooted
    cases o with
    | none => exact absurd receiver inside
    | some r =>
      refine ⟨r, c, nested, ?_⟩
      rw [placed]
      exact Receiver.At.readThis receiver line
  super line mark method event := by
    obtain ⟨o, c, nested⟩ := h.nested _ event
    obtain ⟨placed, derived⟩ := (nested.stands.scoped rooted).1
    have receiver := nested.receiver rooted
    cases o with
    | none =>
      rw [derived] at receiver
      cases receiver
    | some r =>
      obtain ⟨i, superclass?⟩ := r
      obtain ⟨superclass, isSuper, result⟩ := Receiver.At.superMethod receiver derived method
      cases isSuper
      refine ⟨i, superclass, c, nested, Receiver.At.readThis receiver line, ?_⟩
      have bound := Run.methodOf_givesBound superclass i method m.machine
      unfold Run.GivesBound at bound ⊢
      rw [placed, result]
      exact bound
  sorted := h.sorted
  since := h.since

theorem AllSeated.seated {moments later earlier : List Moment} {m : Moment}
    (h : AllSeated code moments) (split : moments = later ++ m :: earlier) :
    m.Seated code earlier := by
  induction later generalizing moments with
  | nil =>
    rw [split] at h
    exact h.1
  | cons first later ih =>
    subst split
    exact ih h.2 rfl

/-! ## Requests -/

/-- The part of a run leaves the watch settled, however it ends. -/
def Serving {α : Type} (code : Node → Prop) (w : Watch) (t : Watched α) : Prop :=
  match t w with
  | .ok _ w' | .error _ w' => w.Leads code w'

theorem serving_iff {α : Type} {w : Watch} {t : Watched α} :
    Serving code w t ↔ w.Leads code (Watched.left (t w)) := by
  unfold Serving
  cases t w <;> exact Iff.rfl

theorem Proceeds.serving {α : Type} {w : Watch} {t : Watched α} {Q : α → Watch → Prop}
    (h : Proceeds code w t Q) : Serving code w t := by
  unfold Proceeds at h
  unfold Serving
  cases result : t w with
  | ok a w' =>
    rw [result] at h
    exact h.1
  | error stop w' =>
    rw [result] at h
    exact h

theorem Proceeds.flush {w : Watch} (settled : w.Settled code) :
    Proceeds code w (Watched.plain Run.flush) fun _ _ => True := by
  have asked : w.Leads code (w.on { w.machine with sink := w.machine.sink.asked }) :=
    .frames settled rfl rfl rfl fun _ _ _ found => .inl found
  cases refused : w.machine.sink.refusal .flush w.machine.sink.requests with
  | some message =>
    apply plain_error (m := { w.machine with sink := w.machine.sink.asked })
    · simp only [Run.flush, refused]
      rfl
    · exact asked
  | none =>
    apply plain_ok (a := ()) (m := { w.machine with sink := w.machine.sink.asked })
    · simp only [Run.flush, refused]
    · exact asked
    · trivial

/-- A program that is run, and its sink flushed, leaves a watch settled. -/
theorem Watched.interpret_serving {w : Watch} (rooted : ∀ n, code n → n.Scoped .top)
    (settled : w.Settled code) (current : w.machine.current = .globals) {ss : List (Stmt Place)}
    (isCode : code (.statements ss)) (fuel : Nat) :
    Serving code w (Watched.interpret fuel ss) := by
  have isAt : w.At code (.statements ss) := by
    constructor
    · rw [current]
      exact ⟨none, .top, .root isCode⟩
    · rw [current]
      exact settled.globals
  have ran := serving_iff.1
    (Proceeds.program (watcher_proceeds rooted fuel) settled .top isAt).serving
  rw [serving_iff]
  rcases Watched.left_interpret fuel ss w with same | flushed
  · rw [same]
    exact ran
  · rw [flushed]
    exact ran.trans (serving_iff.1 (Proceeds.flush ran.settled).serving)

namespace WatchedSession

/-- The watch is settled, and the globals are the scope that is active. -/
structure Settled (code : Node → Prop) (s : WatchedSession) : Prop where
  watch : s.watch.Settled code
  current : s.watch.machine.current = .globals

theorem Settled.perform {α : Type} {s : WatchedSession} (h : s.Settled code) {t : Watched α}
    (serving : Serving code s.watch t) : (s.perform t).2.Settled code := by
  unfold Serving at serving
  unfold WatchedSession.perform
  cases result : t s.watch with
  | ok a w' | error stop w' =>
    rw [result] at serving
    exact ⟨serving.settled, serving.current.trans h.current⟩

theorem Settled.on {s : WatchedSession} (h : s.Settled code) {m : Machine}
    (store : m.store = s.watch.machine.store) (current : m.current = s.watch.machine.current) :
    (s.on m).Settled code := by
  have leads : s.watch.Leads code (s.watch.on m) := by
    refine .frames h.watch rfl current (congrArg Store.frames store) fun id name v found => ?_
    rw [show (s.watch.on m).machine.store = s.watch.machine.store from store] at found
    exact .inl found
  exact ⟨leads.settled, current.trans h.current⟩

/-- Each request leaves a settled session settled. -/
theorem Settled.serve {s : WatchedSession} (h : s.Settled code)
    (rooted : ∀ n, code n → n.Scoped .top) (r : Request) (reads : ∀ n, r.Reads n → code n) :
    (s.serve r).2.Settled code := by
  cases r with
  | run fuel source =>
    simp only [WatchedSession.serve]
    cases accepted : checkProgram (readProgram source s.nextRef) with
    | error reports => exact ⟨h.watch, h.current⟩
    | ok located =>
      have isCode := reads _ ⟨s.nextRef, located, accepted, rfl⟩
      exact Settled.perform (s := { s with nextRef := (readProgram source s.nextRef).nextRef })
        ⟨h.watch, h.current⟩ (Watched.interpret_serving rooted h.watch h.current isCode fuel)
  | evaluate fuel source =>
    simp only [WatchedSession.serve]
    cases accepted : checkExpression (readExpression source s.nextRef) with
    | error reports => exact ⟨h.watch, h.current⟩
    | ok located =>
      have isCode := reads _ ⟨s.nextRef, located, accepted, rfl⟩
      have isAt : s.watch.At code (.expression (runnableExpr located)) := by
        constructor
        · rw [h.current]
          exact ⟨none, .top, .root isCode⟩
        · rw [h.current]
          exact h.watch.globals
      have proceeds := (watcher_proceeds rooted fuel).eval .top h.watch isAt
      exact Settled.perform (s := { s with nextRef := (readExpression source s.nextRef).nextRef })
        ⟨h.watch, h.current⟩ proceeds.serving
  | check source => exact ⟨h.watch, h.current⟩
  | takeOutput => exact h.on rfl rfl
  | setClock clock => exact h.on rfl rfl

/-- A session in which nothing has run is settled. -/
theorem settled_start (code : Node → Prop) (sink : Sink) (clock : Clock) :
    (start sink clock).Settled code := by
  have onlyClock {name : String} {v : Value} (found : builtins.get? name = some v) :
      name = Native.clock.name ∧ v = .callable (.native .clock) :=
    Bindings.get?_insert_empty.1 found
  have named : ∀ name, builtins.contains name = true → IsVariable name := by
    intro name here
    obtain ⟨v, found⟩ := Option.isSome_iff_exists.1 here
    rw [(onlyClock found).1]
    exact ⟨by decide, by decide⟩
  have globals : (Store.empty.pushFrame builtins).IsPlain Environment.globals.frame :=
    Store.isPlain_pushFrame named
  refine ⟨⟨globals, ?_, ?_, ?_, trivial, fun m mem => by cases mem⟩, rfl⟩
  · intro id lt
    have isGlobals : id = Environment.globals.frame := Nat.lt_one_iff.1 lt
    rw [isGlobals]
    exact .inl globals
  · intro id name v found
    simp only [start, Machine.start, Store.frame_pushFrame] at found
    split at found
    · rw [(onlyClock found).2]
      trivial
    · simp [Store.frame, Store.empty] at found
  · intro id name v found
    simp [start, Machine.start, Store.fieldsOf, Store.pushFrame, Store.empty] at found

theorem Settled.after {s : WatchedSession} (h : s.Settled code)
    (rooted : ∀ n, code n → n.Scoped .top) (requests : List Request)
    (reads : ∀ r ∈ requests, ∀ n, r.Reads n → code n) : (s.after requests).Settled code := by
  induction requests generalizing s with
  | nil => exact h
  | cons r rest ih =>
    have served := h.serve rooted r (reads r List.mem_cons_self)
    exact ih served fun r' mem => reads r' (List.mem_cons_of_mem _ mem)

end WatchedSession

/-- **`this` and `super` are bound statically.** Whatever has been asked of a session, at each moment
at which a `this` is evaluated it gives the instance that the innermost method around it was bound
to. A `super` never fails for its scopes: it looks the method up from the class on that the
superclass name of the class around it stood for when that class was declared, and gives it bound to
the instance that `this` stands for. Each scope that holds an instance or a superclass holds nothing
else, and has held that since it was made. -/
theorem receivers_are_static (sink : Sink) (clock : Clock) (requests : List Request) :
    let s := (WatchedSession.start sink clock).after requests
    s.forget = (Session.start sink clock).after requests ∧
      (∀ later m earlier, s.watch.moments = later ++ m :: earlier →
        m.Receives (codeOf requests) earlier ∧ m.machine.store.Settles s.watch.machine.store) ∧
      ∀ id < s.watch.machine.store.frames.size, s.watch.machine.store.IsSorted id := by
  intro s
  have settled : s.Settled (codeOf requests) :=
    (WatchedSession.settled_start _ sink clock).after (codeOf_scoped requests) requests
      fun r mem _ reads => ⟨r, mem, reads⟩
  refine ⟨WatchedSession.after_forget _ requests, fun later m earlier split => ?_,
    settled.watch.sorted⟩
  constructor
  · exact (settled.watch.moments.seated split).receives (codeOf_scoped requests)
  · apply settled.watch.since
    rw [split]
    exact List.mem_append_right _ List.mem_cons_self

-- the method of `B` calls that of `A`, though the instance is one of `C`
example : ((Session.start .reliable (.ticking 0)).after
      [.run 30 ("class A \x7b m() \x7b print true; \x7d \x7d" ++
        "class B < A \x7b m() \x7b print false; \x7d t() \x7b super.m(); \x7d \x7d" ++
        "class C < B \x7b\x7d A = nil; C().t();")]).machine.sink.written = "true\n" := by
  decide +kernel

end Lox
