import Lox.Proofs.Scope.Places
import Lox.Proofs.Session.Scopes
import Lox.Proofs.Sibling.Rules

/-!
# Functions of one scope

The watch of a session recalls what has been declared from request to request. So whatever has been
asked of a session, a function finds the functions that are declared in the scope of its own
declaration: in the globals all of them, in another scope those that were declared before it.
-/

namespace Lox

/-! ## Requests -/

/-- A program that is run, and its sink flushed. -/
theorem Passing.interpret {w : Watch} (fuel : Nat) (ss : List (Stmt Place)) :
    Passing 0 w (Watched.interpret fuel ss) := by
  intro recalls le
  have ran := program (watcher_recalls fuel) .top ss recalls le
  rcases Watched.left_interpret fuel ss w with same | flushed
  · rw [same]
    exact ran
  · rw [flushed]
    exact ran.trans (plain .flush ran.recalls (Nat.zero_le _))

namespace WatchedSession

theorem perform_recalls {α : Type} {s : WatchedSession} {t : Watched α}
    (passing : Passing 0 s.watch t) (recalls : s.watch.Recalls) :
    (s.perform t).2.watch.Recalls := by
  have passes := passing recalls (Nat.zero_le _)
  unfold perform
  cases result : t s.watch with
  | ok a w' | error stop w' =>
    rw [result] at passes
    exact passes.recalls

/-- Behind each request the watch recalls what has been declared. -/
theorem serve_recalls {s : WatchedSession} (recalls : s.watch.Recalls) (r : Request) :
    (s.serve r).2.watch.Recalls := by
  cases r with
  | run fuel source =>
    simp only [serve]
    cases checkProgram (readProgram source s.nextRef) with
    | error reports => exact recalls
    | ok located => exact perform_recalls (Passing.interpret fuel _) recalls
  | evaluate fuel source =>
    simp only [serve]
    cases checkExpression (readExpression source s.nextRef) with
    | error reports => exact recalls
    | ok located => exact perform_recalls ((watcher_recalls fuel).eval .top _) recalls
  | check source => exact recalls
  | takeOutput => exact ⟨recalls.active, recalls.store, recalls.moments⟩
  | setClock clock => exact ⟨recalls.active, recalls.store, recalls.moments⟩

theorem start_recalls (sink : Sink) (clock : Clock) : (start sink clock).watch.Recalls :=
  ⟨Nat.zero_lt_one, fun _ _ _ _ last => (nomatch last), trivial⟩

theorem after_recalls {s : WatchedSession} (recalls : s.watch.Recalls) (requests : List Request) :
    (s.after requests).watch.Recalls := by
  induction requests generalizing s with
  | nil => exact recalls
  | cons r rest ih => exact ih (serve_recalls recalls r)

end WatchedSession

theorem AllRemembered.remembers {moments later earlier : List Moment} {m : Moment}
    (h : AllRemembered moments) (split : moments = later ++ m :: earlier) :
    m.machine.store.Remembers earlier ∧ AllRemembered earlier := by
  induction later generalizing moments with
  | nil =>
    rw [split] at h
    exact h
  | cons first later ih =>
    subst split
    exact ih h.2 rfl

/-! ## Declarations around a moment -/

/-- The moment is one of a run of the body of what is declared at `f`, or of what is declared inside
that body. Where several declarations have one home, as those of the globals do, it may be any of
them. -/
inductive Moment.Encloses (f : Moment) (record : List Moment) : Moment → Prop
  | body {m : Moment} : f.Declares m.spot.home → f.Encloses record m
  | nested {inner m : Moment} : inner ∈ record → f.Encloses record inner →
    inner.Declares m.spot.home → f.Encloses record m

/-- A scope around the moment that is not one of those around the declaration `f` declares the
name. -/
def Moment.redeclares (m f : Moment) (name : String) : Bool :=
  let scopes := m.spot.context.scopes
  (scopes.take (scopes.length - f.spot.context.scopes.length)).any (·.contains name)

variable {code : Node → Prop} {f m : Moment} {record earlier : List Moment}

/-- The scopes around a declaration are around all moments that it encloses. -/
theorem Moment.Encloses.chain (h : f.Encloses record m) (recorded : Recorded code record)
    (fits : m.spot.Fits m.machine earlier) :
    ∃ k name, m.machine.current.path.drop k = f.machine.current.path ∧
      m.spot.context.scopes.drop k = f.spot.context.scopes.define name ∧
        (k = 0 → m.spot.context.scopes = []) := by
  induction h generalizing earlier with
  | body declares =>
    obtain ⟨name, -, home⟩ := declares
    obtain ⟨k, out, around, outermost⟩ := fits.activation
    rw [home] at out around
    exact ⟨k, name, out, around, outermost⟩
  | nested mem _ declares ih =>
    obtain ⟨later, before, split⟩ := List.append_of_mem mem
    obtain ⟨k, name, out, around, outermost⟩ := ih (recorded.sound split).fits
    obtain ⟨own, -, home⟩ := declares
    obtain ⟨k', out', around', outermost'⟩ := fits.activation
    rw [home] at out' around'
    refine ⟨k' + k, name, ?_, ?_, fun zero => outermost' (Nat.eq_zero_of_add_eq_zero_right zero)⟩
    · rw [← List.drop_drop, out']
      exact out
    · rw [← List.drop_drop, around', Scopes.drop_define outermost]
      exact around

/-! ## Functions that are declared in one scope -/

/-- The variable that is about to be read. -/
def Moment.reference? (m : Moment) : Option (Reference Place) :=
  match m.event with
  | .evaluate (.variable r) => some r
  | .evaluate _ | .execute _ | .store _ | .superclass _ => none

theorem Moment.reference?_eq_some {m : Moment} {r : Reference Place}
    (h : m.reference? = some r) : m.event = .evaluate (.variable r) := by
  unfold reference? at h
  split at h
  · next event => rw [event, Option.some.inj h]
  all_goals cases h

/-- `f` and `g` are declarations on record, made in the same scope. That of `g` is the last moment
at which the variable of this name was bound there. -/
structure Siblings (earlier : List Moment) (f g : Moment) (name : String) : Prop where
  recorded : f ∈ earlier
  scope : f.machine.current = g.machine.current
  last : lastBinding earlier g.machine.current.frame name = some g

/-- At the moment `f` the variable had been bound by `g` already. -/
def BoundBefore (earlier : List Moment) (f g : Moment) (name : String) : Prop :=
  ∃ between before, earlier = between ++ f :: before ∧
    lastBinding before g.machine.current.frame name = some g

variable {g : Moment} {name : String} {v : Value}

/-- The name is declared in the innermost scope around `f`, or there are the globals only. -/
theorem Siblings.declared (siblings : Siblings earlier f g name)
    (recorded : Recorded code earlier) (remembered : AllRemembered earlier)
    (function : g.function? = some v)
    (order : f.machine.current = .globals ∨ BoundBefore earlier f g name) :
    f.spot.context.scopes = [] ∨ f.spot.context.scopes.isDeclared name = true := by
  rcases order with globals | ⟨between, before, split, last⟩
  · obtain ⟨between, before, split⟩ := List.append_of_mem siblings.recorded
    exact .inl ((recorded.sound split).fits.mirrors.globals_iff.1 globals)
  · have fits := (recorded.sound split).fits
    have found := (remembered.remembers split).1 _ name g v last function
    rw [← siblings.scope] at found
    have here : (f.machine.store.frame f.machine.current.frame).contains name = true := by
      simp [Bindings.contains, found]
    cases scopes : f.spot.context.scopes with
    | nil => exact .inl rfl
    | cons scope outer =>
      have ready := fits.exact scope (by simp [scopes]) name here
      exact .inr (by simp [Scopes.isDeclared, Bindings.contains, ready])

/-- The scopes around the moment that are not those around `f` do not declare the name. -/
theorem Moment.unbound_inside {k : Nat} {other : String} (own : m.redeclares f name = false)
    (around : m.spot.context.scopes.drop k = f.spot.context.scopes.define other) :
    ∀ scope ∈ m.spot.context.scopes.take k, scope.contains name = false := by
  have length := congrArg List.length around
  rw [List.length_drop, Scopes.length_define] at length
  have inner : m.spot.context.scopes.take k = m.spot.context.scopes.take
      (m.spot.context.scopes.length - f.spot.context.scopes.length) := by
    rw [List.take_eq_take_iff]
    omega
  intro scope mem
  rw [inner] at mem
  have none := List.any_eq_false.1 own scope mem
  simpa using none

/-- What is declared in the innermost scope around `f` is found in the scope that `f` is declared
in. -/
theorem Moment.Encloses.place (h : f.Encloses record m) (recorded : Recorded code record)
    (fits : m.spot.Fits m.machine earlier) (own : m.redeclares f name = false)
    (declared : f.spot.context.scopes.isDeclared name = true) :
    ∃ hops, m.spot.context.scopes.place name = .scope hops ∧
      m.machine.current.path[hops]? = some f.machine.current.frame := by
  obtain ⟨k, other, out, around, -⟩ := h.chain recorded fits
  refine ⟨k, ?_, ?_⟩
  · have inside := Moment.unbound_inside own around
    apply Scopes.place_of_drop inside
    rw [around]
    exact Scopes.isDeclared_define declared
  · have first : (m.machine.current.path.drop k)[0]? = m.machine.current.path[k + 0]? :=
      List.getElem?_drop
    rw [out] at first
    exact first.symm

/-- If `f` is declared among the globals, what is not declared inside `f` is a global. -/
theorem Moment.Encloses.place_global (h : f.Encloses record m) (recorded : Recorded code record)
    (fits : m.spot.Fits m.machine earlier) (own : m.redeclares f name = false)
    (top : f.spot.context.scopes = []) : m.spot.context.scopes.place name = .global := by
  obtain ⟨k, other, -, around, -⟩ := h.chain recorded fits
  have inside := Moment.unbound_inside own around
  rw [top] at around
  apply Scopes.place_of_unbound
  rw [List.take_of_length_le (List.drop_eq_nil_iff.1 around)] at inside
  exact inside

/-- **A function finds those that are declared in the scope of its declaration.** Whatever has been
asked of a session: let `f` and `g` be declarations that have run in the same scope, `g` that of a
function whose name has not been bound there again since. If this is the scope of the globals, or if
`g` ran before `f`, then each reference to the name inside `f`, where `f` does not declare the name
itself, gives the function that was made at `g`. -/
theorem references_find_siblings (sink : Sink) (clock : Clock) (requests : List Request) :
    let s := (WatchedSession.start sink clock).after requests
    s.forget = (Session.start sink clock).after requests ∧
      ∀ later m earlier, s.watch.moments = later ++ m :: earlier →
        ∀ f g name v, Siblings earlier f g name → g.function? = some v →
          f.machine.current = .globals ∨ BoundBefore earlier f g name →
            ∀ r, m.reference? = some r → r.name.text = name →
              f.Encloses earlier m → m.redeclares f name = false →
                ∀ fuel, (evaluator (fuel + 1)).eval (.variable r) m.machine = .ok v m.machine := by
  intro s
  refine ⟨WatchedSession.after_forget _ requests, ?_⟩
  intro later m earlier split f g name v siblings function order r isReference named inside own fuel
  have moments := (WatchedSession.good_after sink clock requests).watch.moments
  have recalls : s.watch.Recalls :=
    WatchedSession.after_recalls (WatchedSession.start_recalls sink clock) requests
  have sound := moments.sound split
  have recorded : Recorded (codeOf requests) earlier := moments.before split
  obtain ⟨remembers, remembered⟩ := recalls.moments.remembers split
  have found := remembers _ name g v siblings.last function
  rw [← siblings.scope] at found
  have reads : m.event.Reads r.mark name := by
    rw [Moment.reference?_eq_some isReference, ← named]
    exact .variable r
  obtain ⟨-, placed, -⟩ := sound.read_placed (codeOf_scoped requests) reads
  have result : Run.readVariable r.mark r.name m.machine = .ok v m.machine := by
    rw [placed]
    rcases siblings.declared recorded remembered function order with top | declared
    · have globals : f.machine.current = .globals := by
        obtain ⟨between, before, split⟩ := List.append_of_mem siblings.recorded
        exact (recorded.sound split).fits.mirrors.globals_iff.2 top
      rw [inside.place_global recorded sound.fits own top]
      rw [globals, ← named] at found
      have looked : m.machine.store.lookup? Environment.globals.path r.name.text = some v :=
        Store.lookup?_of_get? found
      simp only [Run.readVariable, Run.read, Store.get, looked]
    · obtain ⟨hops, place, here⟩ := inside.place recorded sound.fits own declared
      rw [place]
      simp only [Run.readVariable, Run.read]
      rw [named, Store.getAt_of_get? here found]
  exact result

/-! ### Records at work -/

deriving instance DecidableEq for Bindings
deriving instance DecidableEq for Home

instance (f : Moment) (home : Home) : Decidable (f.Declares home) :=
  decidable_of_iff (f.event.declared?.any fun name =>
      home = ⟨f.spot.context.scopes.define name, f.machine.current⟩)
    (by simp only [Option.any_eq_true, decide_eq_true_eq, Moment.Declares])

/-- A moment of a record with two adjacent ones before it, at given distances from the end. -/
theorem exists_of_drop (moments : List Moment) (i j : Nat)
    (p : Moment → List Moment → Moment → Moment → Bool)
    (checked : (match moments.drop i with
      | m :: earlier =>
        match earlier.drop j with
        | a :: b :: _ => p m (earlier.take j) a b
        | _ => false
      | [] => false) = true) :
    ∃ later m between a b before,
      moments = later ++ m :: (between ++ a :: b :: before) ∧ p m between a b = true := by
  split at checked
  · next m earlier here =>
    split at checked
    · next a b before there =>
      refine ⟨moments.take i, m, earlier.take j, a, b, before, ?_, checked⟩
      rw [← there, List.take_append_drop, ← here, List.take_append_drop]
    · cases checked
  · cases checked

theorem references_find_siblings_block :
    ∃ m ∈ ((WatchedSession.start .reliable (.ticking 0)).after [.run 30
          "\x7b fun g() \x7b return true; \x7d fun f() \x7b return g(); \x7d f(); \x7d"]
        ).watch.moments,
      ∃ r v, m.reference? = some r ∧ r.name.text = "g" ∧ v.text = "<fn g>" ∧
        ∀ fuel, (evaluator (fuel + 1)).eval (.variable r) m.machine = .ok v m.machine := by
  let requests : List Request :=
    [.run 30 "\x7b fun g() \x7b return true; \x7d fun f() \x7b return g(); \x7d f(); \x7d"]
  obtain ⟨later, m, between, f, g, before, split, checked⟩ := exists_of_drop
    ((WatchedSession.start .reliable (.ticking 0)).after requests).watch.moments 2 5
    (fun m between f g =>
      m.reference?.any (·.name.text = "g") && g.function?.any (·.text = "<fn g>") &&
        f.machine.current = g.machine.current && f.Declares m.spot.home && !m.redeclares f "g" &&
        g.binds g.machine.current.frame "g" &&
        (between ++ [f]).all fun x => !x.binds g.machine.current.frame "g")
    (by decide +kernel)
  have find := (references_find_siblings .reliable (.ticking 0) requests).2
  generalize (WatchedSession.start .reliable (.ticking 0)).after requests = s at split find ⊢
  simp only [Bool.and_eq_true, Bool.not_eq_true', decide_eq_true_eq, Option.any_eq_true,
    List.all_eq_true] at checked
  obtain ⟨⟨⟨⟨⟨⟨⟨r, reference, named⟩, v, function, text⟩, scope⟩, body⟩, own⟩, binds⟩, unbound⟩ :=
    checked
  have first : lastBinding (g :: before) g.machine.current.frame "g" = some g :=
    lastBinding_cons_self binds
  have last : lastBinding (between ++ f :: g :: before) g.machine.current.frame "g" = some g := by
    rw [List.append_cons, lastBinding_append unbound]
    exact first
  have siblings : Siblings (between ++ f :: g :: before) f g "g" := ⟨by simp, scope, last⟩
  have order : BoundBefore (between ++ f :: g :: before) f g "g" := ⟨between, _, rfl, first⟩
  have mem : m ∈ s.watch.moments := by simp [split]
  exact ⟨m, mem, r, v, reference, named, text, fun fuel =>
    find later m _ split f g "g" v siblings function (.inr order) r reference named (.body body) own
      fuel⟩

/-- In a block, a function does not find one that is declared there behind it: here it finds the
global of the same name. -/
theorem references_miss_later_siblings :
    ∃ later m earlier f g v r,
      ((WatchedSession.start .reliable (.ticking 0)).after [.run 30
          ("fun g() \x7b return false; \x7d" ++
            "\x7b fun f() \x7b return g(); \x7d fun g() \x7b return true; \x7d f(); \x7d")]
        ).watch.moments = later ++ m :: earlier ∧
      Siblings earlier f g "g" ∧ g.function? = some v ∧ m.reference? = some r ∧
        r.name.text = "g" ∧ f.Encloses earlier m ∧ m.redeclares f "g" = false ∧
          ∀ fuel, (evaluator (fuel + 1)).eval (.variable r) m.machine ≠ .ok v m.machine := by
  obtain ⟨later, m, between, g, f, before, split, checked⟩ := exists_of_drop
    ((WatchedSession.start .reliable (.ticking 0)).after [.run 30
      ("fun g() \x7b return false; \x7d" ++
        "\x7b fun f() \x7b return g(); \x7d fun g() \x7b return true; \x7d f(); \x7d")]
      ).watch.moments 2 5
    (fun m between g f =>
      (g.function?.any fun v => m.reference?.any fun r => r.name.text = "g" &&
        match Run.readVariable r.mark r.name m.machine with
        | .ok found _ => !found.same v
        | .error _ _ => true) &&
        f.machine.current = g.machine.current && f.Declares m.spot.home && !m.redeclares f "g" &&
        g.binds g.machine.current.frame "g" &&
        between.all fun x => !x.binds g.machine.current.frame "g")
    (by decide +kernel)
  simp only [Bool.and_eq_true, Bool.not_eq_true', decide_eq_true_eq, Option.any_eq_true,
    List.all_eq_true] at checked
  obtain ⟨⟨⟨⟨⟨⟨v, function, r, reference, named, other⟩, scope⟩, body⟩, own⟩, binds⟩, unbound⟩ :=
    checked
  have last : lastBinding (between ++ g :: f :: before) g.machine.current.frame "g" = some g := by
    rw [lastBinding_append unbound]
    exact lastBinding_cons_self binds
  have siblings : Siblings (between ++ g :: f :: before) f g "g" := ⟨by simp, scope, last⟩
  refine ⟨later, m, _, f, g, v, r, split, siblings, function, reference, named, .body body, own,
    fun fuel found => ?_⟩
  rw [show Run.readVariable r.mark r.name m.machine = .ok v m.machine from found] at other
  obtain ⟨d, -, rfl⟩ := Moment.function?_eq_some function
  simp [Value.same, Callable.same] at other

end Lox
