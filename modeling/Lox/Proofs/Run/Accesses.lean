import Lox.Proofs.Run.StatementRules

/-!
# Accesses at a distance

What a run reads and writes at a sound moment. A read finds its variable, and finds it where
resolution has. A write finds its variable unless it is an early store, and then fails.
-/

namespace Lox

/-- The event looks up a variable of this name at this place. -/
inductive Event.Reads : Event → Place → String → Prop
  | variable (r : Reference Place) : (Event.evaluate (.variable r)).Reads r.mark r.name.text
  | this (line : Nat) (mark : Place) : (Event.evaluate (.this line mark)).Reads mark thisName
  | super (line : Nat) (mark : Place) (method : Name) :
    (Event.evaluate (.super line mark method)).Reads mark superName
  | superclass (r : Reference Place) : (Event.superclass r).Reads r.mark r.name.text

/-- In the scopes of the program this one is the innermost that declares the name, and declares it
ready to be read. -/
structure Scopes.DeclaredAt (scopes : Scopes) (hops : Nat) (name : String) : Prop where
  ready : ∃ scope, scopes[hops]? = some scope ∧ scope.get? name = some true
  innermost : ∀ k < hops, ∀ inner, scopes[k]? = some inner → inner.contains name = false

variable {code : Node → Prop} {m : Moment} {earlier : List Moment} {place : Place} {name : String}
  {hops : Nat}

/-- A read has the place that resolution gives it, and its variable is finished. -/
theorem Moment.Sound.read_placed (h : m.Sound code earlier)
    (rooted : ∀ n, code n → n.Scoped .top) (reads : m.event.Reads place name) :
    m.spot.context.Regular ∧ place = m.spot.context.scopes.place name ∧
      m.spot.context.scopes.isUnfinished name = false := by
  have stands := h.stands
  generalize m.event = event at reads stands
  cases reads with
  | «variable» r =>
    obtain ⟨isScoped, regular⟩ := stands.scoped rooted
    exact ⟨regular, isScoped⟩
  | this line mark =>
    obtain ⟨isScoped, regular⟩ := stands.scoped rooted
    exact ⟨regular, isScoped.1, regular.special_finished fun named => named.1 rfl⟩
  | super line mark method =>
    obtain ⟨isScoped, regular⟩ := stands.scoped rooted
    exact ⟨regular, isScoped.1, regular.special_finished fun named => named.2 rfl⟩
  | superclass r =>
    obtain ⟨outer, name, methods, stands, context⟩ := stands
    obtain ⟨⟨named, placed, -⟩, settled⟩ := stands.scoped rooted
    have inner := Context.Settled.define settled named
    rw [context]
    exact ⟨inner.regular, placed r rfl, inner.finished _⟩

/-- A read finds its variable in the scope that stands for the one that declares it. -/
theorem Moment.Sound.read_found (h : m.Sound code earlier) (rooted : ∀ n, code n → n.Scoped .top)
    (reads : m.event.Reads (.scope hops) name) :
    m.spot.context.scopes.DeclaredAt hops name ∧
      ∃ id, m.machine.current.path[hops]? = some id ∧
        (m.machine.store.frame id).contains name = true := by
  obtain ⟨regular, placed, finished⟩ := h.read_placed rooted reads
  obtain ⟨-, -, -, innermost⟩ := Scopes.place_scope placed.symm
  exact ⟨⟨regular.ready placed.symm finished, innermost⟩,
    h.fits.mirrors.resolved regular placed.symm finished⟩

/-- A read at a distance gives a value. -/
theorem Moment.Sound.read_succeeds (h : m.Sound code earlier)
    (rooted : ∀ n, code n → n.Scoped .top) (reads : m.event.Reads (.scope hops) name) :
    ∃ v, m.machine.store.getAt m.machine.current hops name = .ok v := by
  obtain ⟨-, id, found, bound⟩ := h.read_found rooted reads
  obtain ⟨v, result, -⟩ := Store.getAt_of_contains found bound
  exact ⟨v, result⟩

/-- The instance of a `super` expression is one scope inside of the superclass. -/
theorem Moment.Sound.receiver_succeeds (h : m.Sound code earlier)
    (rooted : ∀ n, code n → n.Scoped .top) {line : Nat} {method : Name}
    (event : m.event = .evaluate (.super line (.scope hops) method)) :
    ∃ inner v, hops = inner + 1 ∧
      m.machine.store.getAt m.machine.current inner thisName = .ok v := by
  have stands := h.stands
  rw [event] at stands
  obtain ⟨⟨placed, derived⟩, regular⟩ := stands.scoped rooted
  obtain ⟨inner, own, outer, place, -, -, found, bound⟩ := h.fits.superclass regular derived
  obtain ⟨v, result, -⟩ := Store.getAt_of_contains found bound
  rw [place] at placed
  cases placed
  exact ⟨inner, v, rfl, result⟩

/-- A write at a distance finds its variable, unless it is an early store. -/
theorem Moment.Sound.store_succeeds (h : m.Sound code earlier)
    (rooted : ∀ n, code n → n.Scoped .top) {target : Reference Place}
    (event : m.event = .store target) (mark : target.mark = .scope hops)
    (late : m.isEarlyStore = false) (v : Value) :
    ∃ s, m.machine.store.assignAt m.machine.current hops target.name.text v = .ok s := by
  have stands := h.stands
  simp only [Moment.isEarlyStore, event] at late
  rw [event] at stands
  obtain ⟨value, stands⟩ := stands
  obtain ⟨⟨placed, -⟩, regular⟩ := stands.scoped rooted
  obtain ⟨id, found, bound⟩ :=
    h.fits.mirrors.resolved regular (placed.symm.trans mark) late
  exact ⟨_, Store.assignAt_of_contains found bound v⟩

/-- An early store misses its variable in the innermost scope. -/
theorem Moment.Sound.early_store_fails (h : m.Sound code earlier)
    (rooted : ∀ n, code n → n.Scoped .top) {target : Reference Place}
    (event : m.event = .store target) (early : m.isEarlyStore = true) (v : Value) :
    target.mark = .scope 0 ∧
      m.machine.store.assignAt m.machine.current 0 target.name.text v =
        .error (.mismatch (.missingVariable target.name.text 0)) := by
  have stands := h.stands
  simp only [Moment.isEarlyStore, event] at early
  rw [event] at stands
  obtain ⟨value, stands⟩ := stands
  obtain ⟨⟨placed, -⟩, -⟩ := stands.scoped rooted
  exact ⟨placed.trans (Scopes.place_unfinished early),
    Store.assignAt_of_not_contains rfl (h.fits.unbound early) v⟩

end Lox
