import Lox.Proofs.Run.Keeps

/-!
# Spots of scopes that are entered and extended

A block, a call and a declaration change the scopes of the run and those of the program in the same
way, so the spot behind fits if the one before does.
-/

namespace Lox

variable {code : Node → Prop} {changing : FrameId → Prop} {w w' : Watch} {p q : Spot}

@[simp] theorem Spot.within_context (p : Spot) (scopes : Scopes) :
    (p.within scopes).context = p.context.within scopes := rfl

@[simp] theorem Spot.within_home (p : Spot) (scopes : Scopes) :
    (p.within scopes).home = p.home := rfl

/-- A spot fits inside one more scope that binds the names of one more scope of the program. -/
theorem Spot.Fits.inside {m : Machine} {earlier : List Moment} {id : FrameId}
    {path : List FrameId} {scope : Bindings Bool} {scopes : Scopes}
    (current : m.current = ⟨id, path⟩) (inner : q.context.scopes = scope :: scopes)
    (positive : 0 < id) (lt : id < m.store.frames.size)
    (same : ∀ name, (m.store.frame id).contains name = true ↔ scope.get? name = some true)
    (mirrors : Mirrors m.store path scopes) (known : q.home.Known earlier)
    (activation : ∃ k, path.drop k = q.home.environment.path ∧ scopes.drop k = q.home.scopes) :
    q.Fits m earlier := by
  refine ⟨?_, fun s mem name bound => ?_, known, ?_⟩
  · rw [current, inner]
    exact .inside positive lt (fun name ready => (same name).2 ready) mirrors
  · rw [inner] at mem
    cases mem
    rw [current] at bound
    exact (same name).1 bound
  · obtain ⟨k, out, around⟩ := activation
    refine ⟨k + 1, ?_, ?_, by simp⟩
    · rw [current]
      exact out
    · rw [inner]
      exact around

/-- A block stands in a scope without names. -/
theorem Spot.Fits.block {id : FrameId} (fits : p.Fits w.machine w.moments)
    (current : w'.machine.current = ⟨id, w.machine.current.path⟩) (grows : w.Grows changing w')
    (positive : 0 < id) (lt : id < w'.machine.store.frames.size)
    (empty : w'.machine.store.frame id = Bindings.empty) :
    (p.within p.context.scopes.enter).Fits w'.machine w'.moments := by
  obtain ⟨k, out, around, -⟩ := fits.activation
  refine .inside current rfl positive lt (fun name => ?_) (fits.mirrors.grows grows)
    (fits.known.mono grows.moments) ⟨k, out, around⟩
  simp [empty, Bindings.contains]

theorem contains_parameters {params : List Name} {arguments : List Value}
    (length : arguments.length = params.length) (name : String) :
    (Run.parameters params arguments).contains name = decide (name ∈ params.map Name.text) := by
  rw [Run.parameters, Bindings.contains_ofList, List.map_fst_zip (by simp [length])]

/-- The body of a function stands in a scope with the parameters. -/
theorem Watch.Hosts.body {f : Closure} {arguments : List Value} {id : FrameId}
    (hosts : w.Hosts code p f) (length : arguments.length = f.declaration.params.length)
    (current : w.machine.current = ⟨id, f.environment.path⟩) (positive : 0 < id)
    (lt : id < w.machine.store.frames.size)
    (bound : w.machine.store.frame id = Run.parameters f.declaration.params arguments) :
    (p.inBody f).Fits w.machine w.moments := by
  refine .inside current (Scopes.enterFunction_eq _ _) positive lt (fun name => ?_) hosts.mirrors
    hosts.known hosts.activation
  rw [bound, contains_parameters length, get?_paramScope]
  by_cases mem : name ∈ f.declaration.params.map Name.text <;> simp [mem]

/-- In its initializer a variable is declared, but not bound yet. -/
theorem Spot.Fits.declare {m : Machine} {earlier : List Moment} (fits : p.Fits m earlier)
    (name : String) : (p.within (p.context.scopes.declare name)).Fits m earlier := by
  cases hs : p.context.scopes with
  | nil => simpa [Scopes.declare, Spot.within, ← hs] using fits
  | cons scope rest =>
    simp only [Scopes.declare]
    split
    · simpa [Spot.within, ← hs] using fits
    · next fresh =>
      have mirrors := fits.mirrors
      rw [hs] at mirrors
      have unbound : (m.store.frame m.current.frame).contains name = false := by
        refine Bool.eq_false_iff.2 fun bound => fresh ?_
        have ready := fits.exact scope (by simp [hs]) name bound
        simp [Bindings.contains, ready]
      refine ⟨?_, fun s mem other bound => ?_, fits.known, ?_⟩
      · refine Mirrors.setInnermost mirrors fun other ready => ?_
        obtain ⟨id, found, binds⟩ := mirrors.at_position (k := 0) rfl
        cases found
        rw [Bindings.get?_insert] at ready
        split at ready
        · simp at ready
        · exact binds other ready
      · cases mem
        have ne : other ≠ name := by
          rintro rfl
          rw [unbound] at bound
          cases bound
        rw [Bindings.get?_insert_of_ne _ ne]
        exact fits.exact scope (by simp [hs]) other bound
      · obtain ⟨k, out, around, outermost⟩ := fits.activation
        cases k with
        | zero => simp [hs] at outermost
        | succ k =>
          refine ⟨k + 1, out, ?_, by simp⟩
          rw [hs] at around
          exact around

/-- Behind a declaration the name is bound. -/
theorem Spot.Fits.define (fits : p.Fits w.machine w.moments)
    (globals : 0 < w.machine.store.frames.size) (grows : w.Grows changing w')
    (current : w'.machine.current = w.machine.current) {name : String} {v : Value}
    (store : w'.machine.store = w.machine.store.define w.machine.current name v) :
    (p.within (p.context.scopes.define name)).Fits w'.machine w'.moments := by
  have lt := fits.mirrors.lt_size globals _ List.mem_cons_self
  have known := fits.known.mono grows.moments
  have mirrors := fits.mirrors.grows grows
  have bound : ∀ other, (w'.machine.store.frame w'.machine.current.frame).contains other =
      (decide (other = name) ||
        (w.machine.store.frame w.machine.current.frame).contains other) := by
    intro other
    rw [current, store, Store.define, Store.contains_setVariable]
    simp [lt]
  cases hs : p.context.scopes with
  | nil =>
    refine ⟨?_, by simp [Scopes.define], known, ?_⟩
    · rw [current]
      simpa [Scopes.define, hs] using mirrors
    · rw [current]
      simpa [Scopes.define, hs] using fits.activation
  | cons scope rest =>
    refine ⟨?_, fun s mem other here => ?_, known, ?_⟩
    · rw [current]
      rw [hs] at mirrors
      refine Mirrors.setInnermost mirrors fun other ready => ?_
      have here := bound other
      rw [current] at here
      rw [here]
      rw [Bindings.get?_insert] at ready
      split at ready
      · next same => simp [same]
      · obtain ⟨id, found, binds⟩ := (hs ▸ fits.mirrors).at_position (k := 0) rfl
        cases found
        simp [binds other ready]
    · cases mem
      rw [bound] at here
      rw [Bindings.get?_insert]
      split
      · rfl
      · next ne => exact fits.exact scope (by simp [hs]) other (by simpa [ne] using here)
    · obtain ⟨k, out, around, outermost⟩ := fits.activation
      cases k with
      | zero => simp [hs] at outermost
      | succ k =>
        refine ⟨k + 1, ?_, ?_, by simp⟩
        · rw [current]
          exact out
        · rw [hs] at around
          exact around

/-- Nothing around the statements of a program but the globals. -/
theorem Spot.top_fits {m : Machine} (current : m.current = .globals) (earlier : List Moment) :
    Spot.top.Fits m earlier := by
  refine ⟨?_, by simp [Spot.top, Context.top], .inl rfl, 0, ?_, rfl, fun _ => rfl⟩
  · rw [current]
    exact .globals
  · rw [current]
    rfl

end Lox
