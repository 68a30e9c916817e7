import Lox.Proofs.Run.Mirror
import Lox.Proofs.Run.Watched
import Lox.Proofs.Scope.Standing

/-!
# What holds all along a watched run

Wherever a run stands, its scopes fit the spot (`Spot.Fits`). A function carries its scopes with it,
and they fit the spot that it was declared at (`Watch.Hosts`), so they still do when it is called.
`Watch.Good` says so of every function that is alive in some variable or field, and keeps the same
for all moments of the record. A watch only grows (`Watch.Grows`), and growth takes nothing of this
away.
-/

namespace Lox

/-! ## Homes -/

/-- The name of a function or a class that is about to be declared. -/
def Event.declared? : Event → Option String
  | .execute (.function declaration) => some declaration.name.text
  | .execute (.classDecl name _ _) => some name.text
  | _ => none

/-- The moment is that of the declaration of what has this home. -/
def Moment.Declares (m : Moment) (home : Home) : Prop :=
  ∃ name, m.event.declared? = some name ∧
    home = ⟨m.spot.context.scopes.define name, m.machine.current⟩

/-- The home is outside of all functions, or is that of a declaration that has run. -/
def Home.Known (home : Home) (earlier : List Moment) : Prop :=
  home = Spot.top.home ∨ ∃ m ∈ earlier, m.Declares home

theorem Home.Known.mono {home : Home} {earlier later : List Moment} (h : home.Known earlier)
    (suffix : earlier <:+ later) : home.Known later := by
  rcases h with top | ⟨m, mem, declares⟩
  · exact .inl top
  · exact .inr ⟨m, suffix.subset mem, declares⟩

/-! ## Spots -/

/-- The spot is that of a machine whose scopes mirror those of the program, and the scope that is
active binds nothing else than them. Some scopes further out are those around the declaration that
the code is part of. -/
structure Spot.Fits (p : Spot) (m : Machine) (earlier : List Moment) : Prop where
  mirrors : Mirrors m.store m.current.path p.context.scopes
  exact : ∀ scope ∈ p.context.scopes.head?, ∀ name,
    (m.store.frame m.current.frame).contains name = true → scope.get? name = some true
  known : p.home.Known earlier
  activation : ∃ k, m.current.path.drop k = p.home.environment.path ∧
    p.context.scopes.drop k = p.home.scopes ∧ (k = 0 → p.context.scopes = [])

/-- More moments may have been recorded. -/
theorem Spot.Fits.mono {p : Spot} {m : Machine} {earlier later : List Moment}
    (h : p.Fits m earlier) (suffix : earlier <:+ later) : p.Fits m later :=
  { h with known := h.known.mono suffix }

section

variable (code : Node → Prop)

/-! ## Moments -/

/-- What is about to be done stands in the code with this context. -/
def Event.StandsAt (c : Context) : Event → Prop
  | .evaluate e => Stands code c (.expression e)
  | .execute s => Stands code c (.statement s)
  | .store target => ∃ value, Stands code c (.expression (.assign target value))
  | .superclass r => ∃ outer name methods,
    Stands code outer (.statement (.classDecl name (some r) methods)) ∧
      c = outer.within (outer.scopes.define name.text)

/-- The moment is one of the code, and its machine fits the spot. -/
structure Moment.Sound (m : Moment) (earlier : List Moment) : Prop where
  stands : m.event.StandsAt code m.spot.context
  fits : m.spot.Fits m.machine earlier

/-- All moments are sound. -/
def Recorded : List Moment → Prop
  | [] => True
  | m :: earlier => m.Sound code earlier ∧ Recorded earlier

/-! ## Values -/

/-- The spot is around the body of the function: the body stands there, and the scopes that the
function carries are those of the spot. -/
structure Watch.Hosts (w : Watch) (p : Spot) (f : Closure) : Prop where
  stands : Stands code (p.inBody f).context (.statements f.declaration.body)
  named : ∀ x ∈ f.declaration.params, IsVariable x.text
  mirrors : Mirrors w.machine.store f.environment.path p.context.scopes
  instance? : f.isInitializer = true →
    ∃ scope ∈ p.context.scopes.head?, scope.get? thisName = some true
  known : p.home.Known w.moments
  activation : ∃ k, f.environment.path.drop k = p.home.environment.path ∧
    p.context.scopes.drop k = p.home.scopes

/-- The spot is around the body of the method. The scope of the instance is still missing from the
scopes that the method carries. -/
structure Watch.HostsMethod (w : Watch) (p : Spot) (f : Closure) : Prop where
  stands : Stands code (p.inBody f).context (.statements f.declaration.body)
  named : ∀ x ∈ f.declaration.params, IsVariable x.text
  known : p.home.Known w.moments
  scopes : ∃ outer : Scopes, p.context.scopes = outer.enterWith thisName ∧
    Mirrors w.machine.store f.environment.path outer ∧
      ∃ k, f.environment.path.drop k = p.home.environment.path ∧ outer.drop k = p.home.scopes

/-- The methods of the class have the spots that the watch has for it. -/
def Watch.AdmitsClass (w : Watch) (c : Class) : Prop :=
  ∀ level ∈ c.lineage, level.id < w.machine.store.nextObject ∧
    ∀ name f, level.methods.get? name = some f → w.HostsMethod code (w.spots level.id) f

/-- The functions that the value has, or gives access to, have the spots that the watch has for
them. -/
def Watch.Admits (w : Watch) : Value → Prop
  | .callable (.function id f) =>
    id < w.machine.store.nextObject ∧ w.Hosts code (w.spots id) f
  | .callable (.ofClass c) => w.AdmitsClass code c
  | .ofInstance i => w.AdmitsClass code i.ofClass
  | .nil | .boolean _ | .number _ | .string _ | .callable (.native _) => True

/-- The variable of this name may have the value. -/
structure Watch.Holds (w : Watch) (name : String) (v : Value) : Prop where
  admits : w.Admits code v
  this : name = thisName → ∃ i, v = .ofInstance i
  super : name = superName → ∃ c, v = .callable (.ofClass c)

/-- What holds all along a watched run. -/
structure Watch.Good (w : Watch) : Prop where
  globals : 0 < w.machine.store.frames.size
  values : ∀ id name v, (w.machine.store.frame id).get? name = some v → w.Holds code name v
  fields : ∀ id name v, (w.machine.store.fieldsOf id).get? name = some v → w.Admits code v
  moments : Recorded code w.moments

end

theorem Event.StandsAt.mono {code code' : Node → Prop} {c : Context} {event : Event}
    (h : event.StandsAt code c) (more : ∀ n, code n → code' n) : event.StandsAt code' c := by
  cases event with
  | evaluate e => exact Stands.mono h more
  | execute s => exact Stands.mono h more
  | store target =>
    obtain ⟨value, stands⟩ := h
    exact ⟨value, stands.mono more⟩
  | superclass r =>
    obtain ⟨outer, name, methods, stands, same⟩ := h
    exact ⟨outer, name, methods, stands.mono more, same⟩

/-! ## Growth -/

/-- What a part of a run leaves of a watch: nothing that was there is gone, and only the `changing`
ones of the scopes that were there have more names than before. -/
structure Watch.Grows (changing : FrameId → Prop) (w w' : Watch) : Prop where
  frames : w.machine.store.frames.size ≤ w'.machine.store.frames.size
  names : ∀ id name, (w.machine.store.frame id).contains name = true →
    (w'.machine.store.frame id).contains name = true
  fixed : ∀ id < w.machine.store.frames.size, ¬ changing id → ∀ name,
    (w'.machine.store.frame id).contains name = (w.machine.store.frame id).contains name
  objects : w.machine.store.nextObject ≤ w'.machine.store.nextObject
  spots : ∀ id < w.machine.store.nextObject, w'.spots id = w.spots id
  moments : w.moments <:+ w'.moments

/-- No scope changes. -/
def noFrame : FrameId → Prop := fun _ => False

namespace Watch.Grows

variable {changing wider : FrameId → Prop} {w w' w'' : Watch}

theorem refl (changing : FrameId → Prop) (w : Watch) : w.Grows changing w :=
  ⟨Nat.le_refl _, fun _ _ h => h, fun _ _ _ _ => rfl, Nat.le_refl _, fun _ _ => rfl,
    List.suffix_refl _⟩

theorem trans (first : w.Grows changing w') (second : w'.Grows changing w'') :
    w.Grows changing w'' where
  frames := Nat.le_trans first.frames second.frames
  names id name h := second.names id name (first.names id name h)
  fixed id lt kept name :=
    (second.fixed id (Nat.lt_of_lt_of_le lt first.frames) kept name).trans
      (first.fixed id lt kept name)
  objects := Nat.le_trans first.objects second.objects
  spots id lt :=
    (second.spots id (Nat.lt_of_lt_of_le lt first.objects)).trans (first.spots id lt)
  moments := first.moments.trans second.moments

/-- Another scope is active. -/
theorem withCurrent (changing : FrameId → Prop) (w : Watch) (e : Environment) :
    w.Grows changing { w with machine := { w.machine with current := e } } :=
  { Watch.Grows.refl changing w with }

/-- It is enough that the scopes that were there first do not change. -/
theorem widen (h : w.Grows changing w')
    (within : ∀ id < w.machine.store.frames.size, changing id → wider id) : w.Grows wider w' :=
  { h with fixed := fun id lt kept => h.fixed id lt fun changes => kept (within id lt changes) }

end Watch.Grows

section

variable {code : Node → Prop} {changing : FrameId → Prop} {w w' : Watch} {p : Spot} {f : Closure}

theorem Mirrors.grows {path : List FrameId} {scopes : Scopes}
    (h : Mirrors w.machine.store path scopes) (grows : w.Grows changing w') :
    Mirrors w'.machine.store path scopes :=
  h.mono grows.frames grows.names

theorem Watch.Hosts.grows (h : w.Hosts code p f) (grows : w.Grows changing w') :
    w'.Hosts code p f :=
  { h with mirrors := h.mirrors.grows grows, known := h.known.mono grows.moments }

theorem Watch.HostsMethod.grows (h : w.HostsMethod code p f) (grows : w.Grows changing w') :
    w'.HostsMethod code p f := by
  obtain ⟨outer, scopes, mirrors, activation⟩ := h.scopes
  exact ⟨h.stands, h.named, h.known.mono grows.moments,
    outer, scopes, mirrors.grows grows, activation⟩

theorem Watch.AdmitsClass.grows {c : Class} (h : w.AdmitsClass code c)
    (grows : w.Grows changing w') : w'.AdmitsClass code c := by
  intro level mem
  obtain ⟨lt, methods⟩ := h level mem
  refine ⟨Nat.lt_of_lt_of_le lt grows.objects, fun name f found => ?_⟩
  rw [grows.spots level.id lt]
  exact (methods name f found).grows grows

theorem Watch.Admits.grows {v : Value} (h : w.Admits code v) (grows : w.Grows changing w') :
    w'.Admits code v := by
  match v with
  | .callable (.function id f) =>
    refine ⟨Nat.lt_of_lt_of_le h.1 grows.objects, ?_⟩
    rw [grows.spots id h.1]
    exact h.2.grows grows
  | .callable (.ofClass c) => exact Watch.AdmitsClass.grows h grows
  | .ofInstance i => exact Watch.AdmitsClass.grows h grows
  | .nil | .boolean _ | .number _ | .string _ | .callable (.native _) => trivial

/-- A function is admitted whose spot is the one that the watch has for it. -/
theorem Watch.Hosts.admits {id : ObjectId} (h : w.Hosts code p f)
    (lt : id < w.machine.store.nextObject) (spot : w.spots id = p) :
    w.Admits code (.callable (.function id f)) :=
  ⟨lt, spot ▸ h⟩

theorem Watch.Holds.grows {name : String} {v : Value} (h : w.Holds code name v)
    (grows : w.Grows changing w') : w'.Holds code name v :=
  { h with admits := h.admits.grows grows }

/-- A variable of the program may have any value that is admitted. -/
theorem Watch.Holds.of_variable {name : String} {v : Value} (admits : w.Admits code v)
    (named : IsVariable name) : w.Holds code name v :=
  ⟨admits, fun eq => absurd eq named.1, fun eq => absurd eq named.2⟩

/-- A spot fits as long as the scope that is active does not change. -/
theorem Spot.Fits.grows (h : p.Fits w.machine w.moments) (globals : 0 < w.machine.store.frames.size)
    (grows : w.Grows changing w') (current : w'.machine.current = w.machine.current)
    (kept : ¬ changing w.machine.current.frame) : p.Fits w'.machine w'.moments := by
  have lt : w.machine.current.frame < w.machine.store.frames.size :=
    h.mirrors.lt_size globals _ List.mem_cons_self
  refine ⟨?_, fun scope mem name bound => ?_, h.known.mono grows.moments, ?_⟩
  · rw [current]
    exact h.mirrors.grows grows
  · rw [current, grows.fixed _ lt kept] at bound
    exact h.exact scope mem name bound
  · rw [current]
    exact h.activation

/-- Growth keeps a watch good if what is new in it is. -/
theorem Watch.Good.grows (h : w.Good code) (grows : w.Grows changing w')
    (values : ∀ id name v, (w'.machine.store.frame id).get? name = some v →
      (w.machine.store.frame id).get? name = some v ∨ w'.Holds code name v)
    (fields : ∀ id name v, (w'.machine.store.fieldsOf id).get? name = some v →
      (w.machine.store.fieldsOf id).get? name = some v ∨ w'.Admits code v)
    (moments : Recorded code w'.moments) : w'.Good code where
  globals := Nat.lt_of_lt_of_le h.globals grows.frames
  values id name v found := by
    rcases values id name v found with old | new
    · exact (h.values id name v old).grows grows
    · exact new
  fields id name v found := by
    rcases fields id name v found with old | new
    · exact (h.fields id name v old).grows grows
    · exact new
  moments := moments

end

end Lox
