import Lox.Proofs.Receiver.Nested
import Lox.Proofs.Run.Keeps

/-!
# Steps of a run and the sorts of scopes

A function carries the scopes that its body is nested in (`Watch.Houses`), and so it is with every
method (`Watch.HousesMethod`). `Watch.Settled` says that all functions that are alive do, that all
scopes are of one of the three sorts, and that none has changed its sort since any moment on record.
`Proceeds` says of a part of a run that it leaves things so. There is one lemma for each way to put
parts together and one for each step on the machine.
-/

namespace Lox

section

variable (code : Node → Prop)

/-! ## Functions and values -/

/-- The body of the function is nested in the scopes that the function carries, inside the one that a
call opens. -/
structure Watch.Houses (w : Watch) (f : Closure) : Prop where
  named : ∀ x ∈ f.declaration.params, IsVariable x.text
  body : ∃ o c, ∀ id, Nested code w.machine.store w.moments o (id :: f.environment.path) c
    (.statements f.declaration.body)

/-- The method stands in a class, and carries the scopes around its methods. -/
def Watch.HousesMethod (w : Watch) (f : Closure) : Prop :=
  ∃ o path c name superclass methods parent,
    Nested code w.machine.store w.moments o path c
        (.statement (.classDecl name superclass methods)) ∧
      f.declaration ∈ methods ∧
        ClassScopes w.machine.store w.moments path superclass parent f.environment.path

/-- The methods of the class and of its superclasses carry the scopes around them. -/
def Watch.KnowsClass (w : Watch) (c : Class) : Prop :=
  ∀ level ∈ c.lineage, ∀ name f, level.methods.get? name = some f → w.HousesMethod code f

/-- The functions that the value has, or gives access to, carry the scopes around them. -/
def Watch.Knows (w : Watch) : Value → Prop
  | .callable (.function _ f) => w.Houses code f
  | .callable (.ofClass c) => w.KnowsClass code c
  | .ofInstance i => w.KnowsClass code i.ofClass
  | .nil | .boolean _ | .number _ | .string _ | .callable (.native _) => True

/-! ## Moments -/

/-- What holds of each moment. -/
structure Moment.Seated (m : Moment) (earlier : List Moment) : Prop where
  /-- An expression is evaluated in the scopes that it is nested in. -/
  nested : ∀ e, m.event = .evaluate e →
    ∃ o c, Nested code m.machine.store earlier o m.machine.current.path c (.expression e)
  sorted : ∀ id < m.machine.store.frames.size, m.machine.store.IsSorted id
  since : ∀ m' ∈ earlier, m'.machine.store.Settles m.machine.store

/-- It holds of all moments on record. -/
def AllSeated : List Moment → Prop
  | [] => True
  | m :: earlier => m.Seated code earlier ∧ AllSeated earlier

/-- What holds all along a watched run. -/
structure Watch.Settled (w : Watch) : Prop where
  globals : w.machine.store.IsPlain Environment.globals.frame
  sorted : ∀ id < w.machine.store.frames.size, w.machine.store.IsSorted id
  values : ∀ id name v, (w.machine.store.frame id).get? name = some v → w.Knows code v
  fields : ∀ id name v, (w.machine.store.fieldsOf id).get? name = some v → w.Knows code v
  moments : AllSeated code w.moments
  since : ∀ m ∈ w.moments, m.machine.store.Settles w.machine.store

/-- The run is at the part: the scopes that are active are those that the part is nested in, and the
innermost one takes variables. -/
structure Watch.At (w : Watch) (n : Node) : Prop where
  nested : ∃ o c, Nested code w.machine.store w.moments o w.machine.current.path c n
  plain : w.machine.store.IsPlain w.machine.current.frame

end

/-! ## Later watches -/

/-- Of a watch nothing is lost in a later one. -/
structure Watch.Extends (w w' : Watch) : Prop where
  settles : w.machine.store.Settles w'.machine.store
  moments : w.moments <:+ w'.moments

/-- The watch is settled again, and the scope that was active is active again. -/
structure Watch.Leads (code : Node → Prop) (w w' : Watch) : Prop extends w.Extends w' where
  settled : w'.Settled code
  current : w'.machine.current = w.machine.current

variable {code : Node → Prop} {w w' w'' : Watch}

theorem Watch.Extends.trans (first : w.Extends w') (second : w'.Extends w'') : w.Extends w'' :=
  ⟨first.settles.trans second.settles, first.moments.trans second.moments⟩

theorem Watch.Houses.extends {f : Closure} (h : w.Houses code f) (later : w.Extends w') :
    w'.Houses code f := by
  obtain ⟨o, c, nested⟩ := h.body
  exact ⟨h.named, o, c, fun id => (nested id).mono later.settles later.moments⟩

theorem Watch.HousesMethod.extends {f : Closure} (h : w.HousesMethod code f)
    (later : w.Extends w') : w'.HousesMethod code f := by
  obtain ⟨o, path, c, name, superclass, methods, parent, nested, mem, scopes⟩ := h
  exact ⟨o, path, c, name, superclass, methods, parent, nested.mono later.settles later.moments,
    mem, scopes.mono later.settles later.moments⟩

theorem Watch.KnowsClass.extends {c : Class} (h : w.KnowsClass code c) (later : w.Extends w') :
    w'.KnowsClass code c :=
  fun level mem name f found => (h level mem name f found).extends later

theorem Watch.Knows.extends {v : Value} (h : w.Knows code v) (later : w.Extends w') :
    w'.Knows code v := by
  match v with
  | .callable (.function _ f) => exact Watch.Houses.extends h later
  | .callable (.ofClass c) => exact Watch.KnowsClass.extends h later
  | .ofInstance i => exact Watch.KnowsClass.extends h later
  | .nil | .boolean _ | .number _ | .string _ | .callable (.native _) => trivial

theorem Watch.KnowsClass.method {c : Class} {name : String} {f : Closure}
    (h : w.KnowsClass code c) (found : c.findMethod? name = some f) : w.HousesMethod code f := by
  obtain ⟨level, mem, here⟩ := List.exists_of_findSome?_eq_some found
  exact h level mem name f here

namespace Watch.Leads

theorem refl (settled : w.Settled code) : w.Leads code w :=
  ⟨⟨.refl _, List.suffix_refl _⟩, settled, rfl⟩

theorem trans (first : w.Leads code w') (second : w'.Leads code w'') : w.Leads code w'' :=
  ⟨first.toExtends.trans second.toExtends, second.settled, second.current.trans first.current⟩

end Watch.Leads

/-! ## Where a run is -/

namespace Watch.At

variable {n : Node}

/-- What the run does elsewhere leaves it where it is. -/
theorem leads (h : w.At code n) (leads : w.Leads code w') : w'.At code n := by
  obtain ⟨o, c, nested⟩ := h.nested
  constructor
  · rw [leads.current]
    exact ⟨o, c, nested.mono leads.settles leads.moments⟩
  · rw [leads.current]
    exact leads.settles.plain _ h.plain

/-- A part that opens no scope has the scopes of its parts. -/
theorem part (h : w.At code n) (opens : n.opensScope = false) {part : Node}
    (mem : ∀ c, ∃ inner, (inner, part) ∈ n.parts c) : w.At code part := by
  obtain ⟨o, c, nested⟩ := h.nested
  obtain ⟨inner, isPart⟩ := mem c
  exact ⟨⟨o, inner, nested.part opens isPart⟩, h.plain⟩

theorem operand {e : Expr Place} (h : w.At code (.expression e)) {operand : Expr Place}
    (mem : operand ∈ e.operands) : w.At code (.expression operand) :=
  h.part rfl fun c => ⟨c, List.mem_map_of_mem mem⟩

theorem head {s : Stmt Place} {ss : List (Stmt Place)} (h : w.At code (.statements (s :: ss))) :
    w.At code (.statement s) :=
  h.part rfl fun c => ⟨c, List.mem_cons_self⟩

theorem tail {s : Stmt Place} {ss : List (Stmt Place)} (h : w.At code (.statements (s :: ss))) :
    w.At code (.statements ss) :=
  h.part rfl fun _ => ⟨_, List.mem_cons_of_mem _ List.mem_cons_self⟩

/-- The part may stand where the run is. -/
theorem isScoped (rooted : ∀ n, code n → n.Scoped .top) (h : w.At code n) : ∃ c, n.Scoped c := by
  obtain ⟨o, c, nested⟩ := h.nested
  exact ⟨c, (nested.stands.scoped rooted).1⟩

end Watch.At

/-! ## Steps on the machine -/

namespace Watch.Leads

/-- A step on the machine leads on if what is new in the store is in order. -/
theorem step (settled : w.Settled code) (moments : w'.moments = w.moments)
    (current : w'.machine.current = w.machine.current)
    (settles : w.machine.store.Settles w'.machine.store)
    (sorted : ∀ id < w'.machine.store.frames.size, w'.machine.store.IsSorted id)
    (values : ∀ id name v, (w'.machine.store.frame id).get? name = some v →
      (w.machine.store.frame id).get? name = some v ∨ w.Knows code v)
    (fields : ∀ id name v, (w'.machine.store.fieldsOf id).get? name = some v →
      (w.machine.store.fieldsOf id).get? name = some v ∨ w.Knows code v) :
    w.Leads code w' := by
  have later : w.Extends w' := by
    constructor
    · exact settles
    · exact moments ▸ List.suffix_refl w.moments
  refine ⟨later, ⟨settles.plain _ settled.globals, sorted, ?_, ?_, ?_, ?_⟩, current⟩
  · intro id name v found
    rcases values id name v found with old | known
    · exact (settled.values id name v old).extends later
    · exact known.extends later
  · intro id name v found
    rcases fields id name v found with old | known
    · exact (settled.fields id name v old).extends later
    · exact known.extends later
  · rw [moments]
    exact settled.moments
  · intro m mem
    rw [moments] at mem
    exact (settled.since m mem).trans settles

/-- A step that touches no scope. -/
theorem frames (settled : w.Settled code) (moments : w'.moments = w.moments)
    (current : w'.machine.current = w.machine.current)
    (same : w'.machine.store.frames = w.machine.store.frames)
    (fields : ∀ id name v, (w'.machine.store.fieldsOf id).get? name = some v →
      (w.machine.store.fieldsOf id).get? name = some v ∨ w.Knows code v) :
    w.Leads code w' := by
  have settles : w.machine.store.Settles w'.machine.store := .of_frames same
  apply step settled moments current settles ?_ ?_ fields
  · intro id lt
    rw [same] at lt
    exact settles.sorted (settled.sorted id lt)
  · intro id name v found
    rw [Store.frame, same, ← Store.frame] at found
    exact .inl found

/-- A new scope is of one of the sorts. -/
theorem pushFrame (settled : w.Settled code) {bound : Bindings Value}
    (sort : (w.machine.store.pushFrame bound).IsSorted w.machine.store.frames.size)
    (known : ∀ name v, bound.get? name = some v → w.Knows code v) :
    w.Leads code (w.on { w.machine with store := w.machine.store.pushFrame bound }) := by
  have settles := Store.Settles.pushFrame w.machine.store bound
  refine step settled rfl rfl settles ?_ ?_ ?_
  · intro id lt
    simp only [Watch.on, Store.size_pushFrame] at lt
    by_cases new : id = w.machine.store.frames.size
    · rw [new]
      exact sort
    · exact settles.sorted (settled.sorted id (by omega))
  · intro id name v found
    simp only [Watch.on, Store.frame_pushFrame] at found
    split at found
    · exact .inr (known name v found)
    · exact .inl found
  · exact fun _ _ _ found => .inl found

/-- A variable of a plain scope is set. -/
theorem setVariable (settled : w.Settled code) {id : FrameId} {name : String} {v : Value}
    (plain : w.machine.store.IsPlain id) (named : IsVariable name) (known : w.Knows code v) :
    w.Leads code (w.on { w.machine with store := w.machine.store.setVariable id name v }) := by
  have settles := Store.Settles.setVariable plain named v
  refine step settled rfl rfl settles ?_ ?_ ?_
  · intro other lt
    simp only [Watch.on, Store.size_setVariable] at lt
    exact settles.sorted (settled.sorted other lt)
  · intro other x value found
    simp only [Watch.on, Store.get?_setVariable] at found
    split at found
    · cases found
      exact .inr known
    · exact .inl found
  · exact fun _ _ _ found => .inl found

/-- A moment is recorded. -/
theorem note (settled : w.Settled code) (p : Spot) (event : Event)
    (nested : ∀ e, event = .evaluate e → w.At code (.expression e)) :
    w.Leads code { w with moments := ⟨event, p, w.machine⟩ :: w.moments } := by
  let w' : Watch := { w with moments := ⟨event, p, w.machine⟩ :: w.moments }
  have later : w.Extends w' := ⟨.refl _, List.suffix_cons _ _⟩
  have seated : Moment.Seated code ⟨event, p, w.machine⟩ w.moments :=
    ⟨fun e same => (nested e same).nested, settled.sorted, settled.since⟩
  refine ⟨later, ⟨settled.globals, settled.sorted, ?_, ?_, ⟨seated, settled.moments⟩, ?_⟩, rfl⟩
  · exact fun id name v found => (settled.values id name v found).extends later
  · exact fun id name v found => (settled.fields id name v found).extends later
  · intro m mem
    rcases List.mem_cons.1 mem with rfl | old
    · exact .refl _
    · exact settled.since m old

end Watch.Leads

/-- Another scope may be active. -/
theorem Watch.Settled.withCurrent (h : w.Settled code) (e : Environment) :
    (w.on { w.machine with current := e }).Settled code := by
  have later : w.Extends (w.on { w.machine with current := e }) :=
    ⟨.refl _, List.suffix_refl _⟩
  refine ⟨h.globals, h.sorted, ?_, ?_, h.moments, h.since⟩
  · exact fun id name v found => (h.values id name v found).extends later
  · exact fun id name v found => (h.fields id name v found).extends later

/-! ## Parts of a run -/

/-- The part of a run leaves the watch settled and establishes `Q`. -/
def Proceeds (code : Node → Prop) {α : Type} (w : Watch) (t : Watched α) (Q : α → Watch → Prop) :
    Prop :=
  match t w with
  | .ok a w' => w.Leads code w' ∧ Q a w'
  | .error _ w' => w.Leads code w'

namespace Proceeds

variable {α β : Type} {Q : α → Watch → Prop} {R : β → Watch → Prop}

theorem pure (settled : w.Settled code) {a : α} (h : Q a w) : Proceeds code w (Pure.pure a) Q :=
  ⟨.refl settled, h⟩

theorem bind {t : Watched α} {f : α → Watched β} (first : Proceeds code w t Q)
    (next : ∀ a w', w.Leads code w' → Q a w' → Proceeds code w' (f a) R) :
    Proceeds code w (t >>= f) R := by
  unfold Proceeds at first ⊢
  simp only [Bind.bind, EStateM.bind]
  cases result : t w with
  | error stop w' =>
    rw [result] at first
    exact first
  | ok a w' =>
    rw [result] at first
    have second := next a w' first.1 first.2
    unfold Proceeds at second
    dsimp only
    cases result' : f a w' with
    | error stop w'' =>
      rw [result'] at second
      exact first.1.trans second
    | ok b w'' =>
      rw [result'] at second
      exact ⟨first.1.trans second.1, second.2⟩

theorem mono {t : Watched α} {Q' : α → Watch → Prop} (h : Proceeds code w t Q)
    (imp : ∀ a w', w.Leads code w' → Q a w' → Q' a w') : Proceeds code w t Q' := by
  unfold Proceeds at h ⊢
  cases result : t w with
  | error stop w' =>
    rw [result] at h
    exact h
  | ok a w' =>
    rw [result] at h
    exact ⟨h.1, imp a w' h.1 h.2⟩

theorem ite {b : Bool} {t t' : Watched α} (yes : Proceeds code w t Q) (no : Proceeds code w t' Q) :
    Proceeds code w (if b = true then t else t') Q := by
  cases b with
  | true => exact yes
  | false => exact no

/-! ## Steps -/

/-- A step that gives a result. -/
theorem plain_ok {act : Run α} {a : α} {m : Machine} (result : act w.machine = .ok a m)
    (leads : w.Leads code (w.on m)) (h : Q a (w.on m)) :
    Proceeds code w (Watched.plain act) Q := by
  simp only [Proceeds, Watched.plain, result]
  exact ⟨leads, h⟩

/-- A step that stops the run. -/
theorem plain_error {act : Run α} {stop : Stop} {m : Machine}
    (result : act w.machine = .error stop m) (leads : w.Leads code (w.on m)) :
    Proceeds code w (Watched.plain act) Q := by
  simp only [Proceeds, Watched.plain, result]
  exact leads

theorem fault (settled : w.Settled code) (f : Fault) :
    Proceeds code w (Watched.plain (Run.fault (α := α) f)) Q :=
  plain_error rfl (.refl settled)

theorem outOfFuel (settled : w.Settled code) :
    Proceeds code w (Watched.plain (Run.outOfFuel (α := α))) Q :=
  plain_error rfl (.refl settled)

theorem read (settled : w.Settled code) {f : Machine → Except Fault α}
    (h : ∀ a, f w.machine = .ok a → Q a w) : Proceeds code w (Watched.plain (Run.read f)) Q := by
  cases result : f w.machine with
  | ok a => exact plain_ok (by rw [Run.read, result]) (.refl settled) (h a result)
  | error fault => exact plain_error (by rw [Run.read, result]) (.refl settled)

theorem current (settled : w.Settled code) :
    Proceeds code w Watched.current fun e w' => e = w.machine.current ∧ w' = w :=
  plain_ok rfl (.refl settled) ⟨rfl, rfl⟩

theorem liftCause (settled : w.Settled code) (line : Nat) {result : Except RuntimeCause α}
    (h : ∀ a, result = .ok a → Q a w) :
    Proceeds code w (Watched.plain (Run.liftCause line result)) Q := by
  cases result with
  | ok a => exact plain_ok rfl (.refl settled) (h a rfl)
  | error cause => exact fault settled _

/-- The sink and the clock hold no functions. -/
theorem write (settled : w.Settled code) (text : String) :
    Proceeds code w (Watched.plain (Run.write text)) fun _ _ => True := by
  cases refused : w.machine.sink.refusal .write w.machine.sink.requests with
  | some message =>
    apply plain_error (m := { w.machine with sink := w.machine.sink.asked })
    · simp only [Run.write, refused]
      rfl
    · exact .frames settled rfl rfl rfl fun _ _ _ found => .inl found
  | none =>
    apply plain_ok (a := ()) (m := { w.machine with sink := w.machine.sink.take text })
    · simp [Run.write, refused]
    · exact .frames settled rfl rfl rfl fun _ _ _ found => .inl found
    · trivial

theorem callNative (settled : w.Settled code) (f : Native) :
    Proceeds code w (Watched.plain (Run.callNative f)) fun v w' => w'.Knows code v := by
  cases f with
  | clock => exact plain_ok rfl (.frames settled rfl rfl rfl fun _ _ _ found => .inl found) trivial

/-- A scope is opened. -/
theorem newFrame (settled : w.Settled code) (outer : Environment) {bound : Bindings Value}
    (sort : (w.machine.store.pushFrame bound).IsSorted w.machine.store.frames.size)
    (known : ∀ name v, bound.get? name = some v → w.Knows code v) :
    Proceeds code w (Watched.plain (Run.newFrame outer bound)) fun e w' =>
      e = ⟨w.machine.store.frames.size, outer.path⟩ ∧
        w'.machine.store = w.machine.store.pushFrame bound :=
  plain_ok rfl (.pushFrame settled sort known) ⟨rfl, rfl⟩

theorem newInstance (settled : w.Settled code) {c : Class} (known : w.KnowsClass code c) :
    Proceeds code w (Watched.plain (Run.newInstance c)) fun i w' =>
      i.ofClass = c ∧ w'.Knows code (.ofInstance i) := by
  have leads : w.Leads code (w.on { w.machine with store := w.machine.store.pushInstance }) := by
    refine .frames settled rfl rfl rfl ?_
    intro id name v found
    simp only [Watch.on, Store.fieldsOf_pushInstance] at found
    exact .inl found
  exact plain_ok rfl leads ⟨rfl, known.extends leads.toExtends⟩

theorem newObject (settled : w.Settled code) (p : Spot) :
    Proceeds code w (Watched.newObject p) fun _ _ => True :=
  ⟨.frames settled rfl rfl rfl fun _ _ _ found => .inl found, trivial⟩

theorem newFunction (settled : w.Settled code) (p : Spot) {f : Closure} (houses : w.Houses code f) :
    Proceeds code w (Watched.newFunction p f) fun v w' => w'.Knows code v := by
  apply (newObject settled p).bind
  intro id w' leads _
  exact pure leads.settled (houses.extends leads.toExtends)

theorem setField (settled : w.Settled code) (i : Instance) (name : String) {v : Value}
    (known : w.Knows code v) :
    Proceeds code w (Watched.plain (Run.setField i name v)) fun _ _ => True := by
  have leads : w.Leads code
      (w.on { w.machine with store := w.machine.store.setField i.id name v }) := by
    refine .frames settled rfl rfl rfl ?_
    intro id other value found
    rcases Store.get?_setField _ _ _ _ _ _ found with rfl | old
    · exact .inr known
    · exact .inl old
  exact plain_ok rfl leads trivial

/-- A declaration binds its name in the scope that is active. -/
theorem define (settled : w.Settled code) (plain : w.machine.store.IsPlain w.machine.current.frame)
    {name : String} (named : IsVariable name) {v : Value} (known : w.Knows code v) :
    Proceeds code w (Watched.plain (Run.define name v)) fun _ _ => True :=
  plain_ok rfl (.setVariable settled plain named known) trivial

/-- An assignment finds its variable in a plain scope, if it finds it. -/
theorem assign (settled : w.Settled code) (e : Environment) {name : Name}
    (named : IsVariable name.text) {v : Value} (known : w.Knows code v) :
    Proceeds code w (Watched.plain (Run.assign e name v)) fun _ _ => True := by
  cases found : w.machine.store.binder? e.path name.text with
  | none =>
    apply plain_error (m := w.machine)
    · simp only [Run.assign, Store.assign, found]
      rfl
    · exact .refl settled
  | some id =>
    have bound := Store.binder?_contains found
    have plain := (settled.sorted id (Store.lt_of_contains bound)).plain named bound
    apply plain_ok (a := ()) (m := { w.machine with
      store := w.machine.store.setVariable id name.text v })
    · simp only [Run.assign, Store.assign, found]
    · exact .setVariable settled plain named known
    · trivial

theorem assignVariable (settled : w.Settled code) (place : Place) {name : Name}
    (named : IsVariable name.text) {v : Value} (known : w.Knows code v) :
    Proceeds code w (Watched.plain (Run.assignVariable place name v)) fun _ _ => True := by
  cases place with
  | global => exact assign settled _ named known
  | scope hops =>
    cases found : w.machine.store.binderAt w.machine.current hops name.text with
    | error f =>
      apply plain_error (m := w.machine)
      · simp only [Run.assignVariable, Run.assignAt, Store.assignAt, found]
        rfl
      · exact .refl settled
    | ok id =>
      have bound := Store.binderAt_contains found
      have plain := (settled.sorted id (Store.lt_of_contains bound)).plain named bound
      apply plain_ok (a := ()) (m := { w.machine with
        store := w.machine.store.setVariable id name.text v })
      · simp only [Run.assignVariable, Run.assignAt, Store.assignAt, found]
      · exact .setVariable settled plain named known
      · trivial

/-- A variable that is found has a known value. -/
theorem getAt (settled : w.Settled code) {f : Machine → Except Fault Value} {e : Environment}
    {hops : Nat} {name : String} (same : f w.machine = w.machine.store.getAt e hops name) :
    Proceeds code w (Watched.plain (Run.read f)) fun v w' => w'.Knows code v := by
  apply read settled
  intro v found
  rw [same] at found
  obtain ⟨id, here⟩ := Store.get?_of_getAt found
  exact settled.values id name v here

/-- A variable that is read leaves all as it is. -/
theorem readVariable (settled : w.Settled code) (place : Place) (name : Name) :
    Proceeds code w (Watched.plain (Run.readVariable place name)) fun v w' =>
      w' = w ∧ Run.readVariable place name w.machine = .ok v w.machine ∧ w.Knows code v := by
  cases place with
  | scope hops =>
    apply read settled
    intro v found
    obtain ⟨id, here⟩ := Store.get?_of_getAt found
    refine ⟨rfl, ?_, settled.values id name.text v here⟩
    simp only [Run.readVariable, Run.read, found]
  | global =>
    apply read settled
    intro v found
    obtain ⟨id, here⟩ := Store.get?_of_get found
    refine ⟨rfl, ?_, settled.values id name.text v here⟩
    simp only [Run.readVariable, Run.read, found]

theorem note (settled : w.Settled code) (p : Spot) (event : Event)
    (nested : ∀ e, event = .evaluate e → w.At code (.expression e)) :
    Proceeds code w (Watched.note p event) fun _ w' =>
      w' = { w with moments := ⟨event, p, w.machine⟩ :: w.moments } :=
  ⟨.note settled p event nested, rfl⟩

/-- What runs in another scope. -/
theorem withEnvironment (settled : w.Settled code) (e : Environment) {t : Watched α}
    (inner : (w.on { w.machine with current := e }).Settled code →
      Proceeds code (w.on { w.machine with current := e }) t Q)
    (kept : ∀ a w' w'', w'.Extends w'' → Q a w' → Q a w'') :
    Proceeds code w (Watched.withEnvironment e t) Q := by
  have leaves {w' : Watch} (leads : (w.on { w.machine with current := e }).Leads code w') :
      w.Leads code (w'.on { w'.machine with current := w.machine.current }) :=
    ⟨⟨leads.settles, leads.moments⟩, leads.settled.withCurrent _, rfl⟩
  have result := inner (settled.withCurrent e)
  unfold Proceeds at result
  unfold Proceeds Watched.withEnvironment
  rw [show ({ w with machine := { w.machine with current := e } } : Watch) =
    w.on { w.machine with current := e } from rfl]
  cases ended : t (w.on { w.machine with current := e }) with
  | ok a w' =>
    rw [ended] at result
    have back : w'.Extends (w'.on { w'.machine with current := w.machine.current }) :=
      ⟨.refl _, List.suffix_refl _⟩
    exact ⟨leaves result.1, kept a w' _ back result.2⟩
  | error stop w' =>
    rw [ended] at result
    exact leaves result

end Proceeds

end Lox
