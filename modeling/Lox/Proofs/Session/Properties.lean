import Lox.Proofs.History.Sessions
import Lox.Proofs.Session.Receivers

/-!
# Properties

What a property of an instance is follows from the history alone: the value that was stored last,
and without one the method of the nearest class that has one of the name. `HasProperty` says what the
history makes of a property, and `properties_from_history` that this is what is read, wherever a
session may stand.
-/

namespace Lox

variable {code : Node → Prop} {past earlier later : List Happening} {name : String}

/-! ## Methods of classes -/

/-- The last of the methods that has this name. -/
def lastMethod? (name : String) (methods : List (FunctionDecl Place)) :
    Option (FunctionDecl Place) :=
  methods.reverse.find? (·.name.text == name)

/-- The method that a class has by the declarations of it and its superclasses. -/
inductive Provides (past : List Happening) (name : String) : Class → Option Closure → Prop
  | own {c : Class} {superclass : Option Class} {e : Environment}
    {methods : List (FunctionDecl Place)} {d : FunctionDecl Place} :
    Did past (.declares c superclass e methods) → lastMethod? name methods = some d →
      Provides past name c (some ⟨d, e, d.isInitializer⟩)
  | inherited {c parent : Class} {e : Environment} {methods : List (FunctionDecl Place)}
    {method? : Option Closure} :
    Did past (.declares c (some parent) e methods) → lastMethod? name methods = none →
      Provides past name parent method? → Provides past name c method?
  | missing {c : Class} {e : Environment} {methods : List (FunctionDecl Place)} :
    Did past (.declares c none e methods) → lastMethod? name methods = none →
      Provides past name c none

theorem Provides.mono {c : Class} {method? : Option Closure} (h : Provides past name c method?)
    (suffix : past <:+ later) : Provides later name c method? := by
  induction h with
  | own did last => exact .own (did.mono suffix) last
  | inherited did none _ ih => exact .inherited (did.mono suffix) none ih
  | missing did none => exact .missing (did.mono suffix) none

/-- The methods of a class are its own, and those of its superclass that it has none of the name
of. -/
theorem Run.findMethod?_makeClass (id : ObjectId) (className : String) (e : Environment)
    (methods : List (FunctionDecl Place)) (superclass : Option Class) (name : String) :
    (makeClass id className (methodTable e methods) superclass).findMethod? name =
      match lastMethod? name methods with
      | some d => some ⟨d, e, d.isInitializer⟩
      | none => superclass.bind (·.findMethod? name) := by
  have own : (methodTable e methods).get? name =
      (lastMethod? name methods).map fun d => ⟨d, e, d.isInitializer⟩ := by
    rw [methodTable, Bindings.get?_ofList, ← List.map_reverse, List.find?_map, lastMethod?]
    simp only [Option.map_map]
    rfl
  unfold Class.findMethod? Class.lineage makeClass
  rw [List.findSome?_cons, own]
  cases lastMethod? name methods with
  | some d => rfl
  | none => cases superclass <;> rfl

theorem Provides.findMethod? {c : Class} {method? : Option Closure}
    (h : Provides past name c method?) (fit : AllFit code past) : c.findMethod? name = method? := by
  induction h with
  | own did last =>
    obtain ⟨⟨id, className, rfl⟩, -⟩ := fit.declares did
    rw [Run.findMethod?_makeClass, last]
  | inherited did none _ ih =>
    obtain ⟨⟨id, className, rfl⟩, -⟩ := fit.declares did
    rw [Run.findMethod?_makeClass, none]
    exact ih
  | missing did none =>
    obtain ⟨⟨id, className, rfl⟩, -⟩ := fit.declares did
    rw [Run.findMethod?_makeClass, none]
    rfl

/-- Looking a method up finds what the declarations provide. -/
theorem AllFit.provides (fit : AllFit code past) {c : Class} (known : KnowsClass past c)
    (name : String) : Provides past name c (c.findMethod? name) := by
  refine fit.class_induction (fun {c superclass e methods m _} suffix parents => ?_) known
  have did : Did past (.declares c superclass e methods) := ⟨m, suffix.subset List.mem_cons_self⟩
  obtain ⟨⟨id, className, made⟩, -⟩ := fit.declares did
  rw [made, Run.findMethod?_makeClass, ← made]
  cases last : lastMethod? name methods with
  | some d => exact .own did last
  | none =>
    cases superclass with
    | none => exact .missing did last
    | some parent => exact .inherited did last (parents parent rfl).2

/-! ## Numbers -/

/-- Each class has a greater number than those that it inherits from. -/
theorem AllFit.lineage_decreasing (fit : AllFit code past) {c : Class} (known : KnowsClass past c) :
    c.lineage.Pairwise fun a b => b.id < a.id := by
  refine fit.class_induction (fun {c superclass e methods _ _} suffix parents => ?_) known
  obtain ⟨⟨-, className, reference, -, made⟩, holds, -⟩ := fit.of_suffix suffix
  dsimp only at made
  subst made
  cases superclass with
  | none => exact List.pairwise_singleton _ _
  | some parent =>
    obtain ⟨⟨_, _, _, did⟩, older⟩ := parents parent rfl
    have numbered := holds.numbered did
    refine List.pairwise_cons.2 ⟨fun level mem => ?_, older⟩
    rcases List.mem_cons.1 mem with rfl | mem
    · exact numbered
    · exact Nat.lt_trans ((List.pairwise_cons.1 older).1 level mem) numbered

/-- Where whatever is made has a greater number than what was made before, no two things that have
been made have one number. -/
theorem AllFit.eq_of_number {α : Type} (Makes : Deed → α → Prop) (number : α → Nat)
    (one : ∀ {deed a b}, Makes deed a → Makes deed b → a = b)
    (grows : ∀ {deed m earlier a b other}, AllFit code (⟨deed, m⟩ :: earlier) → Makes deed a →
      Did earlier other → Makes other b → number b < number a)
    (fit : AllFit code past) {a b : α} {deed other : Deed} (did : Did past deed)
    (makes : Makes deed a) (did' : Did past other) (makes' : Makes other b)
    (same : number a = number b) : a = b := by
  induction past with
  | nil =>
    obtain ⟨m, never⟩ := did
    cases never
  | cons h earlier ih =>
    obtain ⟨last, m⟩ := h
    rcases did_cons.1 did with rfl | before <;> rcases did_cons.1 did' with rfl | before'
    · exact one makes makes'
    · exact absurd same (Nat.ne_of_gt (grows fit makes before' makes'))
    · exact absurd same (Nat.ne_of_lt (grows fit makes' before makes))
    · exact ih fit.2.2 before before'

/-- Two classes with one number are the same class. -/
theorem AllFit.class_unique (fit : AllFit code past) {c c' : Class} (known : KnowsClass past c)
    (known' : KnowsClass past c') (same : c.own.id = c'.own.id) : c = c' := by
  obtain ⟨_, _, _, did⟩ := known
  obtain ⟨_, _, _, did'⟩ := known'
  refine fit.eq_of_number
    (fun deed c => ∃ superclass e methods, deed = .declares c superclass e methods)
    (fun c => c.own.id) ?_ ?_ did ⟨_, _, _, rfl⟩ did' ⟨_, _, _, rfl⟩ same
  · rintro _ c c' ⟨_, _, _, rfl⟩ ⟨_, _, _, same⟩
    cases same
    rfl
  · rintro _ m earlier c c' _ fit ⟨_, _, _, rfl⟩ did ⟨_, _, _, rfl⟩
    obtain ⟨⟨-, className, reference, -, made⟩, holds, -⟩ := fit
    rw [made]
    exact holds.numbered did

/-- Two instances with one number are the same instance. -/
theorem AllFit.instance_unique (fit : AllFit code past) {i j : Instance}
    (made : Did past (.makes i)) (made' : Did past (.makes j)) (same : i.id = j.id) : i = j := by
  refine fit.eq_of_number (fun deed i => deed = .makes i) Instance.id ?_ ?_ made rfl made' rfl same
  · rintro _ i j rfl same
    cases same
    rfl
  · rintro _ m earlier i j _ fit rfl did rfl
    rw [fit.1.2]
    exact fit.2.1.made did

/-! ## Properties of instances -/

/-- What a property of an instance may be. -/
inductive Property where
  | field (v : Value)
  | method (f : Closure)
  | undefined

/-- What a property is that is no field. -/
def Property.ofMethod : Option Closure → Property
  | some f => .method f
  | none => .undefined

/-- What the past makes of a property of an instance. -/
inductive HasProperty (past : List Happening) (o : Instance) (name : String) : Property → Prop
  | field {v : Value} : lastStored o.id name past = some v → HasProperty past o name (.field v)
  | method {method? : Option Closure} : lastStored o.id name past = none →
    Provides past name o.ofClass method? → HasProperty past o name (.ofMethod method?)

/-- What is read is the field, or the method, bound to the instance, which a new scope holds; without
either the read fails. -/
def Run.Gives (o : Instance) (name : Name) (m : Machine) : Property → Prop
  | .field v => getProperty (.ofInstance o) name m = .ok v m
  | .method f =>
    let own := m.store.frames.size
    ∃ id m', m'.store.HoldsThis own o ∧ getProperty (.ofInstance o) name m =
      .ok (.callable (.function id { f with environment := ⟨own, f.environment.path⟩ })) m'
  | .undefined => getProperty (.ofInstance o) name m =
    .error (.fault (.runtime (.undefinedProperty name.text) name.line)) m

/-- The past makes one thing of a property. -/
theorem HasProperty.unique {o : Instance} {p q : Property} (hp : HasProperty past o name p)
    (hq : HasProperty past o name q) (fit : AllFit code past) : p = q := by
  cases hp with
  | field stored =>
    cases hq with
    | field stored' => rw [Option.some.inj (stored.symm.trans stored')]
    | method unset _ => cases stored.symm.trans unset
  | method unset provides =>
    cases hq with
    | field stored => cases stored.symm.trans unset
    | method _ provides' => rw [← provides.findMethod? fit, ← provides'.findMethod? fit]

/-- **A read gives what the past makes of the property.** -/
theorem Chronicle.Sound.reads {w : Chronicle} (sound : w.Sound code) {o : Instance}
    (made : Did w.past (.makes o)) (name : Name) :
    ∃ p, HasProperty w.past o name.text p ∧ Run.Gives o name w.machine p := by
  have field := sound.holds.properties o.id name.text
  cases stored : lastStored o.id name.text w.past with
  | some v =>
    refine ⟨_, .field stored, ?_⟩
    rw [stored] at field
    simp only [Run.Gives, Run.getProperty, Run.propertyOf, Run.read, Bind.bind, EStateM.bind, field]
    rfl
  | none =>
    have provides := sound.fit.provides (sound.fit.ofClass made) name.text
    refine ⟨_, .method stored provides, ?_⟩
    have given := Run.methodOf_givesBound o.ofClass o name w.machine
    rw [stored] at field
    have read : Run.getProperty (.ofInstance o) name w.machine =
        Run.methodOf o.ofClass o name w.machine := by
      simp only [Run.getProperty, Run.propertyOf, Run.read, Bind.bind, EStateM.bind, field]
    unfold Run.GivesBound at given
    cases found : o.ofClass.findMethod? name.text with
    | none =>
      rw [found] at given
      exact read.trans given
    | some f =>
      rw [found] at given
      obtain ⟨id, m', holds, result⟩ := given
      exact ⟨id, m', holds, read.trans result⟩

/-- A property changes only when it is stored to. -/
theorem lastStored_append {new : List Happening} {id : InstanceId}
    (kept : ∀ h ∈ new, ∀ i v, h.deed = .stores i name v → i.id ≠ id) :
    lastStored id name (new ++ past) = lastStored id name past := by
  induction new with
  | nil => rfl
  | cons h new ih =>
    have rest := ih fun other mem => kept other (List.mem_cons_of_mem _ mem)
    obtain ⟨deed, m⟩ := h
    cases deed with
    | stores i property v =>
      have other : ¬(i.id = id ∧ property = name) := by
        rintro ⟨same, rfl⟩
        exact kept _ List.mem_cons_self i v rfl same
      rw [List.cons_append, lastStored, if_neg other, rest]
    | reaches | calls | enters | makes | binds | reads | declares => exact rest

theorem HasProperty.append {o : Instance} {p : Property} {new : List Happening}
    (h : HasProperty past o name p)
    (kept : ∀ h ∈ new, ∀ i v, h.deed = .stores i name v → i.id ≠ o.id) :
    HasProperty (new ++ past) o name p := by
  have same : lastStored o.id name (new ++ past) = lastStored o.id name past :=
    lastStored_append kept
  cases h with
  | field stored => exact .field (same.trans stored)
  | method unset provides =>
    exact .method (same.trans unset) (provides.mono (List.suffix_append new past))

/-! ## Sessions -/

/-- What holds of the properties and the classes of a chronicle. -/
structure Chronicle.KeepsProperties (w : Chronicle) : Prop where
  /-- All instances that scopes and properties hold have been made. -/
  scopes : ∀ {frame name o}, (w.machine.store.frame frame).get? name = some (.ofInstance o) →
    Did w.past (.makes o)
  properties : ∀ {i name o}, (w.machine.store.fieldsOf i).get? name = some (.ofInstance o) →
    Did w.past (.makes o)
  /-- A read gives what the past makes of the property, and that is one thing. -/
  reads : ∀ {o}, Did w.past (.makes o) → ∀ name, ∃ p, HasProperty w.past o name.text p ∧
    Run.Gives o name w.machine p ∧ ∀ q, HasProperty w.past o name.text q → q = p
  instances : ∀ {i j}, Did w.past (.makes i) → Did w.past (.makes j) → i.id = j.id → i = j
  /-- The class of an instance has been declared, and so have the superclasses. -/
  classes : ∀ {o}, Did w.past (.makes o) → KnowsClass w.past o.ofClass
  superclasses : ∀ {c parent e methods}, Did w.past (.declares c (some parent) e methods) →
    KnowsClass w.past parent ∧ c.inherited = parent.lineage
  /-- A class inherits from older classes only. -/
  acyclic : ∀ {c}, KnowsClass w.past c → c.lineage.Pairwise fun a b => b.id < a.id
  unaltered : ∀ {c c'}, KnowsClass w.past c → KnowsClass w.past c' → c.own.id = c'.own.id → c = c'

theorem Chronicle.Sound.keepsProperties {w : Chronicle} (sound : w.Sound code) :
    w.KeepsProperties where
  scopes found := sound.holds.values found
  properties {i name o} found := by
    rw [sound.holds.properties] at found
    exact sound.fit.lastStored_knows found
  reads made name := by
    obtain ⟨p, has, given⟩ := sound.reads made name
    exact ⟨p, has, given, fun q other => other.unique has sound.fit⟩
  instances := sound.fit.instance_unique
  classes := sound.fit.ofClass
  superclasses did := by
    obtain ⟨⟨id, name, made⟩, known⟩ := sound.fit.declares did
    exact ⟨known _ rfl, by rw [made]; rfl⟩
  acyclic := sound.fit.lineage_decreasing
  unaltered := sound.fit.class_unique

/-- **Properties follow from the history.** What is read of an instance is the value that was stored
last, and if none ever was, the method of the nearest class that has one of the name, bound to the
instance; a class has the last method of a name that it declares. That is so of each read of a
session, and of each that there could be wherever the session may stand. A property stays what it is,
whatever happens, until the same property of the same instance is stored to. A class inherits from
older classes only, and is never altered. -/
theorem properties_from_history (sink : Sink) (clock : Clock) (requests : List Request) :
    let s := (ChronicledSession.start sink clock).after requests
    s.forget = (Session.start sink clock).after requests ∧
      (∀ later m o name earlier, s.chronicle.past = later ++ ⟨.reads o name, m⟩ :: earlier →
        ∃ p, HasProperty earlier o name.text p ∧ Run.Gives o name m p) ∧
      ∀ w', s.chronicle.Passed w' → w'.KeepsProperties ∧
        ∀ w new, w'.Passed w → w'.past = new ++ w.past → ∀ o (name : Name),
          Did w.past (.makes o) → (∀ h ∈ new, ∀ i v, h.deed = .stores i name.text v → i.id ≠ o.id) →
            ∀ p, HasProperty w.past o name.text p →
              Run.Gives o name w.machine p ∧ Run.Gives o name w'.machine p := by
  intro s
  have sound : s.chronicle.Sound (codeOf requests) :=
    ChronicledSession.after_sound sink clock requests
  refine ⟨ChronicledSession.after_forget _ requests, fun later m o name earlier split => ?_,
    fun w' passed => ?_⟩
  · obtain ⟨made, before⟩ := sound.fit.happening split
    exact before.reads made name
  have later := (sound.passed passed).keepsProperties
  refine ⟨later, fun w new before split o name made kept p has => ?_⟩
  have earlier := ((sound.passed passed).passed before).keepsProperties
  -- what is read at either point is the one thing that the past there makes of the property
  have gives {w : Chronicle} (keeps : w.KeepsProperties) (made : Did w.past (.makes o))
      (has : HasProperty w.past o name.text p) : Run.Gives o name w.machine p := by
    obtain ⟨q, -, given, only⟩ := keeps.reads made name
    rw [only p has]
    exact given
  have still : HasProperty w'.past o name.text p := by
    rw [split]
    exact has.append kept
  exact ⟨gives earlier made has, gives later (made.mono ⟨new, split.symm⟩) still⟩

-- the class that `B` inherits from keeps its methods when another one takes its name
example : ((Session.start .reliable (.ticking 0)).after
      [.run 30 ("class A \x7b m() \x7b return 0; \x7d m() \x7b return 1; \x7d \x7d" ++
        "class B < A \x7b\x7d var b = B(); class A \x7b m() \x7b return 2; \x7d \x7d" ++
        "print b.m(); b.m = 3; B = nil; print b.m;")]).machine.sink.written = "1\n3\n" := by
  decide +kernel

end Lox
