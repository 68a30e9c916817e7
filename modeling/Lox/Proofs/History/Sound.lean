import Lox.Proofs.History.Chronicle
import Lox.Proofs.Store.Sorts

/-!
# What a chronicle says of its machine

A chronicle is *sound* if its machine is what the past has made it: each instance, each class and each
initializer that a variable or a property holds has been made, declared or bound in the past, each
property has the value that was stored last, and each method that was bound still has its instance.
`Chronicle.Leads` says that a later chronicle is sound and has lost nothing of the past. There is one
lemma for each step.
-/

namespace Lox

/-! ## The past -/

/-- The deed is one of the past. -/
def Did (past : List Happening) (deed : Deed) : Prop := ∃ m, ⟨deed, m⟩ ∈ past

/-- The value that a property of an instance got last. -/
def lastStored (id : InstanceId) (name : String) : List Happening → Option Value
  | [] => none
  | ⟨.stores i property v, _⟩ :: earlier =>
    if i.id = id ∧ property = name then some v else lastStored id name earlier
  | ⟨.reaches _, _⟩ :: earlier | ⟨.calls .., _⟩ :: earlier | ⟨.enters .., _⟩ :: earlier
  | ⟨.makes _, _⟩ :: earlier | ⟨.binds .., _⟩ :: earlier | ⟨.reads .., _⟩ :: earlier
  | ⟨.declares .., _⟩ :: earlier => lastStored id name earlier

/-- The class has been made of a declaration. -/
def KnowsClass (past : List Happening) (c : Class) : Prop :=
  ∃ superclass e methods, Did past (.declares c superclass e methods)

section

variable (code : Node → Prop)

/-- The part stands in the code. -/
def InCode (n : Node) : Prop := ∃ c, Stands code c n

/-- The method is one of a class declaration in the code. -/
def DeclaresMethod (d : FunctionDecl Place) : Prop :=
  ∃ name superclass methods, InCode code (.statement (.classDecl name superclass methods)) ∧
    d ∈ methods

/-- The function is that of a declaration in the code, or a method that has been bound. -/
inductive KnowsFunction (past : List Happening) : Closure → Prop
  | plain {f : Closure} : InCode code (.statement (.function f.declaration)) →
    f.isInitializer = false → KnowsFunction past f
  | bound {method f : Closure} {i : Instance} : Did past (.binds method i f) →
    KnowsFunction past f

/-- Where the value comes from is part of the past. -/
def Knows (past : List Happening) : Value → Prop
  | .callable (.function _ f) => KnowsFunction code past f
  | .callable (.ofClass c) => KnowsClass past c
  | .ofInstance i => Did past (.makes i)
  | .nil | .boolean _ | .number _ | .string _ | .callable (.native _) => True

/-- The machine is what the past has made it. -/
structure Chronicle.Holds (w : Chronicle) : Prop where
  values : ∀ {id name v}, (w.machine.store.frame id).get? name = some v → Knows code w.past v
  properties : ∀ id name, (w.machine.store.fieldsOf id).get? name = lastStored id name w.past
  made : ∀ {i}, Did w.past (.makes i) → i.id < w.machine.store.fields.size
  bound : ∀ {method i f}, Did w.past (.binds method i f) →
    (w.machine.store.frame f.environment.frame).get? thisName = some (.ofInstance i)
  numbered : ∀ {c superclass e methods}, Did w.past (.declares c superclass e methods) →
    c.own.id < w.machine.store.nextObject

/-- What holds of a happening when it takes place. -/
def Happening.Fits (h : Happening) (earlier : List Happening) : Prop :=
  match h.deed with
  | .reaches part => InCode code part
  | .calls callee arguments _ =>
    Knows code earlier callee ∧ ∀ v ∈ arguments, Knows code earlier v
  | .enters f arguments => KnowsFunction code earlier f ∧ ∀ v ∈ arguments, Knows code earlier v
  | .makes i => KnowsClass earlier i.ofClass ∧ i.id = h.machine.store.fields.size
  | .binds method i f => Did earlier (.makes i) ∧ DeclaresMethod code method.declaration ∧
    method.isInitializer = method.declaration.isInitializer ∧
      f = { method with
        environment := ⟨h.machine.store.frames.size, method.environment.path⟩ }
  | .reads i _ => Did earlier (.makes i)
  | .stores i _ v => Did earlier (.makes i) ∧ Knows code earlier v
  | .declares made superclass e methods => (∀ c ∈ superclass, KnowsClass earlier c) ∧
    ∃ name reference, InCode code (.statement (.classDecl name reference methods)) ∧
      made = Run.makeClass h.machine.store.nextObject name.text (Run.methodTable e methods) superclass

/-- Each happening fits, and its machine was what the past had made it. -/
def AllFit : List Happening → Prop
  | [] => True
  | h :: earlier => h.Fits code earlier ∧ Chronicle.Holds code ⟨h.machine, earlier⟩ ∧ AllFit earlier

/-- What holds all along a chronicled run. -/
structure Chronicle.Sound (w : Chronicle) : Prop where
  holds : w.Holds code
  fit : AllFit code w.past

/-- The later chronicle is sound, and nothing of the past is lost. -/
structure Chronicle.Leads (w w' : Chronicle) : Prop where
  sound : w'.Sound code
  past : w.past <:+ w'.past

end

variable {code : Node → Prop} {past later earlier : List Happening}

theorem Did.mono {deed : Deed} (h : Did past deed) (suffix : past <:+ later) : Did later deed := by
  obtain ⟨m, mem⟩ := h
  exact ⟨m, suffix.subset mem⟩

theorem did_cons {deed : Deed} {h : Happening} :
    Did (h :: past) deed ↔ h.deed = deed ∨ Did past deed := by
  obtain ⟨other, m⟩ := h
  constructor
  · rintro ⟨m', mem⟩
    rcases List.mem_cons.1 mem with same | mem
    · cases same
      exact .inl rfl
    · exact .inr ⟨m', mem⟩
  · rintro (rfl | ⟨m', mem⟩)
    · exact ⟨m, List.mem_cons_self⟩
    · exact ⟨m', List.mem_cons_of_mem _ mem⟩

theorem KnowsClass.mono {c : Class} (h : KnowsClass past c) (suffix : past <:+ later) :
    KnowsClass later c := by
  obtain ⟨superclass, e, methods, declared⟩ := h
  exact ⟨superclass, e, methods, declared.mono suffix⟩

theorem KnowsFunction.mono {f : Closure} (h : KnowsFunction code past f) (suffix : past <:+ later) :
    KnowsFunction code later f := by
  cases h with
  | plain inCode flag => exact .plain inCode flag
  | bound did => exact .bound (did.mono suffix)

theorem Knows.mono {v : Value} (h : Knows code past v) (suffix : past <:+ later) :
    Knows code later v := by
  match v with
  | .callable (.function _ f) => exact KnowsFunction.mono h suffix
  | .callable (.ofClass c) => exact KnowsClass.mono h suffix
  | .ofInstance i => exact Did.mono h suffix
  | .nil | .boolean _ | .number _ | .string _ | .callable (.native _) => trivial

/-! ## What has happened -/

theorem AllFit.of_suffix (fit : AllFit code past) (suffix : earlier <:+ past) :
    AllFit code earlier := by
  obtain ⟨new, rfl⟩ := suffix
  induction new with
  | nil => exact fit
  | cons h new ih => exact ih fit.2.2

/-- A happening of the past fits what was before it, on a sound chronicle. -/
theorem AllFit.happening {new : List Happening} {h : Happening} (fit : AllFit code past)
    (split : past = new ++ h :: earlier) :
    h.Fits code earlier ∧ Chronicle.Sound code ⟨h.machine, earlier⟩ := by
  have rest := fit.of_suffix ⟨new, split.symm⟩
  exact ⟨rest.1, rest.2.1, rest.2.2⟩

/-- A value that has been stored is known. -/
theorem AllFit.lastStored_knows (fit : AllFit code past) {id : InstanceId} {name : String} {v : Value}
    (stored : lastStored id name past = some v) : Knows code past v := by
  induction past with
  | nil => cases stored
  | cons h earlier ih =>
    have before (same : lastStored id name earlier = some v) : Knows code (h :: earlier) v :=
      (ih fit.2.2 same).mono (List.suffix_cons h earlier)
    obtain ⟨deed, m⟩ := h
    cases deed with
    | stores i property value =>
      simp only [lastStored] at stored
      split at stored
      · cases stored
        exact fit.1.2.mono (List.suffix_cons _ earlier)
      · exact before stored
    | reaches | calls | enters | makes | binds | reads | declares => exact before stored

/-! ## Parts of the code -/

theorem InCode.part {n part : Node} (h : InCode code n)
    (mem : ∀ c, ∃ inner, (inner, part) ∈ n.parts c) : InCode code part := by
  obtain ⟨c, stands⟩ := h
  obtain ⟨inner, isPart⟩ := mem c
  exact ⟨inner, stands.part isPart⟩

theorem InCode.operand {e operand : Expr Place} (h : InCode code (.expression e))
    (mem : operand ∈ e.operands) : InCode code (.expression operand) :=
  h.part fun c => ⟨c, List.mem_map_of_mem mem⟩

theorem InCode.head {s : Stmt Place} {ss : List (Stmt Place)} (h : InCode code (.statements (s :: ss))) :
    InCode code (.statement s) :=
  h.part fun c => ⟨c, List.mem_cons_self⟩

theorem InCode.tail {s : Stmt Place} {ss : List (Stmt Place)} (h : InCode code (.statements (s :: ss))) :
    InCode code (.statements ss) :=
  h.part fun _ => ⟨_, List.mem_cons_of_mem _ List.mem_cons_self⟩

theorem InCode.isScoped {n : Node} (h : InCode code n) (rooted : ∀ n, code n → n.Scoped .top) :
    ∃ c, n.Scoped c := by
  obtain ⟨c, stands⟩ := h
  exact ⟨c, (stands.scoped rooted).1⟩

/-- A deed of the past fits what was before it. -/
theorem AllFit.of_did (fit : AllFit code past) {deed : Deed} (did : Did past deed) :
    ∃ m earlier, earlier <:+ past ∧ Happening.Fits code ⟨deed, m⟩ earlier ∧
      Chronicle.Holds code ⟨m, earlier⟩ := by
  obtain ⟨m, mem⟩ := did
  obtain ⟨later, earlier, rfl⟩ := List.append_of_mem mem
  obtain ⟨fits, sound⟩ := fit.happening rfl
  exact ⟨m, earlier, (List.suffix_cons _ _).trans (List.suffix_append _ _), fits, sound.holds⟩

/-- What has been bound is a method of the code, with the flag that its name gives it. -/
theorem AllFit.binds (fit : AllFit code past) {method f : Closure} {i : Instance}
    (did : Did past (.binds method i f)) :
    DeclaresMethod code f.declaration ∧ f.isInitializer = f.declaration.isInitializer ∧
      Did past (.makes i) := by
  obtain ⟨m, earlier, suffix, ⟨made, declared, flag, same⟩, -⟩ := fit.of_did did
  dsimp only at same
  subst same
  exact ⟨declared, flag, made.mono suffix⟩

theorem AllFit.ofClass (fit : AllFit code past) {i : Instance} (did : Did past (.makes i)) :
    KnowsClass past i.ofClass := by
  obtain ⟨m, earlier, suffix, ⟨known, -⟩, -⟩ := fit.of_did did
  exact known.mono suffix

/-- A declared class is made of its declaration, and its superclass has been declared before. -/
theorem AllFit.declares (fit : AllFit code past) {c : Class} {superclass : Option Class}
    {e : Environment} {methods : List (FunctionDecl Place)}
    (did : Did past (.declares c superclass e methods)) :
    (∃ id name, c = Run.makeClass id name (Run.methodTable e methods) superclass) ∧
      ∀ parent ∈ superclass, KnowsClass past parent := by
  obtain ⟨m, earlier, suffix, ⟨known, name, reference, -, made⟩, -⟩ := fit.of_did did
  exact ⟨⟨_, name.text, made⟩, fun parent mem => (known parent mem).mono suffix⟩

/-- The body of a known function stands in the code. -/
theorem KnowsFunction.body {f : Closure} (known : KnowsFunction code past f)
    (fit : AllFit code past) : InCode code (.statements f.declaration.body) := by
  cases known with
  | plain inCode flag =>
    obtain ⟨⟨name, params, body⟩, e, flag⟩ := f
    exact inCode.part fun _ => ⟨_, List.mem_singleton_self _⟩
  | bound did =>
    obtain ⟨_, _, methods, inCode, mem⟩ := (fit.binds did).1
    exact inCode.part fun _ => ⟨_, List.mem_map_of_mem mem⟩

/-- A class is declared after its superclass, so what each class has if its superclass has it, all
classes have. -/
@[elab_as_elim]
theorem AllFit.class_induction (fit : AllFit code past) {P : Class → Prop}
    (declared : ∀ {c superclass e methods m earlier},
      ⟨.declares c superclass e methods, m⟩ :: earlier <:+ past →
        (∀ parent ∈ superclass, KnowsClass earlier parent ∧ P parent) → P c)
    {c : Class} (known : KnowsClass past c) : P c := by
  induction past generalizing c with
  | nil =>
    obtain ⟨_, _, _, m, never⟩ := known
    cases never
  | cons h earlier ih =>
    have older {c : Class} (known : KnowsClass earlier c) : P c :=
      ih fit.2.2 (fun suffix => declared (suffix.trans (List.suffix_cons h earlier))) known
    obtain ⟨superclass, e, methods, did⟩ := known
    rcases did_cons.1 did with same | before
    · obtain ⟨deed, m⟩ := h
      cases same
      have parents := fit.1.1
      exact declared (List.suffix_refl _) fun parent mem =>
        ⟨parents parent mem, older (parents parent mem)⟩
    · exact older ⟨superclass, e, methods, before⟩

/-- Each method of a known class, its own or inherited, is one of the code. -/
theorem AllFit.method (fit : AllFit code past) {c : Class} (known : KnowsClass past c) :
    ∀ level ∈ c.lineage, ∀ {name f}, level.methods.get? name = some f →
      DeclaresMethod code f.declaration ∧ f.isInitializer = f.declaration.isInitializer := by
  refine fit.class_induction (fun {c superclass e methods _ _} suffix parents => ?_) known
  intro level mem name f found
  obtain ⟨-, className, reference, inCode, made⟩ := (fit.of_suffix suffix).1
  dsimp only at made
  subst made
  rcases List.mem_cons.1 mem with rfl | mem
  · obtain ⟨d, isMethod, same⟩ := List.mem_map.1 (Bindings.mem_of_get?_ofList found)
    cases same
    exact ⟨⟨className, reference, methods, inCode, isMethod⟩, rfl⟩
  · cases superclass with
    | none => cases mem
    | some parent => exact (parents parent rfl).2 level mem found

/-! ## Steps -/

namespace Chronicle

variable {w w' w'' : Chronicle}

namespace Leads

theorem refl (sound : w.Sound code) : w.Leads code w := ⟨sound, List.suffix_refl _⟩

theorem trans (first : w.Leads code w') (second : w'.Leads code w'') : w.Leads code w'' :=
  ⟨second.sound, first.past.trans second.past⟩

/-- A step on the machine that is no deed. -/
theorem step (sound : w.Sound code) {m : Machine}
    (values : ∀ {id name v}, (m.store.frame id).get? name = some v →
      (w.machine.store.frame id).get? name = some v ∨ Knows code w.past v)
    (bound : ∀ {id v}, (w.machine.store.frame id).get? thisName = some v →
      (m.store.frame id).get? thisName = some v)
    (fields : m.store.fields = w.machine.store.fields)
    (numbers : w.machine.store.nextObject ≤ m.store.nextObject) :
    w.Leads code { w with machine := m } := by
  refine ⟨⟨?_, sound.fit⟩, List.suffix_refl _⟩
  constructor
  · intro id name v found
    exact (values found).elim sound.holds.values fun known => known
  · intro id name
    rw [← sound.holds.properties id name]
    simp only [Store.fieldsOf, fields]
  · intro i made
    rw [show m.store.fields.size = _ from congrArg Array.size fields]
    exact sound.holds.made made
  · intro method i f did
    exact bound (sound.holds.bound did)
  · intro c superclass e methods did
    exact Nat.lt_of_lt_of_le (sound.holds.numbered did) numbers

/-- What leaves the store alone leads on. -/
theorem of_store (sound : w.Sound code) {m : Machine} (same : m.store = w.machine.store) :
    w.Leads code { w with machine := m } := by
  apply step sound
  · intro id name v found
    rw [same] at found
    exact .inl found
  · intro id v found
    rw [same]
    exact found
  · rw [same]
  · exact Nat.le_of_eq (by rw [same])

/-- A deed leads on if it fits, and the machine behind it is what it makes of the one before. -/
theorem deed (sound : w.Sound code) {deed : Deed} {m : Machine}
    (fits : Happening.Fits code ⟨deed, w.machine⟩ w.past)
    (values : ∀ {id name v}, (m.store.frame id).get? name = some v →
      (w.machine.store.frame id).get? name = some v ∨
        Knows code (⟨deed, w.machine⟩ :: w.past) v)
    (keeps : ∀ {id v}, (w.machine.store.frame id).get? thisName = some v →
      (m.store.frame id).get? thisName = some v)
    (properties : ∀ id name,
      (m.store.fieldsOf id).get? name = lastStored id name (⟨deed, w.machine⟩ :: w.past))
    (made : w.machine.store.fields.size ≤ m.store.fields.size ∧
      ∀ i, deed = .makes i → i.id < m.store.fields.size)
    (bound : ∀ method i f, deed = .binds method i f →
      (m.store.frame f.environment.frame).get? thisName = some (.ofInstance i))
    (numbered : w.machine.store.nextObject ≤ m.store.nextObject ∧
      ∀ c superclass e methods, deed = .declares c superclass e methods →
        c.own.id < m.store.nextObject) :
    w.Leads code ⟨m, ⟨deed, w.machine⟩ :: w.past⟩ := by
  have suffix := List.suffix_cons (⟨deed, w.machine⟩ : Happening) w.past
  refine ⟨⟨?_, fits, sound.holds, sound.fit⟩, suffix⟩
  constructor
  · intro id name v found
    rcases values found with before | known
    · exact (sound.holds.values before).mono suffix
    · exact known
  · exact properties
  · intro i did
    rcases did_cons.1 did with same | did
    · exact made.2 i same
    · exact Nat.lt_of_lt_of_le (sound.holds.made did) made.1
  · intro method i f did
    rcases did_cons.1 did with same | did
    · exact bound method i f same
    · exact keeps (sound.holds.bound did)
  · intro c superclass e methods did
    rcases did_cons.1 did with same | did
    · exact numbered.2 c superclass e methods same
    · exact Nat.lt_of_lt_of_le (sound.holds.numbered did) numbered.1

/-- A deed that leaves the machine alone. -/
theorem note (sound : w.Sound code) (deed : Deed)
    (fits : Happening.Fits code ⟨deed, w.machine⟩ w.past)
    (silent : match deed with
      | .reaches _ | .calls .. | .enters .. | .reads .. => True
      | .makes _ | .binds .. | .stores .. | .declares .. => False) :
    w.Leads code { w with past := ⟨deed, w.machine⟩ :: w.past } := by
  cases deed with
  | reaches | calls | enters | reads =>
    exact Leads.deed sound fits .inl (fun found => found) sound.holds.properties
      ⟨Nat.le_refl _, by simp⟩ (by simp) ⟨Nat.le_refl _, by simp⟩
  | makes | binds | stores | declares => exact silent.elim

theorem newInstance (sound : w.Sound code) {c : Class} (known : KnowsClass w.past c) :
    w.Leads code
      { machine := { w.machine with store := w.machine.store.pushInstance }
        past := ⟨.makes ⟨w.machine.store.fields.size, c⟩, w.machine⟩ :: w.past } := by
  have size : w.machine.store.pushInstance.fields.size = w.machine.store.fields.size + 1 := by
    simp [Store.pushInstance]
  have fits : Happening.Fits code ⟨.makes ⟨w.machine.store.fields.size, c⟩, w.machine⟩ w.past :=
    ⟨known, rfl⟩
  refine Leads.deed sound fits (fun found => .inl found) (fun found => found) ?_ ?_ ?_ ?_
  · intro id name
    rw [Store.fieldsOf_pushInstance]
    exact sound.holds.properties id name
  · refine ⟨Nat.le_of_lt (by rw [size]; exact Nat.lt_succ_self _), fun i same => ?_⟩
    cases same
    rw [size]
    exact Nat.lt_succ_self _
  · simp
  · exact ⟨Nat.le_refl _, by simp⟩

theorem setField (sound : w.Sound code) {i : Instance} (made : Did w.past (.makes i))
    (property : String) {v : Value} (known : Knows code w.past v) :
    w.Leads code
      { machine := { w.machine with store := w.machine.store.setField i.id property v }
        past := ⟨.stores i property v, w.machine⟩ :: w.past } := by
  have size : (w.machine.store.setField i.id property v).fields.size =
      w.machine.store.fields.size := by
    simp [Store.setField]
  have fits : Happening.Fits code ⟨.stores i property v, w.machine⟩ w.past := ⟨made, known⟩
  refine Leads.deed sound fits (fun found => .inl found) (fun found => found) ?_ ?_ ?_ ?_
  · intro id name
    rw [lastStored, ← sound.holds.properties id name]
    exact Store.get?_setField_of_lt (sound.holds.made made) property v id name
  · exact ⟨Nat.le_of_eq size.symm, by simp⟩
  · simp
  · exact ⟨Nat.le_refl _, by simp⟩

/-- A method is bound: its instance is in a scope of its own. -/
theorem bindMethod (sound : w.Sound code) {method : Closure} {i : Instance}
    (declared : DeclaresMethod code method.declaration)
    (flag : method.isInitializer = method.declaration.isInitializer)
    (made : Did w.past (.makes i)) :
    let bound : Closure :=
      { method with environment := ⟨w.machine.store.frames.size, method.environment.path⟩ }
    w.Leads code
      { machine :=
          { w.machine with
            store := w.machine.store.pushFrame (Bindings.empty.insert thisName (.ofInstance i)) }
        past := ⟨.binds method i bound, w.machine⟩ :: w.past } := by
  intro bound
  have fits : Happening.Fits code ⟨.binds method i bound, w.machine⟩ w.past :=
    ⟨made, declared, flag, rfl⟩
  apply Leads.deed sound fits
  · intro id name v found
    rw [Store.frame_pushFrame] at found
    split at found
    · obtain ⟨-, rfl⟩ := Bindings.get?_insert_empty.1 found
      exact .inr (Did.mono made (List.suffix_cons _ _))
    · exact .inl found
  · intro id v found
    have here : (w.machine.store.frame id).contains thisName = true := by
      rw [Bindings.contains, found]
      rfl
    rw [Store.frame_pushFrame_of_lt _ (Store.lt_of_contains here)]
    exact found
  · exact sound.holds.properties
  · exact ⟨Nat.le_refl _, by simp⟩
  · intro method' i' f same
    cases same
    rw [Store.frame_pushFrame_self]
    exact Bindings.get?_insert_self _ _ _
  · exact ⟨Nat.le_refl _, by simp⟩

/-- A class is made with a number that no other has. -/
theorem newClass (sound : w.Sound code) {name : Name} {reference : Option (Reference Place)}
    {superclass : Option Class} {e : Environment} {methods : List (FunctionDecl Place)}
    (known : ∀ c ∈ superclass, KnowsClass w.past c)
    (inCode : InCode code (.statement (.classDecl name reference methods))) :
    let made := Run.makeClass w.machine.store.nextObject name.text (Run.methodTable e methods)
      superclass
    w.Leads code
      { machine := { w.machine with store := w.machine.store.takeObject }
        past := ⟨.declares made superclass e methods, w.machine⟩ :: w.past } := by
  intro made
  have fits : Happening.Fits code ⟨.declares made superclass e methods, w.machine⟩ w.past :=
    ⟨known, name, reference, inCode, rfl⟩
  refine Leads.deed sound fits (fun found => .inl found) (fun found => found) ?_ ?_ ?_ ?_
  · exact sound.holds.properties
  · exact ⟨Nat.le_refl _, by simp⟩
  · simp
  · refine ⟨Nat.le_succ _, fun c superclass' e' methods' same => ?_⟩
    cases same
    exact Nat.lt_succ_self _

/-- A variable gets a value. -/
theorem setVariable (sound : w.Sound code) {target : FrameId} {name : String} {v : Value}
    (named : IsVariable name) (known : Knows code w.past v) :
    w.Leads code { w with
      machine := { w.machine with store := w.machine.store.setVariable target name v } } := by
  apply step sound
  · intro id other value found
    rw [Store.get?_setVariable] at found
    split at found
    · cases found
      exact .inr known
    · exact .inl found
  · intro id value found
    rw [Store.get?_setVariable, if_neg fun here => named.1 here.2.symm]
    exact found
  · rfl
  · exact Nat.le_refl _

theorem newFrame (sound : w.Sound code) {bound : Bindings Value}
    (known : ∀ {name v}, bound.get? name = some v → Knows code w.past v) :
    w.Leads code { w with
      machine := { w.machine with store := w.machine.store.pushFrame bound } } := by
  apply step sound
  · intro id name v found
    rw [Store.frame_pushFrame] at found
    split at found
    · exact .inr (known found)
    · exact .inl found
  · intro id v found
    have here : (w.machine.store.frame id).contains thisName = true := by
      rw [Bindings.contains, found]
      rfl
    rw [Store.frame_pushFrame_of_lt bound (Store.lt_of_contains here)]
    exact found
  · rfl
  · exact Nat.le_refl _

theorem takeObject (sound : w.Sound code) :
    w.Leads code { w with machine := { w.machine with store := w.machine.store.takeObject } } :=
  step sound (fun found => .inl found) (fun found => found) rfl (Nat.le_succ _)

end Leads

end Chronicle

end Lox
