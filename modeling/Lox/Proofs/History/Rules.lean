import Lox.Proofs.History.Sound
import Lox.Proofs.Run.ExpressionRules

/-!
# A chronicle stays sound

`Recounts code w t Q` says of a part `t` of a chronicled run that starts on `w`: however it ends, the
chronicle has been led on to a sound one, and if it ends well, `Q` holds of what it gives. There is
one lemma for each way to put parts together, one for each step and one for each rule of a chronicled
run, and `chronicler_recounts` puts them together.
-/

namespace Lox

theorem Chronicled.plain_bind {α β : Type} (act : Run α) (next : α → Run β) :
    Chronicled.plain (act >>= next) = Chronicled.plain act >>= fun a => Chronicled.plain (next a) := by
  funext w
  simp only [Chronicled.plain, Bind.bind, EStateM.bind]
  cases act w.machine <;> rfl

section

variable (code : Node → Prop)

/-- The part of a run leads the chronicle on and establishes `Q`. -/
def Recounts {α : Type} (w : Chronicle) (t : Chronicled α) (Q : α → Chronicle → Prop) : Prop :=
  match t w with
  | .ok a w' => w.Leads code w' ∧ Q a w'
  | .error _ w' => w.Leads code w'

/-- The evaluation of each part of the code leads the chronicle on. -/
structure Chronicler.Recounts (t : Chronicler) : Prop where
  eval : ∀ {w : Chronicle} {e : Expr Place}, w.Sound code → InCode code (.expression e) →
    Lox.Recounts code w (t.eval e) fun v w' => Knows code w'.past v
  exec : ∀ {w : Chronicle} {s : Stmt Place}, w.Sound code → InCode code (.statement s) →
    Lox.Recounts code w (t.exec s) fun completion w' => Knows code w'.past completion.value

end

variable {code : Node → Prop} {w w' : Chronicle}

/-- What is no function, class or instance comes from nowhere. -/
theorem Value.IsScalar.known {past : List Happening} {v : Value} (h : v.IsScalar) :
    Knows code past v := by
  cases v with
  | nil | boolean | number | string => trivial
  | callable | ofInstance => exact h.elim

namespace Recounts

variable {α β : Type} {Q : α → Chronicle → Prop} {R : β → Chronicle → Prop}

/-! ## Parts -/

theorem pure (sound : w.Sound code) {a : α} (h : Q a w) : Recounts code w (Pure.pure a) Q :=
  ⟨.refl sound, h⟩

theorem bind {t : Chronicled α} {f : α → Chronicled β} (first : Recounts code w t Q)
    (next : ∀ a w', w.Leads code w' → Q a w' → Recounts code w' (f a) R) :
    Recounts code w (t >>= f) R := by
  unfold Recounts at first ⊢
  simp only [Bind.bind, EStateM.bind]
  cases result : t w with
  | error stop w' =>
    rw [result] at first
    exact first
  | ok a w' =>
    rw [result] at first
    have second := next a w' first.1 first.2
    unfold Recounts at second
    dsimp only
    cases result' : f a w' with
    | error stop w'' =>
      rw [result'] at second
      exact first.1.trans second
    | ok b w'' =>
      rw [result'] at second
      exact ⟨first.1.trans second.1, second.2⟩

theorem mono {t : Chronicled α} {Q' : α → Chronicle → Prop} (h : Recounts code w t Q)
    (imp : ∀ a w', Q a w' → Q' a w') : Recounts code w t Q' := by
  unfold Recounts at h ⊢
  cases result : t w with
  | error stop w' =>
    rw [result] at h
    exact h
  | ok a w' =>
    rw [result] at h
    exact ⟨h.1, imp a w' h.2⟩

theorem ite {b : Bool} {t t' : Chronicled α} (yes : Recounts code w t Q)
    (no : Recounts code w t' Q) : Recounts code w (if b = true then t else t') Q := by
  cases b with
  | true => exact yes
  | false => exact no

/-- What runs in another scope. -/
theorem withEnvironment (sound : w.Sound code) (e : Environment) {t : Chronicled α}
    {Q : α → List Happening → Prop}
    (inner : ∀ w', w.Leads code w' →
      Recounts code w' t fun a w'' => Q a w''.past) :
    Recounts code w (Chronicled.withEnvironment e t) fun a w' => Q a w'.past := by
  have entered : w.Leads code { w with machine := { w.machine with current := e } } :=
    .of_store sound rfl
  have result := inner _ entered
  unfold Recounts at result
  unfold Recounts Chronicled.withEnvironment
  dsimp only
  cases ended : t { w with machine := { w.machine with current := e } } with
  | ok a w' =>
    rw [ended] at result
    exact ⟨(entered.trans result.1).trans (.of_store result.1.sound rfl), result.2⟩
  | error stop w' =>
    rw [ended] at result
    exact (entered.trans result).trans (.of_store result.sound rfl)

/-! ## Steps -/

/-- A step that gives a result. -/
theorem plain_ok {act : Run α} {a : α} {m : Machine} (result : act w.machine = .ok a m)
    (leads : w.Leads code { w with machine := m }) (h : Q a { w with machine := m }) :
    Recounts code w (Chronicled.plain act) Q := by
  simp only [Recounts, Chronicled.plain, result]
  exact ⟨leads, h⟩

/-- A step that stops the run. -/
theorem plain_error {act : Run α} {stop : Stop} {m : Machine}
    (result : act w.machine = .error stop m) (leads : w.Leads code { w with machine := m }) :
    Recounts code w (Chronicled.plain act) Q := by
  simp only [Recounts, Chronicled.plain, result]
  exact leads

theorem fault (sound : w.Sound code) (f : Fault) :
    Recounts code w (Chronicled.plain (Run.fault (α := α) f)) Q :=
  plain_error rfl (.refl sound)

theorem outOfFuel (sound : w.Sound code) :
    Recounts code w (Chronicled.plain (Run.outOfFuel (α := α))) Q :=
  plain_error rfl (.refl sound)

theorem read (sound : w.Sound code) {f : Machine → Except Fault α}
    (h : ∀ a, f w.machine = .ok a → Q a w) :
    Recounts code w (Chronicled.plain (Run.read f)) Q := by
  cases result : f w.machine with
  | ok a => exact plain_ok (by rw [Run.read, result]) (.refl sound) (h a result)
  | error fault => exact plain_error (by rw [Run.read, result]) (.refl sound)

theorem current (sound : w.Sound code) :
    Recounts code w (Chronicled.plain Run.current) fun _ w' => w' = w :=
  plain_ok rfl (.refl sound) rfl

theorem liftCause (sound : w.Sound code) (line : Nat) {result : Except RuntimeCause α}
    (h : ∀ a, result = .ok a → Q a w) :
    Recounts code w (Chronicled.plain (Run.liftCause line result)) Q := by
  cases result with
  | ok a => exact plain_ok rfl (.refl sound) (h a rfl)
  | error cause => exact fault sound _

/-- Asking the sink leaves the store alone. -/
theorem write (sound : w.Sound code) (text : String) :
    Recounts code w (Chronicled.plain (Run.write text)) fun _ _ => True := by
  cases refused : w.machine.sink.refusal .write w.machine.sink.requests with
  | some message =>
    apply plain_error (m := { w.machine with sink := w.machine.sink.asked })
    · simp only [Run.write, refused]
      rfl
    · exact .of_store sound rfl
  | none =>
    apply plain_ok (a := ()) (m := { w.machine with sink := w.machine.sink.take text })
    · simp [Run.write, refused]
    · exact .of_store sound rfl
    · trivial

theorem callNative (sound : w.Sound code) (f : Native) :
    Recounts code w (Chronicled.plain (Run.callNative f)) fun v w' => Knows code w'.past v := by
  cases f with
  | clock => exact plain_ok rfl (.of_store sound rfl) trivial

theorem newFrame (sound : w.Sound code) (outer : Environment) {bound : Bindings Value}
    (known : ∀ {name v}, bound.get? name = some v → Knows code w.past v) :
    Recounts code w (Chronicled.plain (Run.newFrame outer bound)) fun _ w' => w'.past = w.past :=
  plain_ok rfl (.newFrame sound known) rfl

theorem newFunction (sound : w.Sound code) {f : Closure} (known : KnowsFunction code w.past f) :
    Recounts code w (Chronicled.plain (Run.newFunction f)) fun v w' => Knows code w'.past v :=
  plain_ok rfl (.takeObject sound) known

theorem define (sound : w.Sound code) {name : String} (named : IsVariable name) {v : Value}
    (known : Knows code w.past v) :
    Recounts code w (Chronicled.plain (Run.define name v)) fun _ _ => True :=
  plain_ok rfl (.setVariable sound named known) trivial

theorem assign (sound : w.Sound code) (e : Environment) {name : Name} (named : IsVariable name.text)
    {v : Value} (known : Knows code w.past v) :
    Recounts code w (Chronicled.plain (Run.assign e name v)) fun _ _ => True := by
  cases found : w.machine.store.binder? e.path name.text with
  | none =>
    apply plain_error (m := w.machine)
    · simp only [Run.assign, Store.assign, found]
      rfl
    · exact .refl sound
  | some id =>
    apply plain_ok (a := ()) (m := { w.machine with
      store := w.machine.store.setVariable id name.text v })
    · simp only [Run.assign, Store.assign, found]
    · exact .setVariable sound named known
    · trivial

theorem assignVariable (sound : w.Sound code) (place : Place) {name : Name}
    (named : IsVariable name.text) {v : Value} (known : Knows code w.past v) :
    Recounts code w (Chronicled.plain (Run.assignVariable place name v)) fun _ _ => True := by
  cases place with
  | global => exact assign sound _ named known
  | scope hops =>
    cases found : w.machine.store.binderAt w.machine.current hops name.text with
    | error f =>
      apply plain_error (m := w.machine)
      · simp only [Run.assignVariable, Run.assignAt, Store.assignAt, found]
        rfl
      · exact .refl sound
    | ok id =>
      apply plain_ok (a := ()) (m := { w.machine with
        store := w.machine.store.setVariable id name.text v })
      · simp only [Run.assignVariable, Run.assignAt, Store.assignAt, found]
      · exact .setVariable sound named known
      · trivial

/-- A variable that is found has a known value. -/
theorem getAt (sound : w.Sound code) {f : Machine → Except Fault Value} {e : Environment}
    {hops : Nat} {name : String} (same : f w.machine = w.machine.store.getAt e hops name) :
    Recounts code w (Chronicled.plain (Run.read f)) fun v w' => Knows code w'.past v := by
  apply read sound
  intro v found
  rw [same] at found
  obtain ⟨id, here⟩ := Store.get?_of_getAt found
  exact sound.holds.values here

theorem readVariable (sound : w.Sound code) (place : Place) (name : Name) :
    Recounts code w (Chronicled.plain (Run.readVariable place name)) fun v w' =>
      Knows code w'.past v := by
  cases place with
  | scope hops => exact getAt sound rfl
  | global =>
    apply read sound
    intro v found
    obtain ⟨id, here⟩ := Store.get?_of_get found
    exact sound.holds.values here

/-! ## Deeds -/

theorem note (sound : w.Sound code) (deed : Deed)
    (fits : Happening.Fits code ⟨deed, w.machine⟩ w.past)
    (silent : match deed with
      | .reaches _ | .calls .. | .enters .. | .reads .. => True
      | .makes _ | .binds .. | .stores .. | .declares .. => False) :
    Recounts code w (Chronicled.note deed) fun _ w' => w.past <:+ w'.past :=
  have leads := Chronicle.Leads.note sound deed fits silent
  ⟨leads, leads.past⟩

theorem newInstance (sound : w.Sound code) {c : Class} (known : KnowsClass w.past c) :
    Recounts code w (Chronicled.newInstance c) fun i w' =>
      i.ofClass = c ∧ Did w'.past (.makes i) :=
  ⟨.newInstance sound known, rfl, w.machine, List.mem_cons_self⟩

theorem bindMethod (sound : w.Sound code) {c : Class} {i : Instance} {name : String}
    {method : Closure} (found : c.findMethod? name = some method) (known : KnowsClass w.past c)
    (made : Did w.past (.makes i)) :
    Recounts code w (Chronicled.bindMethod method i) fun bound w' =>
      Did w'.past (.binds method i bound) := by
  obtain ⟨level, mem, here⟩ := List.exists_of_findSome?_eq_some found
  obtain ⟨declared, flag⟩ := sound.fit.method known level mem here
  exact ⟨.bindMethod sound declared flag made, w.machine, List.mem_cons_self⟩

theorem setField (sound : w.Sound code) {i : Instance} (made : Did w.past (.makes i))
    (property : String) {v : Value} (known : Knows code w.past v) :
    Recounts code w (Chronicled.setField i property v) fun _ w' => Knows code w'.past v :=
  have leads := Chronicle.Leads.setField sound made property known
  ⟨leads, known.mono leads.past⟩

theorem newClass (sound : w.Sound code) {name : Name} {reference : Option (Reference Place)}
    {superclass : Option Class} {methods : List (FunctionDecl Place)}
    (known : ∀ c ∈ superclass, KnowsClass w.past c)
    (inCode : InCode code (.statement (.classDecl name reference methods))) :
    Recounts code w (Chronicled.newClass name.text superclass methods) fun made w' =>
      KnowsClass w'.past made :=
  ⟨.newClass sound known inCode, superclass, _, methods, w.machine, List.mem_cons_self⟩

/-! ## Methods -/

/-- A method that is read off an instance is bound to it. -/
theorem methodOf (sound : w.Sound code) {c : Class} {i : Instance} (knownClass : KnowsClass w.past c)
    (made : Did w.past (.makes i)) (name : Name) :
    Recounts code w (Chronicled.methodOf c i name) fun v w' => Knows code w'.past v := by
  unfold Chronicled.methodOf
  cases found : c.findMethod? name.text with
  | none => exact fault sound _
  | some method =>
    apply (bindMethod sound found knownClass made).bind
    intro bound w' leads did
    exact newFunction leads.sound (.bound did)

theorem getProperty (sound : w.Sound code) {object : Value} (known : Knows code w.past object)
    (name : Name) :
    Recounts code w (Chronicled.getProperty object name) fun v w' => Knows code w'.past v := by
  cases object with
  | ofInstance i =>
    apply (note sound (.reads i name) known trivial).bind
    intro _ w₁ leads₁ suffix
    have made : Did w₁.past (.makes i) := Did.mono known suffix
    have sound := leads₁.sound
    apply bind (Q := fun value w' => w' = w₁ ∧ ∀ v ∈ value, Knows code w'.past v)
    · apply read sound
      intro value found
      refine ⟨rfl, fun v stored => ?_⟩
      cases found
      rw [Option.mem_def, sound.holds.properties] at stored
      exact sound.fit.lastStored_knows stored
    · rintro value w₁ - ⟨rfl, stored⟩
      cases value with
      | some v => exact pure sound (stored v rfl)
      | none => exact methodOf sound (sound.fit.ofClass made) made name
  | nil | boolean | number | string | callable =>
    exact fault sound (.runtime .propertyOfOther name.line)

theorem superAt (sound : w.Sound code) (hops : Nat) :
    Recounts code w (Chronicled.plain (Run.superAt hops)) fun found w' =>
      KnowsClass w'.past found.1 ∧ Did w'.past (.makes found.2) := by
  unfold Run.superAt
  rw [Chronicled.plain_bind]
  apply (getAt sound rfl).bind
  intro superclass w₁ leads₁ knownClass
  match superclass with
  | .callable (.ofClass c) =>
    cases hops with
    | zero => exact fault leads₁.sound _
    | succ inner =>
      dsimp only
      rw [Chronicled.plain_bind]
      apply (getAt leads₁.sound rfl).bind
      intro receiver w₂ leads₂ known
      match receiver with
      | .ofInstance i => exact pure leads₂.sound ⟨KnowsClass.mono knownClass leads₂.past, known⟩
      | .nil | .boolean _ | .number _ | .string _ | .callable _ => exact fault leads₂.sound _
  | .nil | .boolean _ | .number _ | .string _ | .callable (.native _) | .callable (.function _ _)
  | .ofInstance _ => exact fault leads₁.sound _

theorem superMethod (sound : w.Sound code) (place : Place) (method : Name) :
    Recounts code w (Chronicled.superMethod place method) fun v w' => Knows code w'.past v := by
  cases place with
  | global => exact fault sound (.mismatch .superUnresolved)
  | scope hops =>
    apply (superAt sound hops).bind
    rintro ⟨c, i⟩ w' leads ⟨knownClass, made⟩
    exact methodOf leads.sound knownClass made method

/-! ## Classes -/

theorem readSuperclass (sound : w.Sound code) (superclass : Option (Reference Place)) :
    Recounts code w (Chronicled.plain (Run.readSuperclass superclass)) fun parent w' =>
      ∀ c ∈ parent, KnowsClass w'.past c := by
  cases superclass with
  | none => exact plain_ok rfl (.refl sound) nofun
  | some r =>
    rw [Run.readSuperclass, Chronicled.plain_bind]
    apply (readVariable sound r.mark r.name).bind
    intro v w' leads known
    match v with
    | .callable (.ofClass c) =>
      apply plain_ok rfl (.refl leads.sound)
      intro c' mem
      cases mem
      exact known
    | .nil | .boolean _ | .number _ | .string _ | .callable (.native _)
    | .callable (.function _ _) | .ofInstance _ => exact fault leads.sound _

/-- Around the methods of a class there may be a scope for its superclass. -/
theorem methodEnvironment (sound : w.Sound code) {parent : Option Class}
    (known : ∀ c ∈ parent, KnowsClass w.past c) :
    Recounts code w (Chronicled.plain (Run.methodEnvironment parent)) fun _ w' =>
      w'.past = w.past := by
  cases parent with
  | none => exact plain_ok rfl (.refl sound) rfl
  | some c =>
    rw [Run.methodEnvironment, Chronicled.plain_bind]
    apply (current sound).bind
    rintro e w - rfl
    apply newFrame sound
    intro name v found
    obtain ⟨-, rfl⟩ := Bindings.get?_insert_empty.1 found
    exact known c rfl

theorem declareClass (rooted : ∀ n, code n → n.Scoped .top) (sound : w.Sound code)
    {name : Name} {superclass : Option (Reference Place)} {methods : List (FunctionDecl Place)}
    (inCode : InCode code (.statement (.classDecl name superclass methods))) :
    Recounts code w (Chronicled.declareClass name superclass methods) fun _ _ => True := by
  obtain ⟨c, named, -⟩ := inCode.isScoped rooted
  apply (define (v := .nil) sound named trivial).bind
  intro _ w₁ leads₁ _
  apply (readSuperclass leads₁.sound superclass).bind
  intro parent w₂ leads₂ known
  apply (methodEnvironment leads₂.sound known).bind
  intro e w₃ leads₃ same
  rw [← same] at known
  have makes : Recounts code w₃
      (Chronicled.withEnvironment e (Chronicled.newClass name.text parent methods))
      fun made w' => KnowsClass w'.past made := by
    apply withEnvironment (Q := fun made past => KnowsClass past made) leads₃.sound e
    intro w' entered
    exact newClass entered.sound (fun c mem => (known c mem).mono entered.past) inCode
  apply makes.bind
  intro made w₄ leads₄ knownClass
  apply (current leads₄.sound).bind
  rintro e w₄ - rfl
  exact assign leads₄.sound e named knownClass

/-! ## Calls -/

variable {t : Chronicler} (h : t.Recounts code)
include h

theorem evalAll (sound : w.Sound code) {es : List (Expr Place)}
    (inCode : ∀ e ∈ es, InCode code (.expression e)) :
    Recounts code w (Chronicled.evalAll t es) fun vs w' => ∀ v ∈ vs, Knows code w'.past v := by
  induction es generalizing w with
  | nil => exact pure sound nofun
  | cons e es ih =>
    apply (h.eval sound (inCode e List.mem_cons_self)).bind
    intro v w₁ leads₁ known
    apply (ih leads₁.sound fun e mem => inCode e (List.mem_cons_of_mem _ mem)).bind
    intro vs w₂ leads₂ allKnown
    apply pure leads₂.sound
    intro x mem
    rcases List.mem_cons.1 mem with rfl | mem
    · exact known.mono leads₂.past
    · exact allKnown x mem

theorem execAll (sound : w.Sound code) {ss : List (Stmt Place)}
    (inCode : InCode code (.statements ss)) :
    Recounts code w (Chronicled.execAll t ss) fun completion w' =>
      Knows code w'.past completion.value := by
  induction ss generalizing w with
  | nil => exact pure sound trivial
  | cons s ss ih =>
    apply (h.exec sound inCode.head).bind
    intro completion w' leads known
    cases completion with
    | normal => exact ih leads.sound inCode.tail
    | returned v => exact pure leads.sound known

theorem execIn (sound : w.Sound code) (e : Environment) {ss : List (Stmt Place)}
    (inCode : InCode code (.statements ss)) :
    Recounts code w (Chronicled.execIn t e ss) fun completion w' =>
      Knows code w'.past completion.value :=
  withEnvironment (Q := fun completion past => Knows code past (Completion.value completion)) sound e
    fun _ entered => execAll h entered.sound inCode

/-- A call of a function that is a bound initializer gives the instance it is bound to. -/
theorem callClosure (sound : w.Sound code) {f : Closure} (known : KnowsFunction code w.past f)
    {arguments : List Value} (allKnown : ∀ v ∈ arguments, Knows code w.past v) :
    Recounts code w (Chronicled.callClosure t f arguments) fun v w' => Knows code w'.past v ∧
      (f.isInitializer = true → ∀ method i, Did w.past (.binds method i f) → v = .ofInstance i) := by
  apply (note sound (.enters f arguments) ⟨known, allKnown⟩ trivial).bind
  intro _ w₁ leads₁ suffix
  have bound {name : String} {v : Value}
      (found : (Run.parameters f.declaration.params arguments).get? name = some v) :
      Knows code w₁.past v := by
    obtain ⟨-, isArgument⟩ := List.of_mem_zip (Bindings.mem_of_get?_ofList found)
    exact (allKnown v isArgument).mono suffix
  apply (newFrame leads₁.sound f.environment bound).bind
  intro e w₂ leads₂ _
  apply (execIn h leads₂.sound e (known.body sound.fit)).bind
  intro completion w₃ leads₃ result
  cases f.isInitializer with
  | false => exact pure leads₃.sound ⟨result, nofun⟩
  | true =>
    -- whatever the body has done, the scope of the instance still holds it
    apply read leads₃.sound
    intro v found
    obtain ⟨id, here⟩ := Store.get?_of_getAt found
    refine ⟨leads₃.sound.holds.values here, fun _ method i did => ?_⟩
    have holds := leads₃.sound.holds.bound (did.mono (suffix.trans (leads₂.past.trans leads₃.past)))
    rw [Store.getAt_of_get? rfl holds] at found
    cases found
    rfl

theorem instantiate (sound : w.Sound code) {c : Class} (knownClass : KnowsClass w.past c)
    {arguments : List Value} (allKnown : ∀ v ∈ arguments, Knows code w.past v) :
    Recounts code w (Chronicled.instantiate t c arguments) fun v w' => Knows code w'.past v := by
  apply (newInstance sound knownClass).bind
  rintro i w₁ leads₁ ⟨rfl, made⟩
  cases found : i.ofClass.findMethod? initializerName with
  | none => exact pure leads₁.sound made
  | some method =>
    apply (bindMethod leads₁.sound found (knownClass.mono leads₁.past) made).bind
    intro bound w₂ leads₂ did
    have later := leads₁.past.trans leads₂.past
    apply (callClosure h leads₂.sound (.bound did) fun v mem => (allKnown v mem).mono later).bind
    intro _ w₃ leads₃ _
    exact pure leads₃.sound (made.mono (leads₂.past.trans leads₃.past))

theorem callValue (sound : w.Sound code) {callee : Value} (known : Knows code w.past callee)
    {arguments : List Value} (allKnown : ∀ v ∈ arguments, Knows code w.past v) (line : Nat) :
    Recounts code w (Chronicled.callValue t callee arguments line) fun v w' =>
      Knows code w'.past v := by
  apply (note sound (.calls callee arguments line) ⟨known, allKnown⟩ trivial).bind
  intro _ w₁ leads suffix
  have known := known.mono suffix
  have allKnown : ∀ v ∈ arguments, Knows code w₁.past v := fun v mem => (allKnown v mem).mono suffix
  cases callee with
  | callable c =>
    dsimp only
    split
    · cases c with
      | native f => exact callNative leads.sound f
      | ofClass c => exact instantiate h leads.sound known allKnown
      | function id f => exact (callClosure h leads.sound known allKnown).mono fun _ _ => And.left
    · exact fault leads.sound _
  | nil | boolean | number | string | ofInstance => exact fault leads.sound (.runtime .notCallable line)

/-! ## Expressions -/

theorem setProperty (sound : w.Sound code) {object : Value} (known : Knows code w.past object)
    (name : Name) {value : Expr Place} (inCode : InCode code (.expression value)) :
    Recounts code w (Chronicled.setProperty t object name value) fun v w' =>
      Knows code w'.past v := by
  cases object with
  | ofInstance i =>
    apply (h.eval sound inCode).bind
    intro v w₁ leads₁ result
    apply (setField leads₁.sound (known.mono leads₁.past) name.text result).bind
    intro _ w₂ leads₂ result
    exact pure leads₂.sound result
  | nil | boolean | number | string | callable =>
    exact fault sound (.runtime .fieldOfOther name.line)

theorem evalWith (rooted : ∀ n, code n → n.Scoped .top) (sound : w.Sound code) {e : Expr Place}
    (inCode : InCode code (.expression e)) :
    Recounts code w (Chronicled.evalWith t e) fun v w' => Knows code w'.past v := by
  cases e with
  | literal value =>
    apply pure sound
    cases value <;> trivial
  | grouping inner => exact h.eval sound (inCode.operand List.mem_cons_self)
  | unary op line operand =>
    apply (h.eval sound (inCode.operand List.mem_cons_self)).bind
    intro v w' leads _
    exact liftCause leads.sound line fun r result => (UnaryOp.apply_isScalar result).known
  | binary op line left right =>
    apply (h.eval sound (inCode.operand List.mem_cons_self)).bind
    intro a w₁ leads₁ _
    have rightInCode : InCode code (.expression right) := inCode.operand (by simp [Expr.operands])
    apply (h.eval leads₁.sound rightInCode).bind
    intro b w₂ leads₂ _
    exact liftCause leads₂.sound line fun r result => (BinaryOp.apply_isScalar result).known
  | logical op left right =>
    apply (h.eval sound (inCode.operand List.mem_cons_self)).bind
    intro a w₁ leads₁ known
    apply ite
    · exact pure leads₁.sound known
    · exact h.eval leads₁.sound (inCode.operand (by simp [Expr.operands]))
  | «variable» target => exact readVariable sound target.mark target.name
  | assign target value =>
    obtain ⟨c, -, named, -⟩ := inCode.isScoped rooted
    apply (h.eval sound (inCode.operand List.mem_cons_self)).bind
    intro v w₁ leads₁ known
    apply (assignVariable leads₁.sound target.mark named known).bind
    intro _ w₂ leads₂ _
    exact pure leads₂.sound (known.mono leads₂.past)
  | call callee line arguments =>
    apply (h.eval sound (inCode.operand List.mem_cons_self)).bind
    intro f w₁ leads₁ known
    have argumentsInCode : ∀ e ∈ arguments, InCode code (.expression e) :=
      fun e mem => inCode.operand (List.mem_cons_of_mem _ mem)
    apply (evalAll h leads₁.sound argumentsInCode).bind
    intro vs w₂ leads₂ allKnown
    exact callValue h leads₂.sound (known.mono leads₂.past) allKnown line
  | get object property =>
    apply (h.eval sound (inCode.operand List.mem_cons_self)).bind
    intro v w₁ leads₁ known
    exact getProperty leads₁.sound known property
  | set object property value =>
    apply (h.eval sound (inCode.operand List.mem_cons_self)).bind
    intro v w₁ leads₁ known
    exact setProperty h leads₁.sound known property (inCode.operand (by simp [Expr.operands]))
  | this line mark => exact readVariable sound mark ⟨thisName, line⟩
  | super line mark method => exact superMethod sound mark method

/-! ## Statements -/

theorem eval? (sound : w.Sound code) {value : Option (Expr Place)}
    (inCode : ∀ e ∈ value, InCode code (.expression e)) :
    Recounts code w (Chronicled.eval? t value) fun v w' => Knows code w'.past v := by
  cases value with
  | none => exact pure sound trivial
  | some e => exact h.eval sound (inCode e rfl)

theorem loop {condition : Expr Place} {body : Stmt Place} (n : Nat) (sound : w.Sound code)
    (inCode : InCode code (.statement (.loop condition body))) :
    Recounts code w (Chronicled.loop t n condition body) fun completion w' =>
      Knows code w'.past completion.value := by
  induction n generalizing w with
  | zero => exact outOfFuel sound
  | succ n ih =>
    have condInCode := inCode.part fun c => ⟨c, List.mem_cons_self⟩
    have bodyInCode := inCode.part fun c => ⟨c, List.mem_cons_of_mem _ List.mem_cons_self⟩
    apply (h.eval sound condInCode).bind
    intro holds w₁ leads₁ _
    apply ite
    · apply (h.exec leads₁.sound bodyInCode).bind
      intro completion w₂ leads₂ known
      cases completion with
      | normal => exact ih leads₂.sound
      | returned v => exact pure leads₂.sound known
    · exact pure leads₁.sound trivial

theorem choose (sound : w.Sound code) (condition : Value) {thenBranch : Stmt Place}
    {elseBranch : Option (Stmt Place)} (thenInCode : InCode code (.statement thenBranch))
    (elseInCode : ∀ s ∈ elseBranch, InCode code (.statement s)) :
    Recounts code w (Chronicled.choose t condition thenBranch elseBranch) fun completion w' =>
      Knows code w'.past completion.value := by
  cases elseBranch with
  | none =>
    apply ite
    · exact h.exec sound thenInCode
    · exact pure sound trivial
  | some s =>
    apply ite
    · exact h.exec sound thenInCode
    · exact h.exec sound (elseInCode s rfl)

theorem execWith (rooted : ∀ n, code n → n.Scoped .top) (n : Nat) (sound : w.Sound code)
    {s : Stmt Place} (inCode : InCode code (.statement s)) :
    Recounts code w (Chronicled.execWith n t s) fun completion w' =>
      Knows code w'.past completion.value := by
  cases s with
  | expression value =>
    apply (h.eval sound (inCode.part fun c => ⟨c, List.mem_cons_self⟩)).bind
    intro _ w' leads _
    exact pure leads.sound trivial
  | print value =>
    apply (h.eval sound (inCode.part fun c => ⟨c, List.mem_cons_self⟩)).bind
    intro v w₁ leads₁ _
    apply (write leads₁.sound _).bind
    intro _ w₂ leads₂ _
    exact pure leads₂.sound trivial
  | declare name initializer =>
    obtain ⟨c, named, -⟩ := inCode.isScoped rooted
    have initializerInCode : ∀ e ∈ initializer, InCode code (.expression e) := by
      intro e mem
      cases mem
      exact inCode.part fun c => ⟨_, List.mem_cons_self⟩
    apply (eval? h sound initializerInCode).bind
    intro v w₁ leads₁ known
    apply (define leads₁.sound named known).bind
    intro _ w₂ leads₂ _
    exact pure leads₂.sound trivial
  | block body =>
    rw [Chronicled.execWith, Chronicled.plain_bind, bind_assoc]
    apply (current sound).bind
    rintro e w - rfl
    apply (newFrame sound e fun found => by cases found).bind
    intro e w₁ leads₁ _
    exact execIn h leads₁.sound e (inCode.part fun c => ⟨_, List.mem_cons_self⟩)
  | conditional condition thenBranch elseBranch =>
    apply (h.eval sound (inCode.part fun c => ⟨c, List.mem_cons_self⟩)).bind
    intro v w₁ leads₁ _
    apply choose h leads₁.sound
    · exact inCode.part fun c => ⟨c, List.mem_cons_of_mem _ List.mem_cons_self⟩
    · intro s mem
      cases mem
      exact inCode.part fun c =>
        ⟨_, List.mem_cons_of_mem _ (List.mem_cons_of_mem _ List.mem_cons_self)⟩
  | loop condition body => exact loop h n sound inCode
  | function declaration =>
    obtain ⟨name, params, body⟩ := declaration
    obtain ⟨c, named, -⟩ := inCode.isScoped rooted
    simp only [Chronicled.execWith, Chronicled.plain_bind, bind_assoc]
    apply (current sound).bind
    rintro e w - rfl
    apply (newFunction (f := ⟨⟨name, params, body⟩, e, false⟩) sound (.plain inCode rfl)).bind
    intro v w₁ leads₁ known
    apply (define leads₁.sound named known).bind
    intro _ w₂ leads₂ _
    exact pure leads₂.sound trivial
  | ret line value =>
    have valueInCode : ∀ e ∈ value, InCode code (.expression e) := by
      intro e mem
      cases mem
      exact inCode.part fun c => ⟨c, List.mem_cons_self⟩
    apply (eval? h sound valueInCode).bind
    intro v w' leads known
    exact pure leads.sound known
  | classDecl name superclass methods =>
    apply (declareClass rooted sound inCode).bind
    intro _ w' leads _
    exact pure leads.sound trivial

end Recounts

/-- **With any fuel, all parts of well-scoped code keep a chronicle sound.** -/
theorem chronicler_recounts (rooted : ∀ n, code n → n.Scoped .top) (n : Nat) :
    (chronicler n).Recounts code := by
  induction n with
  | zero => exact ⟨fun sound _ => .outOfFuel sound, fun sound _ => .outOfFuel sound⟩
  | succ n ih =>
    constructor
    · intro w e sound inCode
      apply (Recounts.note sound (.reaches (.expression e)) inCode trivial).bind
      intro _ w' leads _
      exact Recounts.evalWith ih rooted leads.sound inCode
    · intro w s sound inCode
      apply (Recounts.note sound (.reaches (.statement s)) inCode trivial).bind
      intro _ w' leads _
      exact Recounts.execWith ih rooted n leads.sound inCode

/-- The statements of a program keep a chronicle sound. -/
theorem Recounts.program {t : Chronicler} (h : t.Recounts code) (sound : w.Sound code)
    {ss : List (Stmt Place)} (inCode : InCode code (.statements ss)) :
    Recounts code w (Chronicled.program t ss) fun _ _ => True := by
  induction ss generalizing w with
  | nil => exact pure sound trivial
  | cons s ss ih =>
    apply (h.exec sound inCode.head).bind
    intro completion w' leads _
    cases completion with
    | normal => exact ih leads.sound inCode.tail
    | returned v => exact fault leads.sound _

end Lox
