import Lox.Proofs.History.Sessions

/-!
# Initializers give their instance

A class that is called gives a new instance of it. A function that has the name of initializers and
has been bound to an instance gives that instance, however it has been come by and whatever its body
does. Both hold wherever a session may stand.
-/

namespace Lox

variable {code : Node → Prop}

/-- No instance with this number has been made, and no variable and no property holds one. -/
structure Chronicle.LacksInstance (w : Chronicle) (id : InstanceId) : Prop where
  unmade : ∀ i, Did w.past (.makes i) → i.id ≠ id
  scopes : ∀ frame name i, (w.machine.store.frame frame).get? name = some (.ofInstance i) →
    i.id ≠ id
  properties : ∀ object name i, (w.machine.store.fieldsOf object).get? name = some (.ofInstance i) →
    i.id ≠ id

/-- The number of the next instance is one that no other has. -/
theorem Chronicle.Sound.lacksNext {w : Chronicle} (sound : w.Sound code) :
    w.LacksInstance w.machine.store.fields.size := by
  have unmade {i : Instance} (did : Did w.past (.makes i)) : i.id ≠ w.machine.store.fields.size :=
    Nat.ne_of_lt (sound.holds.made did)
  constructor
  · exact fun i did => unmade did
  · exact fun frame name i found => unmade (sound.holds.values found)
  · intro object name i found
    rw [sound.holds.properties] at found
    exact unmade (sound.fit.lastStored_knows found)

namespace Run

/-- What is called as a class gives an instance with the next number. -/
theorem callValue_ofClass {ev : Evaluator} {c : Class} {arguments : List Value} {line : Nat}
    {m m' : Machine} {v : Value}
    (ended : callValue ev (.callable (.ofClass c)) arguments line m = .ok v m') :
    v = .ofInstance ⟨m.store.fields.size, c⟩ := by
  unfold callValue at ended
  dsimp only at ended
  split at ended
  · obtain ⟨i, m₁, made, rest⟩ := of_bind_ok ended
    cases made
    cases found : c.findMethod? initializerName with
    | none =>
      rw [found] at rest
      cases rest
      rfl
    | some method =>
      rw [found] at rest
      obtain ⟨bound, m₂, -, rest⟩ := of_bind_ok rest
      obtain ⟨-, m₃, -, rest⟩ := of_bind_ok rest
      cases rest
      rfl
  · cases ended

end Run

/-- What is called is a function of the code, or a method that has been bound to an instance; and if
that method is an initializer, then a call that ends well gives the instance. -/
structure Happening.Initializes (code : Node → Prop) (h : Happening) (earlier : List Happening)
    (f : Closure) (arguments : List Value) : Prop where
  origin : KnowsFunction code earlier f
  method : ∀ method i, Did earlier (.binds method i f) →
    DeclaresMethod code f.declaration ∧ Did earlier (.makes i)
  gives : ∀ method i, Did earlier (.binds method i f) →
    f.declaration.name.text = initializerName → ∀ fuel v m',
      Run.callClosure (evaluator fuel) f arguments h.machine = .ok v m' → v = .ofInstance i

theorem AllFit.initializes (rooted : ∀ n, code n → n.Scoped .top) {past later earlier : List Happening}
    {h : Happening} (fit : AllFit code past) (split : past = later ++ h :: earlier) {f : Closure}
    {arguments : List Value} (enters : h.deed = .enters f arguments) :
    h.Initializes code earlier f arguments := by
  obtain ⟨deed, m⟩ := h
  cases enters
  obtain ⟨⟨known, allKnown⟩, sound⟩ := fit.happening split
  refine ⟨known, fun method i did => ?_, fun method i did named fuel v m' ended => ?_⟩
  · obtain ⟨declared, -, made⟩ := sound.fit.binds did
    exact ⟨declared, made⟩
  · have flag : f.isInitializer = true := by
      rw [(sound.fit.binds did).2.1]
      exact beq_iff_eq.2 named
    have recounts := Recounts.callClosure (chronicler_recounts rooted fuel) sound known allKnown
    obtain ⟨w', -, -, -, gives⟩ :=
      recounts.result (Chronicled.Tells.callClosure (chronicler_tells fuel) f arguments) ended
    exact gives flag method i did

/-- **Initializers give their instance.** Wherever a session may stand, a call of a class that ends
well gives an instance of this class that was not there before. Each function body that is ever
entered is that of a function that is declared as one, or of a method that has been bound to an
instance. A method with the name of initializers that ends well gives the instance it has been bound
to. -/
theorem initializers_give_instances (sink : Sink) (clock : Clock) (requests : List Request) :
    let s := (ChronicledSession.start sink clock).after requests
    s.forget = (Session.start sink clock).after requests ∧
      (∀ w, s.chronicle.Passed w → ∀ c arguments line fuel v m',
        Run.callValue (evaluator fuel) (.callable (.ofClass c)) arguments line w.machine =
          .ok v m' → ∃ i, v = .ofInstance i ∧ i.ofClass = c ∧ w.LacksInstance i.id) ∧
      ∀ later h earlier, s.chronicle.past = later ++ h :: earlier → ∀ f arguments,
        h.deed = .enters f arguments → h.Initializes (codeOf requests) earlier f arguments := by
  intro s
  have sound : s.chronicle.Sound (codeOf requests) :=
    ChronicledSession.after_sound sink clock requests
  refine ⟨ChronicledSession.after_forget _ requests, ?_, ?_⟩
  · intro w passed c arguments line fuel v m' ended
    exact ⟨_, Run.callValue_ofClass ended, rfl, (sound.passed passed).lacksNext⟩
  · intro later h earlier split f arguments enters
    exact sound.fit.initializes (codeOf_scoped requests) split enters

-- `return` in an initializer ends it early, and the instance that it was bound to is printed
example : ((Session.start .reliable (.ticking 0)).after
      [.run 30 ("class A \x7b init(n) \x7b this.n = n; if (n == 1) return; this.n = 0; \x7d \x7d" ++
        "class B < A \x7b init() \x7b super.init(1).m = 2; \x7d \x7d" ++
        "var b = B(); print b.n; var i = b.init; b = nil; print i().m;")]).machine.sink.written =
    "1\n2\n" := by
  decide +kernel

end Lox
