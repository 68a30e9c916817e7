import Lox.Proofs.Run.Fits

/-!
# Calls keep a watch good

`Watcher.Keeps` is what the evaluation of the parts of a program has to do for a watch: a value that
it gives is admitted, and behind a statement the scopes fit the spot there. The lemmas here, and
those of the modules after this one, are one for each rule of a watched run, and take the parts for
granted.
-/

namespace Lox

/-- How a statement at the spot may end. -/
def Watch.Completes (code : Node → Prop) (w : Watch) (p : Spot) : Completion → Prop
  | .normal => True
  | .returned v => w.Admits code v ∧ p.context.function ≠ .outside

/-- The evaluation of each part of the code keeps the watch good. -/
structure Watcher.Keeps (code : Node → Prop) (t : Watcher) : Prop where
  eval : ∀ {w : Watch} {p : Spot} {e : Expr Place}, w.Good code → p.Fits w.machine w.moments →
    Stands code p.context (.expression e) →
    Lox.Keeps code noFrame w (t.eval p e) fun v w' => w'.Admits code v
  exec : ∀ {w : Watch} {p : Spot} {s : Stmt Place}, w.Good code → p.Fits w.machine w.moments →
    Stands code p.context (.statement s) →
    Lox.Keeps code w.active w (t.exec p s) fun c w' =>
      (p.after s).Fits w'.machine w'.moments ∧ w'.Completes code p c

variable {code : Node → Prop} {changing : FrameId → Prop} {w w' : Watch} {p : Spot}

/-! ## Parts -/

theorem Stands.operand {c : Context} {e : Expr Place} (h : Stands code c (.expression e))
    (operand : Expr Place) (mem : operand ∈ e.operands) : Stands code c (.expression operand) :=
  h.part (List.mem_map_of_mem mem)

theorem Stands.inside {c inner : Context} {s : Stmt Place} {n : Node}
    (h : Stands code c (.statement s)) (mem : (inner, n) ∈ s.parts c) : Stands code inner n :=
  h.part mem

theorem Stands.head {c : Context} {s : Stmt Place} {ss : List (Stmt Place)}
    (h : Stands code c (.statements (s :: ss))) : Stands code c (.statement s) :=
  h.part List.mem_cons_self

theorem Stands.tail {c : Context} {s : Stmt Place} {ss : List (Stmt Place)}
    (h : Stands code c (.statements (s :: ss))) :
    Stands code (c.within (s.scopesAfter c.scopes)) (.statements ss) :=
  h.part (List.mem_cons_of_mem _ List.mem_cons_self)

/-! ## Methods -/

/-- The class that a method is found in is the one that the watch has its spot for. -/
theorem Class.definer?_of_findMethod? {c : Class} {name : String} {f : Closure}
    (found : c.findMethod? name = some f) :
    ∃ level ∈ c.lineage, c.definer? name = some level ∧ level.methods.get? name = some f := by
  unfold Class.findMethod? at found
  unfold Class.definer?
  revert found
  generalize c.lineage = levels
  intro found
  induction levels with
  | nil => simp at found
  | cons level rest ih =>
    rw [List.findSome?_cons] at found
    cases here : level.methods.get? name with
    | some g =>
      rw [here] at found
      cases found
      exact ⟨level, List.mem_cons_self, by simp [Bindings.contains, here], here⟩
    | none =>
      rw [here] at found
      obtain ⟨definer, mem, isDefiner, method⟩ := ih found
      refine ⟨definer, List.mem_cons_of_mem _ mem, ?_, method⟩
      rw [List.find?_cons_of_neg (by simp [Bindings.contains, here]), isDefiner]

namespace Keeps

theorem methodSpot (good : w.Good code) {c : Class} (admits : w.AdmitsClass code c) {name : String}
    {f : Closure} (found : c.findMethod? name = some f) :
    Keeps code changing w (Watched.methodSpot c name) fun p w' =>
      w' = w ∧ w.HostsMethod code p f := by
  obtain ⟨level, mem, definer, method⟩ := Class.definer?_of_findMethod? found
  unfold Keeps Watched.methodSpot
  rw [definer]
  exact ⟨.refl good, rfl, rfl, (admits level mem).2 name f method⟩

/-- A method that is bound carries the scopes that its spot has. -/
theorem bindMethod (good : w.Good code) {f : Closure} {i : Instance}
    (hosts : w.HostsMethod code p f) (admits : w.Admits code (.ofInstance i)) :
    Keeps code changing w (Watched.plain (Run.bindMethod f i)) fun bound w' =>
      bound.declaration = f.declaration ∧ w'.Hosts code p bound := by
  have holds : ∀ name v, (Bindings.empty.insert thisName (.ofInstance i)).get? name = some v →
      w.Holds code name v := by
    intro name v found
    obtain ⟨isThis, rfl⟩ := Bindings.get?_insert_empty.1 found
    exact ⟨admits, fun _ => ⟨i, rfl⟩, fun isSuper => absurd (isThis.symm.trans isSuper) (by decide)⟩
  unfold Run.bindMethod
  rw [Watched.plain_bind]
  refine (newFrame good f.environment holds).bind fun e w' reach => ?_
  rintro ⟨rfl, positive, lt, frame⟩
  obtain ⟨outer, scopes, mirrors, k, out, around⟩ := hosts.scopes
  refine pure reach.good ⟨rfl, hosts.stands, hosts.named, ?_, fun _ => ?_,
    hosts.known.mono reach.grows.moments, k + 1, out, ?_⟩
  · rw [scopes]
    refine .inside positive lt (fun name ready => ?_) (mirrors.grows reach.grows)
    obtain ⟨isThis, -⟩ := Bindings.get?_insert_empty.1 ready
    rw [frame, Bindings.contains_insert]
    simp [isThis]
  · rw [scopes]
    exact ⟨_, rfl, Bindings.get?_insert_self _ _ _⟩
  · rw [scopes]
    exact around

theorem newFunction (good : w.Good code) {f : Closure} (hosts : w.Hosts code p f) :
    Keeps code changing w (Watched.newFunction p f) fun v w' => w'.Admits code v := by
  refine (newObject good p).bind fun id w' reach => ?_
  rintro ⟨rfl, rfl⟩
  exact pure reach.good
    ((hosts.grows reach.grows).admits (w.lt_declared p) (w.declared_spot p))

/-- A method that is read off an instance is a function of its own. -/
theorem methodOf (good : w.Good code) {c : Class} {i : Instance} (admits : w.AdmitsClass code c)
    (bound : w.Admits code (.ofInstance i)) (name : Name) :
    Keeps code changing w (Watched.methodOf c i name) fun v w' => w'.Admits code v := by
  unfold Watched.methodOf
  cases found : c.findMethod? name.text with
  | none => exact failWith good _ _
  | some f =>
    refine (methodSpot good admits found).bind fun p w' reach => ?_
    rintro ⟨rfl, hosts⟩
    refine (bindMethod reach.good hosts bound).bind fun f w'' reach' => ?_
    rintro ⟨-, hosts⟩
    exact newFunction reach'.good hosts

end Keeps

/-! ## Calls -/

namespace Keeps

variable {t : Watcher} (h : t.Keeps code)
include h

theorem evalAll (good : w.Good code) (fits : p.Fits w.machine w.moments) {es : List (Expr Place)}
    (stands : ∀ e ∈ es, Stands code p.context (.expression e)) :
    Keeps code noFrame w (Watched.evalAll t p es) fun vs w' => ∀ v ∈ vs, w'.Admits code v := by
  induction es generalizing w with
  | nil => exact pure good (by simp)
  | cons e es ih =>
    refine (h.eval good fits (stands e List.mem_cons_self)).bind fun v w' reach admits => ?_
    refine (ih reach.good (fits.reaches good reach)
      fun e mem => stands e (List.mem_cons_of_mem _ mem)).bind fun vs w'' reach' all => ?_
    refine pure reach'.good fun x mem => ?_
    rcases List.mem_cons.1 mem with rfl | mem
    · exact admits.grows reach'.grows
    · exact all x mem

theorem execAll (good : w.Good code) (fits : p.Fits w.machine w.moments) {ss : List (Stmt Place)}
    (stands : Stands code p.context (.statements ss)) :
    Keeps code w.active w (Watched.execAll t p ss) fun c w' => w'.Completes code p c := by
  induction ss generalizing w p with
  | nil => exact pure good trivial
  | cons s ss ih =>
    refine (h.exec good fits stands.head).bind fun completion w' reach => ?_
    rintro ⟨fits', completes⟩
    cases completion with
    | normal =>
      have rest := ih (p := p.after s) reach.good fits' stands.tail
      rw [reach.active_eq] at rest
      exact rest
    | returned v => exact pure reach.good completes

/-- What a call of a function does is out of reach for the scopes that are there before. -/
theorem callClosure (good : w.Good code) {f : Closure} (hosts : w.Hosts code p f)
    {arguments : List Value} (length : arguments.length = f.declaration.params.length)
    (admits : ∀ v ∈ arguments, w.Admits code v) :
    Keeps code noFrame w (Watched.callClosure t p f arguments) fun v w' => w'.Admits code v := by
  have holds : ∀ name v, (Run.parameters f.declaration.params arguments).get? name = some v →
      w.Holds code name v := by
    intro name v found
    obtain ⟨isParam, isArgument⟩ := List.of_mem_zip (Bindings.mem_of_get?_ofList found)
    obtain ⟨x, mem, rfl⟩ := List.mem_map.1 isParam
    exact .of_variable (admits v isArgument) (hosts.named x mem)
  -- only the scope of the call gets new names
  refine Keeps.widen (fun id => id = w.machine.store.frames.size) ?_
    fun id lt same => absurd same (Nat.ne_of_lt lt)
  refine (newFrame good f.environment holds).bind fun e w' reach => ?_
  rintro ⟨rfl, positive, lt, frame⟩
  have hosts' := hosts.grows reach.grows
  refine (withEnvironment (Q := fun c w' => w'.Completes code (p.inBody f) c)
    (R := fun c w' => w'.Admits code c.value) reach.good _ (fun entered => ?_)
    ?_).bind fun completion w'' reach' result => ?_
  · have inner := hosts'.grows
      (.withCurrent noFrame w' ⟨w.machine.store.frames.size, f.environment.path⟩)
    exact execAll h entered (inner.body length rfl positive lt frame) hosts.stands
  · intro c w' w'' grows completes
    cases c with
    | normal => trivial
    | returned v => exact Watch.Admits.grows completes.1 grows
  · cases isInit : f.isInitializer with
    | false => exact pure reach'.good result
    | true =>
      have hosts'' := hosts'.grows reach'.grows
      obtain ⟨scope, here, ready⟩ := hosts''.instance? isInit
      rw [List.head?_eq_getElem?] at here
      obtain ⟨id, found, binds⟩ := hosts''.mirrors.at_position here
      exact (readAt reach'.good rfl found (binds thisName ready)).mono
        fun _ _ _ holds => holds.admits

theorem instantiate (good : w.Good code) {c : Class} (admitsClass : w.AdmitsClass code c)
    {arguments : List Value} (length : arguments.length = c.arity)
    (admits : ∀ v ∈ arguments, w.Admits code v) :
    Keeps code noFrame w (Watched.instantiate t c arguments) fun v w' => w'.Admits code v := by
  refine (newInstance good admitsClass).bind fun i w' reach => ?_
  rintro ⟨rfl, admitsInstance⟩
  cases found : i.ofClass.findMethod? initializerName with
  | none => exact pure reach.good admitsInstance
  | some f =>
    refine (methodSpot reach.good (admitsClass.grows reach.grows) found).bind fun p w'' reach' => ?_
    rintro ⟨rfl, hosts⟩
    refine (bindMethod reach'.good hosts admitsInstance).bind fun bound w₁ reach₁ => ?_
    rintro ⟨declaration, hosts⟩
    have enough : arguments.length = bound.declaration.params.length := by
      rw [declaration, length, Class.arity, found]
      rfl
    refine (callClosure h reach₁.good hosts enough fun v mem =>
      ((admits v mem).grows reach.grows).grows reach₁.grows).bind fun _ w₂ reach₂ _ => ?_
    exact pure reach₂.good ((admitsInstance.grows reach₁.grows).grows reach₂.grows)

theorem callValue (good : w.Good code) {callee : Value} (admitsCallee : w.Admits code callee)
    {arguments : List Value} (admits : ∀ v ∈ arguments, w.Admits code v) (line : Nat) :
    Keeps code noFrame w (Watched.callValue t callee arguments line)
      fun v w' => w'.Admits code v := by
  unfold Watched.callValue
  cases callee with
  | callable c =>
    dsimp only
    split
    · next length =>
      cases c with
      | native f => exact callNative good f
      | ofClass c => exact instantiate h good admitsCallee length admits
      | function id f =>
        exact callClosure h good admitsCallee.2 length admits
    · exact failWith good _ _
  | nil | boolean | number | string | ofInstance => exact failWith good _ _

end Keeps

end Lox
