import Lox.Proofs.Run.Invariant

/-!
# Steps that keep a watch good

`Keeps changing w t Q` says of a part `t` of a watched run that starts on `w`: however it ends, the
watch is good again, it has grown, and the scope that was active is active again; if it ends well,
`Q` holds of what it gives; and it stops over a missing variable only where an assignment stands in
the initializer of its own target. There is one lemma for each way to put parts together and one for
each step on the machine.
-/

namespace Lox

/-! ## Early stores -/

/-- A variable is about to get a value before its own initializer has ended. -/
def Moment.isEarlyStore (m : Moment) : Bool :=
  match m.event with
  | .store target => m.spot.context.scopes.isUnfinished target.name.text
  | .evaluate _ | .execute _ | .superclass _ => false

/-- The early stores so far, last one first. -/
def Watch.earlyStores (w : Watch) : List Moment := w.moments.filter (·.isEarlyStore)

/-- How a part of a run stops that begins at `w` and leaves `w'`: over a missing variable if an early
store was the last thing it did, and without such a fault otherwise. -/
def Watch.StopsWith (w w' : Watch) : Stop → Prop
  | .fault (.mismatch cause) => ∃ m target, m.event = .store target ∧
    w'.earlyStores = m :: w.earlyStores ∧ cause = .missingVariable target.name.text 0
  | .fault (.runtime _ _) | .fault (.io _) | .outOfFuel => w'.earlyStores = w.earlyStores

section

variable (code : Node → Prop)

/-- The watch is good again, and the scope that was active is active again. -/
structure Watch.Reaches (changing : FrameId → Prop) (w w' : Watch) : Prop where
  good : w'.Good code
  grows : w.Grows changing w'
  current : w'.machine.current = w.machine.current

/-- The part of a run keeps the watch good and establishes `Q`. -/
def Keeps {α : Type} (changing : FrameId → Prop) (w : Watch) (t : Watched α)
    (Q : α → Watch → Prop) : Prop :=
  match t w with
  | .ok a w' => w.Reaches code changing w' ∧ w'.earlyStores = w.earlyStores ∧ Q a w'
  | .error stop w' => w.Reaches code changing w' ∧ w.StopsWith w' stop

end

variable {code : Node → Prop} {changing : FrameId → Prop} {w w' w'' : Watch} {p : Spot}

namespace Watch.Reaches

theorem refl (good : w.Good code) : w.Reaches code changing w := ⟨good, .refl _ _, rfl⟩

theorem trans (first : w.Reaches code changing w') (second : w'.Reaches code changing w'') :
    w.Reaches code changing w'' :=
  ⟨second.good, first.grows.trans second.grows, second.current.trans first.current⟩

theorem widen {wider : FrameId → Prop} (h : w.Reaches code changing w')
    (within : ∀ id < w.machine.store.frames.size, changing id → wider id) :
    w.Reaches code wider w' :=
  { h with grows := h.grows.widen within }

/-- Nothing has changed in the scopes that were there. -/
theorem still (h : w.Reaches code noFrame w') : w.Reaches code changing w' :=
  h.widen fun _ _ none => none.elim

end Watch.Reaches

theorem Spot.Fits.reaches (fits : p.Fits w.machine w.moments) (good : w.Good code)
    (reach : w.Reaches code noFrame w') : p.Fits w'.machine w'.moments :=
  fits.grows good.globals reach.grows reach.current id

theorem Watch.StopsWith.after {stop : Stop} (same : w'.earlyStores = w.earlyStores)
    (h : w'.StopsWith w'' stop) : w.StopsWith w'' stop := by
  match stop with
  | .fault (.mismatch cause) =>
    obtain ⟨m, target, event, stores, cause⟩ := h
    exact ⟨m, target, event, same ▸ stores, cause⟩
  | .fault (.runtime _ _) | .fault (.io _) | .outOfFuel => exact Eq.trans h same

/-! ## Putting parts together -/

namespace Keeps

variable {α β : Type} {Q : α → Watch → Prop} {R : β → Watch → Prop}

theorem pure (good : w.Good code) {a : α} (h : Q a w) : Keeps code changing w (Pure.pure a) Q :=
  ⟨.refl good, rfl, h⟩

theorem bind {t : Watched α} {f : α → Watched β} (first : Keeps code changing w t Q)
    (next : ∀ a w', w.Reaches code changing w' → Q a w' → Keeps code changing w' (f a) R) :
    Keeps code changing w (t >>= f) R := by
  unfold Keeps at first ⊢
  simp only [Bind.bind, EStateM.bind]
  cases result : t w with
  | error stop w' =>
    rw [result] at first
    exact first
  | ok a w' =>
    rw [result] at first
    obtain ⟨reach, stores, established⟩ := first
    have second := next a w' reach established
    unfold Keeps at second
    simp only
    cases result' : f a w' with
    | ok b w'' =>
      rw [result'] at second
      exact ⟨reach.trans second.1, second.2.1.trans stores, second.2.2⟩
    | error stop w'' =>
      rw [result'] at second
      exact ⟨reach.trans second.1, second.2.after stores⟩

theorem mono {t : Watched α} {Q' : α → Watch → Prop} (h : Keeps code changing w t Q)
    (imp : ∀ a w', w.Reaches code changing w' → Q a w' → Q' a w') :
    Keeps code changing w t Q' := by
  unfold Keeps at h ⊢
  cases result : t w with
  | ok a w' =>
    rw [result] at h
    exact ⟨h.1, h.2.1, imp a w' h.1 h.2.2⟩
  | error stop w' =>
    rw [result] at h
    exact h

theorem widen (changing : FrameId → Prop) {wider : FrameId → Prop} {t : Watched α}
    (h : Keeps code changing w t Q)
    (within : ∀ id < w.machine.store.frames.size, changing id → wider id) :
    Keeps code wider w t Q := by
  unfold Keeps at h ⊢
  cases result : t w with
  | ok a w' =>
    rw [result] at h
    exact ⟨h.1.widen within, h.2⟩
  | error stop w' =>
    rw [result] at h
    exact ⟨h.1.widen within, h.2⟩

theorem still {t : Watched α} (h : Keeps code noFrame w t Q) : Keeps code changing w t Q :=
  h.widen _ fun _ _ none => none.elim

theorem ite {b : Bool} {t t' : Watched α} (yes : b = true → Keeps code changing w t Q)
    (no : b = false → Keeps code changing w t' Q) :
    Keeps code changing w (if b = true then t else t') Q := by
  cases b with
  | true => exact yes rfl
  | false => exact no rfl

end Keeps

/-! ## Steps on the machine -/

theorem Watched.plain_bind {α β : Type} (act : Run α) (f : α → Run β) :
    Watched.plain (act >>= f) = Watched.plain act >>= fun a => Watched.plain (f a) := by
  funext w
  simp only [Watched.plain, bind, EStateM.bind]
  cases act w.machine <;> rfl

/-- The watch with another machine. -/
def Watch.on (w : Watch) (m : Machine) : Watch := { w with machine := m }

namespace Keeps

variable {α : Type} {Q : α → Watch → Prop} {act : Run α} {m : Machine}

theorem plain_ok {a : α} (result : act w.machine = .ok a m)
    (reach : w.Reaches code changing (w.on m)) (h : Q a (w.on m)) :
    Keeps code changing w (Watched.plain act) Q := by
  simp only [Keeps, Watched.plain, result]
  exact ⟨reach, rfl, h⟩

theorem plain_error (stop : Stop) (result : act w.machine = .error stop m)
    (reach : w.Reaches code changing (w.on m))
    (noMismatch : ∀ cause, stop ≠ .fault (.mismatch cause)) :
    Keeps code changing w (Watched.plain act) Q := by
  simp only [Keeps, Watched.plain, result]
  refine ⟨reach, ?_⟩
  match stop with
  | .fault (.mismatch cause) => exact absurd rfl (noMismatch cause)
  | .fault (.runtime _ _) | .fault (.io _) | .outOfFuel => rfl

/-- A step that leaves the machine alone. -/
theorem plain_pure (good : w.Good code) {a : α} (result : act w.machine = .ok a w.machine)
    (h : Q a w) : Keeps code changing w (Watched.plain act) Q :=
  plain_ok result (.refl good) h

theorem failWith (good : w.Good code) (cause : RuntimeCause) (line : Nat) :
    Keeps code changing w (Watched.plain (Run.failWith (α := α) cause line)) Q :=
  plain_error _ rfl (.refl good) (fun _ => by simp)

theorem outOfFuel (good : w.Good code) :
    Keeps code changing w (Watched.plain (Run.outOfFuel (α := α))) Q :=
  plain_error _ rfl (.refl good) (fun _ => by simp)

theorem current (good : w.Good code) :
    Keeps code changing w Watched.current fun e w' => e = w.machine.current ∧ w' = w :=
  plain_pure good rfl ⟨rfl, rfl⟩

end Keeps

/-- A machine with the same store and the same scope active. -/
theorem Watch.Reaches.sameStore {m : Machine} (good : w.Good code)
    (store : m.store = w.machine.store) (current : m.current = w.machine.current) :
    w.Reaches code changing (w.on m) := by
  have grows : w.Grows changing (w.on m) :=
    { Watch.Grows.refl changing w with
      frames := by simp [Watch.on, store]
      names := by simp [Watch.on, store]
      fixed := by simp [Watch.on, store]
      objects := by simp [Watch.on, store] }
  refine ⟨good.grows grows (fun _ _ _ h => .inl ?_) (fun _ _ _ h => .inl ?_) good.moments, grows,
    current⟩
  · rwa [show (w.on m).machine.store = w.machine.store from store] at h
  · rwa [show (w.on m).machine.store = w.machine.store from store] at h

namespace Keeps

theorem write (good : w.Good code) (text : String) {Q : Unit → Watch → Prop}
    (h : ∀ w', Q () w') : Keeps code changing w (Watched.plain (Run.write text)) Q := by
  cases refused : w.machine.sink.refusal .write w.machine.sink.requests with
  | some message =>
    refine plain_error (m := { w.machine with sink := w.machine.sink.asked })
      (.fault (.io message)) ?_ (.sameStore good rfl rfl) (fun _ => by simp)
    simp [Run.write, refused]
  | none =>
    refine plain_ok (m := { w.machine with sink := w.machine.sink.take text }) ?_
      (.sameStore good rfl rfl) (h _)
    simp [Run.write, refused]

theorem callNative (good : w.Good code) (f : Native) :
    Keeps code changing w (Watched.plain (Run.callNative f)) fun v w' => w'.Admits code v := by
  cases f with
  | clock => exact plain_ok rfl (.sameStore good rfl rfl) trivial

end Keeps

namespace Keeps

/-- What runs in another scope keeps the watch good in this one. -/
theorem withEnvironment (good : w.Good code) (e : Environment) {t : Watched α}
    {R : α → Watch → Prop}
    (inner : (w.on { w.machine with current := e }).Good code →
      Keeps code changing (w.on { w.machine with current := e }) t Q)
    (post : ∀ a w' w'', w'.Grows changing w'' → Q a w' → R a w'') :
    Keeps code changing w (Watched.withEnvironment e t) R := by
  have enters : w.Grows changing (w.on { w.machine with current := e }) := .withCurrent _ _ _
  have entered : (w.on { w.machine with current := e }).Good code :=
    good.grows enters (fun _ _ _ h => .inl h) (fun _ _ _ h => .inl h) good.moments
  have leaves {w' : Watch}
      (reach : (w.on { w.machine with current := e }).Reaches code changing w') :
      w.Reaches code changing (w'.on { w'.machine with current := w.machine.current }) := by
    have grows : w'.Grows changing (w'.on { w'.machine with current := w.machine.current }) :=
      .withCurrent _ _ _
    exact ⟨reach.good.grows grows (fun _ _ _ h => .inl h) (fun _ _ _ h => .inl h)
      reach.good.moments, (enters.trans reach.grows).trans grows, rfl⟩
  have result := inner entered
  unfold Keeps Watched.withEnvironment at *
  rw [show ({ w with machine := { w.machine with current := e } } : Watch) =
    w.on { w.machine with current := e } from rfl]
  cases eq : t (w.on { w.machine with current := e }) with
  | ok a w' =>
    rw [eq] at result
    exact ⟨leaves result.1, result.2.1, post a w' _ (.withCurrent _ _ _) result.2.2⟩
  | error stop w' =>
    rw [eq] at result
    exact ⟨leaves result.1, result.2⟩

end Keeps

/-! ## New scopes, objects and instances -/

theorem Watch.Grows.pushFrame (changing : FrameId → Prop) (w : Watch) (bound : Bindings Value) :
    w.Grows changing (w.on { w.machine with store := w.machine.store.pushFrame bound }) := by
  refine { Watch.Grows.refl changing w with frames := ?_, names := ?_, fixed := ?_ }
  · simp [Watch.on, Store.pushFrame]
  · intro id name here
    simp only [Watch.on]
    rw [Store.frame_pushFrame_of_lt bound (Store.lt_of_contains here)]
    exact here
  · intro id lt _ name
    simp only [Watch.on]
    rw [Store.frame_pushFrame_of_lt bound lt]

namespace Keeps

/-- A new scope binds what it is given. -/
theorem newFrame (good : w.Good code) (outer : Environment) {bound : Bindings Value}
    (holds : ∀ name v, bound.get? name = some v → w.Holds code name v) :
    Keeps code changing w (Watched.plain (Run.newFrame outer bound)) fun e w' =>
      e = ⟨w.machine.store.frames.size, outer.path⟩ ∧ 0 < e.frame ∧
        e.frame < w'.machine.store.frames.size ∧ w'.machine.store.frame e.frame = bound := by
  have grows := Watch.Grows.pushFrame changing w bound
  refine plain_ok rfl ⟨?_, grows, rfl⟩ ⟨rfl, good.globals, ?_, ?_⟩
  · refine good.grows grows (fun id name v found => ?_) (fun _ _ _ h => .inl h) good.moments
    simp only [Watch.on, Store.frame_pushFrame] at found
    split at found
    · exact .inr ((holds name v found).grows grows)
    · exact .inl found
  · simp [Watch.on, Store.pushFrame]
  · simp [Watch.on, Store.frame_pushFrame]

/-- A new instance has a class that is admitted. -/
theorem newInstance (good : w.Good code) {c : Class} (admits : w.AdmitsClass code c) :
    Keeps code changing w (Watched.plain (Run.newInstance c)) fun i w' =>
      i.ofClass = c ∧ w'.Admits code (.ofInstance i) := by
  have grows : w.Grows changing
      (w.on { w.machine with store := w.machine.store.pushInstance }) :=
    { Watch.Grows.refl changing w with }
  refine plain_ok rfl ⟨?_, grows, rfl⟩ ⟨rfl, admits.grows grows⟩
  refine good.grows grows (fun _ _ _ h => .inl h) (fun id name v found => ?_) good.moments
  simp only [Watch.on, Store.fieldsOf_pushInstance] at found
  exact .inl found

end Keeps

/-- The watch with a number taken for what is declared at the spot. -/
def Watch.declared (w : Watch) (p : Spot) : Watch :=
  { w with
    machine := { w.machine with store := w.machine.store.takeObject }
    spots := Function.update w.spots w.machine.store.nextObject p }

@[simp] theorem Watch.declared_spot (w : Watch) (p : Spot) :
    (w.declared p).spots w.machine.store.nextObject = p :=
  Function.update_self _ _ _

theorem Watch.Grows.declared (changing : FrameId → Prop) (w : Watch) (p : Spot) :
    w.Grows changing (w.declared p) :=
  { Watch.Grows.refl changing w with
    objects := Nat.le_succ _
    spots := fun _ lt => Function.update_of_ne (Nat.ne_of_lt lt) _ _ }

theorem Watch.lt_declared (w : Watch) (p : Spot) :
    w.machine.store.nextObject < (w.declared p).machine.store.nextObject :=
  Nat.lt_succ_self _

namespace Keeps

theorem newObject (good : w.Good code) (p : Spot) :
    Keeps code changing w (Watched.newObject p) fun id w' =>
      id = w.machine.store.nextObject ∧ w' = w.declared p := by
  have grows := Watch.Grows.declared changing w p
  exact ⟨⟨good.grows grows (fun _ _ _ h => .inl h) (fun _ _ _ h => .inl h) good.moments, grows,
    rfl⟩, rfl, rfl, rfl⟩

end Keeps

/-! ## Variables and fields -/

/-- The scope that is active may get new names. -/
def Watch.active (w : Watch) : FrameId → Prop := fun id => id = w.machine.current.frame

theorem Watch.Reaches.active_eq (reach : w.Reaches code changing w') : w'.active = w.active := by
  unfold Watch.active
  rw [reach.current]

/-- Setting a variable may bring a new name only to a scope that is changing. -/
theorem Watch.Grows.setVariable (changing : FrameId → Prop) (w : Watch) (id : FrameId)
    (name : String) (v : Value)
    (within : (w.machine.store.frame id).contains name = true ∨ changing id) :
    w.Grows changing
      (w.on { w.machine with store := w.machine.store.setVariable id name v }) := by
  refine { Watch.Grows.refl changing w with frames := ?_, names := ?_, fixed := ?_ }
  · simp [Watch.on, Store.size_setVariable]
  · intro other x bound
    simp [Watch.on, Store.contains_setVariable, bound]
  · intro other lt kept x
    rcases within with bound | changes
    · exact Store.contains_setVariable_of_contains bound other x
    · have ne : other ≠ id := fun eq => kept (eq ▸ changes)
      simp [Watch.on, Store.contains_setVariable, ne]

/-- The watch is good with the variable set if it is so that the variable may have its value. -/
theorem Watch.Reaches.setVariable (good : w.Good code) {id : FrameId} {name : String} {v : Value}
    (within : (w.machine.store.frame id).contains name = true ∨ changing id)
    (holds : (w.on { w.machine with
      store := w.machine.store.setVariable id name v }).Holds code name v) :
    w.Reaches code changing
      (w.on { w.machine with store := w.machine.store.setVariable id name v }) := by
  have grows := Watch.Grows.setVariable changing w id name v within
  refine ⟨good.grows grows (fun other x value found => ?_) (fun _ _ _ h => .inl h) good.moments,
    grows, rfl⟩
  simp only [Watch.on, Store.get?_setVariable] at found
  split at found
  · next here =>
    obtain ⟨-, rfl⟩ := here
    cases found
    exact .inr holds
  · exact .inl found

/-- A variable of the program may be set to any value that is admitted. -/
theorem Watch.Reaches.setAdmitted (good : w.Good code) {id : FrameId} {name : String} {v : Value}
    (within : (w.machine.store.frame id).contains name = true ∨ changing id)
    (named : IsVariable name) (admits : w.Admits code v) :
    w.Reaches code changing
      (w.on { w.machine with store := w.machine.store.setVariable id name v }) :=
  .setVariable good within
    (.of_variable (admits.grows (Watch.Grows.setVariable changing w id name v within)) named)

namespace Keeps

/-- A declaration adds a name to the scope that is active. -/
theorem define (good : w.Good code) {name : String} {v : Value} (named : IsVariable name)
    (admits : w.Admits code v) :
    Keeps code w.active w (Watched.plain (Run.define name v)) fun _ w' =>
      w'.machine.store = w.machine.store.define w.machine.current name v :=
  plain_ok rfl (.setAdmitted good (.inr rfl) named admits) rfl

/-- An assignment by name finds its variable, or fails with an error of the program. -/
theorem assign (good : w.Good code) (e : Environment) {name : Name} {v : Value}
    (named : IsVariable name.text) (admits : w.Admits code v) :
    Keeps code changing w (Watched.plain (Run.assign e name v)) fun _ _ => True := by
  cases found : w.machine.store.binder? e.path name.text with
  | some id =>
    have bound := Store.binder?_contains found
    refine plain_ok (a := ()) (m := { w.machine with
      store := w.machine.store.setVariable id name.text v }) ?_
      (.setAdmitted good (.inl bound) named admits) trivial
    simp [Run.assign, Store.assign, found]
  | none =>
    refine plain_error (m := w.machine) (.fault (.runtime (.undefinedVariable name.text) name.line))
      ?_ (.refl good) (fun _ => by simp)
    simp [Run.assign, Store.assign, found]

theorem setField (good : w.Good code) (i : Instance) (name : String) {v : Value}
    (admits : w.Admits code v) :
    Keeps code changing w (Watched.plain (Run.setField i name v)) fun _ _ => True := by
  have grows : w.Grows changing
      (w.on { w.machine with store := w.machine.store.setField i.id name v }) :=
    { Watch.Grows.refl changing w with }
  refine plain_ok rfl ⟨?_, grows, rfl⟩ trivial
  refine good.grows grows (fun _ _ _ h => .inl h) (fun id other value found => ?_) good.moments
  rcases Store.get?_setField _ _ _ _ _ _ found with rfl | old
  · exact .inr (admits.grows grows)
  · exact .inl old

/-- A global that is there has a value that is admitted. -/
theorem readGlobal (good : w.Good code) (name : Name) :
    Keeps code changing w (Watched.plain (Run.readVariable .global name))
      fun v w' => w'.Admits code v := by
  cases found : w.machine.store.lookup? Environment.globals.path name.text with
  | some v =>
    obtain ⟨id, -, here⟩ := Store.lookup?_mem found
    refine plain_pure good (a := v) ?_ (good.values id name.text v here).admits
    simp [Run.readVariable, Run.read, Store.get, found]
  | none =>
    refine plain_error (m := w.machine) (.fault (.runtime (.undefinedVariable name.text) name.line))
      ?_ (.refl good) (fun _ => by simp)
    simp [Run.readVariable, Run.read, Store.get, found]

/-- A read at a distance gives what the scope there binds. -/
theorem readAt (good : w.Good code) {f : Machine → Except Fault Value} {e : Environment}
    {hops : Nat} {name : String} {id : FrameId}
    (same : f w.machine = w.machine.store.getAt e hops name) (h : e.path[hops]? = some id)
    (bound : (w.machine.store.frame id).contains name = true) :
    Keeps code changing w (Watched.plain (Run.read f)) fun v w' => w'.Holds code name v := by
  obtain ⟨v, found, here⟩ := Store.getAt_of_contains h bound
  refine plain_pure good (a := v) ?_ (good.values id name v here)
  simp only [Run.read, same, found]

end Keeps

/-! ## Records -/

/-- A moment that is recorded is sound. -/
theorem Watch.Reaches.note (good : w.Good code) (event : Event)
    (stands : event.StandsAt code p.context) (fits : p.Fits w.machine w.moments) :
    w.Reaches code changing { w with moments := ⟨event, p, w.machine⟩ :: w.moments } := by
  have grows : w.Grows changing { w with moments := ⟨event, p, w.machine⟩ :: w.moments } :=
    { Watch.Grows.refl changing w with moments := List.suffix_cons _ _ }
  exact ⟨good.grows grows (fun _ _ _ h => .inl h) (fun _ _ _ h => .inl h)
    ⟨⟨stands, fits⟩, good.moments⟩, grows, rfl⟩

namespace Keeps

/-- A moment is recorded that is no early store. -/
theorem note (good : w.Good code) (event : Event) (stands : event.StandsAt code p.context)
    (fits : p.Fits w.machine w.moments)
    (notEarly : (Moment.mk event p w.machine).isEarlyStore = false) :
    Keeps code changing w (Watched.note p event) fun _ w' =>
      w' = { w with moments := ⟨event, p, w.machine⟩ :: w.moments } := by
  refine ⟨.note good event stands fits, ?_, rfl⟩
  simp [Watch.earlyStores, notEarly]

end Keeps

end Lox
