import Lox.Proofs.Alpha.Stores

/-!
# Steps of two runs that differ in the names of variables

Two machines are alike if their stores are and all else of them is the same (`Machine.Alpha`). Two
parts of runs are alike if they give what is alike and leave machines that are alike, or stop alike
(`Alike`). There is one lemma for each way to put parts together and one for each step on the machine.
-/

namespace Lox

open Renaming (nameMap declared identity ofScope along)

/-! ## Machines -/

/-- The machines differ only in the names of variables. The scopes that are active have the renamings
`rs`. -/
structure Machine.Alpha (p : Renaming → Prop) (all rs : List Renaming) (m m' : Machine) : Prop where
  store : m.store.Alpha p all m'.store
  current : m'.current = m.current
  inside : ∀ id ∈ m.current.path, id < all.length
  active : along all m.current.path = rs
  sink : m'.sink = m.sink
  clock : m'.clock = m.clock

/-- The two sides are led from a machine and one that is alike to machines that are alike. There are
more scopes, no variable is gone, and the scope that was active is active. -/
structure Machine.Leads (p : Renaming → Prop) (all rs : List Renaming) (m : Machine)
    (more : List Renaming) (m₁ m₁' : Machine) : Prop where
  later : all <+: more
  names : ∀ id name, (m.store.frame id).contains name = true →
    (m₁.store.frame id).contains name = true
  current : m₁.current = m.current
  alpha : m₁.Alpha p more rs m₁'

/-- The runs stop for the same reason, up to the name of a variable that is missing. -/
inductive Stop.Alpha : Stop → Stop → Prop
  | fault {f f' : Fault} : f.Alpha f' → Stop.Alpha (.fault f) (.fault f')
  | outOfFuel : Stop.Alpha .outOfFuel .outOfFuel

/-- On machines that are alike, one part of a run does what the other does: both give what is alike
and lead to machines that are alike, or both stop alike, with the same requests to the sink. -/
def Alike {α β : Type} (p : Renaming → Prop) (all rs : List Renaming) (m m' : Machine) (act : Run α)
    (act' : Run β) (V : List Renaming → α → β → Prop) : Prop :=
  match act m, act' m' with
  | .ok a m₁, .ok b m₁' => ∃ more, Machine.Leads p all rs m more m₁ m₁' ∧ V more a b
  | .error stop m₁, .error stop' m₁' => stop.Alpha stop' ∧ m₁'.sink = m₁.sink
  | _, _ => False

variable {p : Renaming → Prop} {all more last rs : List Renaming} {m m₁ m₂ m' m₁' m₂' : Machine}

theorem Machine.Leads.refl (h : m.Alpha p all rs m') : Machine.Leads p all rs m all m m' :=
  ⟨List.prefix_refl all, fun _ _ bound => bound, rfl, h⟩

theorem Machine.Leads.trans (first : Machine.Leads p all rs m more m₁ m₁')
    (second : Machine.Leads p more rs m₁ last m₂ m₂') : Machine.Leads p all rs m last m₂ m₂' where
  later := first.later.trans second.later
  names id name bound := second.names id name (first.names id name bound)
  current := second.current.trans first.current
  alpha := second.alpha

/-- A name that the active scope binds is still bound there. -/
theorem Machine.Leads.bound (h : Machine.Leads p all rs m more m₁ m₁') {name : String}
    (bound : (m.store.frame m.current.frame).contains name = true) :
    (m₁.store.frame m₁.current.frame).contains name = true := by
  rw [h.current]
  exact h.names _ _ bound

/-- The store changes on both sides. -/
theorem Machine.Alpha.leads (h : m.Alpha p all rs m') {s s' : Store} (later : all <+: more)
    (names : ∀ id name, (m.store.frame id).contains name = true →
      (s.frame id).contains name = true) (store : s.Alpha p more s') :
    Machine.Leads p all rs m more { m with store := s } { m' with store := s' } := by
  refine ⟨later, names, rfl, store, h.current, Renaming.inside_of_extends later h.inside, ?_,
    h.sink, h.clock⟩
  rw [Renaming.along_of_extends later h.inside]
  exact h.active

/-- The sinks change on both sides. -/
theorem Machine.Alpha.asked (h : m.Alpha p all rs m') (sink : Sink) :
    Machine.Leads p all rs m all { m with sink := sink } { m' with sink := sink } :=
  ⟨List.prefix_refl all, fun _ _ bound => bound, rfl, { h with sink := rfl }⟩

namespace Alike

variable {α β γ δ : Type} {act : Run α} {act' : Run β} {V W : List Renaming → α → β → Prop}

/-! ## Putting parts together -/

theorem ok {a : α} {b : β} (here : act m = .ok a m₁) (there : act' m' = .ok b m₁')
    (leads : Machine.Leads p all rs m more m₁ m₁') (alike : V more a b) :
    Alike p all rs m m' act act' V := by
  simp only [Alike, here, there]
  exact ⟨more, leads, alike⟩

theorem error {stop stop' : Stop} (here : act m = .error stop m₁)
    (there : act' m' = .error stop' m₁') (alike : stop.Alpha stop') (sink : m₁'.sink = m₁.sink) :
    Alike p all rs m m' act act' V := by
  simp only [Alike, here, there]
  exact ⟨alike, sink⟩

/-- What two parts do that are alike. -/
theorem both (h : Alike p all rs m m' act act' V) :
    (∃ a b more m₁ m₁', act m = .ok a m₁ ∧ act' m' = .ok b m₁' ∧
        Machine.Leads p all rs m more m₁ m₁' ∧ V more a b) ∨
      ∃ stop stop' m₁ m₁', act m = .error stop m₁ ∧ act' m' = .error stop' m₁' ∧
        stop.Alpha stop' ∧ m₁'.sink = m₁.sink := by
  unfold Alike at h
  cases here : act m with
  | ok a m₁ =>
    cases there : act' m' with
    | ok b m₁' =>
      rw [here, there] at h
      obtain ⟨more, leads, alike⟩ := h
      exact .inl ⟨a, b, more, m₁, m₁', rfl, rfl, leads, alike⟩
    | error stop m₁' =>
      rw [here, there] at h
      exact h.elim
  | error stop m₁ =>
    cases there : act' m' with
    | ok b m₁' =>
      rw [here, there] at h
      exact h.elim
    | error stop' m₁' =>
      rw [here, there] at h
      exact .inr ⟨stop, stop', m₁, m₁', rfl, rfl, h⟩

theorem pure (h : m.Alpha p all rs m') {a : α} {b : β} (alike : V all a b) :
    Alike p all rs m m' (Pure.pure a) (Pure.pure b) V :=
  ok rfl rfl (.refl h) alike

/-- The rest of a run, behind parts that have come to their ends. -/
theorem after {f : α → Run γ} {f' : β → Run δ} {U : List Renaming → γ → δ → Prop} {a : α} {b : β}
    (here : act m = .ok a m₁) (there : act' m' = .ok b m₁')
    (leads : Machine.Leads p all rs m more m₁ m₁') (next : Alike p more rs m₁ m₁' (f a) (f' b) U) :
    Alike p all rs m m' (act >>= f) (act' >>= f') U := by
  rcases next.both with
    ⟨c, d, last, m₂, m₂', here', there', leads', alike'⟩ |
      ⟨stop, stop', m₂, m₂', here', there', alike'⟩
  · apply ok _ _ (leads.trans leads') alike'
    · simp only [Bind.bind, EStateM.bind, here, here']
    · simp only [Bind.bind, EStateM.bind, there, there']
  · apply error _ _ alike'.1 alike'.2
    · simp only [Bind.bind, EStateM.bind, here, here']
    · simp only [Bind.bind, EStateM.bind, there, there']

/-- Parts that are alike, one behind the other. -/
theorem bind {f : α → Run γ} {f' : β → Run δ} {U : List Renaming → γ → δ → Prop}
    (first : Alike p all rs m m' act act' V)
    (next : ∀ {more m₁ m₁' a b}, Machine.Leads p all rs m more m₁ m₁' → V more a b →
      Alike p more rs m₁ m₁' (f a) (f' b) U) :
    Alike p all rs m m' (act >>= f) (act' >>= f') U := by
  rcases first.both with
    ⟨a, b, more, m₁, m₁', here, there, leads, alike⟩ | ⟨stop, stop', m₁, m₁', here, there, alike⟩
  · exact after here there leads (next leads alike)
  · apply error _ _ alike.1 alike.2
    · simp only [Bind.bind, EStateM.bind, here]
    · simp only [Bind.bind, EStateM.bind, there]

theorem mono (h : Alike p all rs m m' act act' V) (weaker : ∀ more a b, V more a b → W more a b) :
    Alike p all rs m m' act act' W := by
  rcases h.both with
    ⟨a, b, more, m₁, m₁', here, there, leads, alike⟩ | ⟨stop, stop', m₁, m₁', here, there, alike⟩
  · exact ok here there leads (weaker more a b alike)
  · exact error here there alike.1 alike.2

/-- Both sides stop with the same fault. -/
theorem fault (h : m.Alpha p all rs m') (f : Fault) :
    Alike p all rs m m' (Run.fault f) (Run.fault f) V :=
  error rfl rfl (.fault (.same f)) h.sink

theorem outOfFuel (h : m.Alpha p all rs m') :
    Alike p all rs m m' Run.outOfFuel Run.outOfFuel V :=
  error rfl rfl .outOfFuel h.sink

/-- What runs in another scope on both sides. -/
theorem withEnvironment (h : m.Alpha p all rs m') {e : Environment}
    (inner : Alike p all (along all e.path) { m with current := e } { m' with current := e }
      act act' V) :
    Alike p all rs m m' (Run.withEnvironment e act) (Run.withEnvironment e act') V := by
  rcases inner.both with
    ⟨a, b, more, m₁, m₁', here, there, leads, alike⟩ | ⟨stop, stop', m₁, m₁', here, there, alike⟩
  · have back : Machine.Leads p all rs m more { m₁ with current := m.current }
        { m₁' with current := m'.current } := by
      refine ⟨leads.later, leads.names, rfl, leads.alpha.store, h.current,
        Renaming.inside_of_extends leads.later h.inside, ?_, leads.alpha.sink, leads.alpha.clock⟩
      rw [Renaming.along_of_extends leads.later h.inside]
      exact h.active
    apply ok _ _ back alike
    · simp only [Run.withEnvironment, here]
    · simp only [Run.withEnvironment, there]
  · have stopped : Run.withEnvironment e act m = .error stop { m₁ with current := m.current } := by
      simp only [Run.withEnvironment, here]
    have stopped' :
        Run.withEnvironment e act' m' = .error stop' { m₁' with current := m'.current } := by
      simp only [Run.withEnvironment, there]
    exact error stopped stopped' alike.1 alike.2

/-! ## Steps -/

theorem read (h : m.Alpha p all rs m') {f : Machine → Except Fault α} {f' : Machine → Except Fault β}
    (outcome : Outcome.Alpha (V all) (f m) (f' m')) :
    Alike p all rs m m' (Run.read f) (Run.read f') V := by
  unfold Alike Run.read
  generalize f m = result, f' m' = result' at outcome
  cases outcome with
  | ok alike => exact ⟨all, .refl h, alike⟩
  | error alike => exact ⟨.fault alike, h.sink⟩

/-- Both sides read off the same scope. -/
theorem current (h : m.Alpha p all rs m') {f : Environment → Run α} {f' : Environment → Run β}
    (next : Alike p all rs m m' (f m.current) (f' m.current) V) :
    Alike p all rs m m' (Run.current >>= f) (Run.current >>= f') V := by
  apply after rfl _ (.refl h) next
  rw [← h.current]
  rfl

/-- Both sides open a scope, whose variables have their own renaming. -/
theorem newFrame (h : m.Alpha p all rs m') {outer : Environment}
    (inside : ∀ id ∈ outer.path, id < all.length) (r : Renaming) {b b' : Bindings Value}
    (alike : b.Alpha p all r b') :
    Alike p all rs m m' (Run.newFrame outer b) (Run.newFrame outer b') fun more e e' =>
      e' = e ∧ (∀ id ∈ e.path, id < more.length) ∧
        along more e.path = r :: along all outer.path := by
  have later : all <+: all ++ [r] := List.prefix_append _ _
  have names (id : FrameId) (name : String) (bound : (m.store.frame id).contains name = true) :
      ((m.store.pushFrame b).frame id).contains name = true := by
    rwa [Store.frame_pushFrame_of_lt b (Store.lt_of_contains bound)]
  have leads := h.leads later names (h.store.pushFrame r alike)
  refine ok rfl rfl leads ⟨?_, ?_, ?_⟩
  · rw [h.store.frames]
  · intro id mem
    rw [List.length_append]
    rcases List.mem_cons.1 mem with rfl | mem
    · rw [← h.store.renamed]
      exact Nat.lt_succ_self _
    · exact Nat.lt_succ_of_lt (inside id mem)
  · have own : ofScope (all ++ [r]) m.store.frames.size = r := by
      rw [Renaming.ofScope_concat, if_pos h.store.renamed.symm]
    rw [← Renaming.along_of_extends later inside]
    exact congrArg (· :: along (all ++ [r]) outer.path) own

theorem newInstance (h : m.Alpha p all rs m') {c c' : Class} (alike : c.Alpha p all c') :
    Alike p all rs m m' (Run.newInstance c) (Run.newInstance c') (Instance.Alpha p) :=
  ok rfl rfl (h.leads (List.prefix_refl all) (fun _ _ bound => bound) h.store.pushInstance)
    ⟨h.store.fields, alike⟩

theorem newObject (h : m.Alpha p all rs m') :
    Alike p all rs m m' Run.newObject Run.newObject fun _ id id' => id' = id :=
  ok rfl rfl (h.leads (List.prefix_refl all) (fun _ _ bound => bound) h.store.takeObject)
    h.store.nextObject

theorem newFunction (h : m.Alpha p all rs m') {c c' : Closure} (alike : c.Alpha p all [] c') :
    Alike p all rs m m' (Run.newFunction c) (Run.newFunction c') (Value.Alpha p) := by
  apply (newObject h).bind
  rintro more m₁ m₁' id id' leads rfl
  exact pure leads.alpha (.function _ (alike.mono leads.later))

theorem contains_setVariable {s : Store} {id : FrameId} {name : String}
    (bound : (s.frame id).contains name = true) (target : FrameId) (other : String) (v : Value) :
    ((s.setVariable target other v).frame id).contains name = true := by
  rw [Store.contains_setVariable, bound, Bool.or_true]

/-- The scope that is active binds a name on both sides. -/
theorem defined (h : m.Alpha p all rs m') {v v' : Value} (alike : v.Alpha p all v') (name : String) :
    Machine.Leads p all rs m all { m with store := m.store.define m.current name v }
      { m' with store := m'.store.define m'.current (declared rs name) v' } := by
  have renamed : declared rs name = (ofScope all m.current.frame).perm name := by
    rw [← h.active]
    rfl
  have there : m'.store.define m'.current (declared rs name) v' =
      m'.store.setVariable m.current.frame ((ofScope all m.current.frame).perm name) v' := by
    rw [Store.define, h.current, renamed]
  have store := h.store.setVariable alike m.current.frame name
  rw [← there] at store
  have names (id : FrameId) (other : String) (bound : (m.store.frame id).contains other = true) :=
    contains_setVariable bound m.current.frame name v
  exact h.leads (List.prefix_refl all) names store

theorem define (h : m.Alpha p all rs m') {v v' : Value} (alike : v.Alpha p all v') (name : String) :
    Alike p all rs m m' (Run.define name v) (Run.define (declared rs name) v') fun _ _ _ => True :=
  ok rfl rfl (defined h alike name) trivial

/-- An assignment changes the store on both sides, or finds no variable on either. -/
theorem assigned (h : m.Alpha p all rs m') {act act' : Run Unit} {result result' : Except Fault Store}
    (here : act m = match result with
      | .ok s => .ok () { m with store := s }
      | .error f => .error (.fault f) m)
    (there : act' m' = match result' with
      | .ok s => .ok () { m' with store := s }
      | .error f => .error (.fault f) m')
    (outcome : Outcome.Alpha (Store.Alpha p all) result result')
    (names : ∀ s, result = .ok s → ∃ id other v, s = m.store.setVariable id other v) :
    Alike p all rs m m' act act' fun _ _ _ => True := by
  cases outcome with
  | error alike => exact error here there (.fault alike) h.sink
  | @ok s s' alike =>
    obtain ⟨target, other, v, rfl⟩ := names s rfl
    have leads := h.leads (List.prefix_refl all)
      (fun id name bound => contains_setVariable bound target other v) alike
    exact ok here there leads trivial

theorem assignAt (h : m.Alpha p all rs m') {v v' : Value} (alike : v.Alpha p all v') (hops : Nat)
    (name : String) :
    Alike p all rs m m' (Run.assignAt hops name v)
      (Run.assignAt hops (nameMap rs (.scope hops) name) v') fun _ _ _ => True := by
  have outcome := h.store.assignAt alike m.current hops name
  rw [h.active] at outcome
  apply assigned h rfl _ outcome
  · intro s found
    unfold Store.assignAt at found
    split at found
    · cases found
      exact ⟨_, _, _, rfl⟩
    · cases found
  · rw [← h.current]
    rfl

theorem assign (h : m.Alpha p all rs m') {e : Environment} {name : Name} {v v' : Value}
    (outcome : Outcome.Alpha (Store.Alpha p all) (m.store.assign e name v)
      (m'.store.assign e name v')) :
    Alike p all rs m m' (Run.assign e name v) (Run.assign e name v') fun _ _ _ => True := by
  apply assigned h rfl rfl outcome
  intro s found
  unfold Store.assign at found
  split at found
  · cases found
    exact ⟨_, _, _, rfl⟩
  · cases found

theorem setField (h : m.Alpha p all rs m') {i i' : Instance} (same : i'.id = i.id) {v v' : Value}
    (alike : v.Alpha p all v') (name : String) :
    Alike p all rs m m' (Run.setField i name v) (Run.setField i' name v') fun _ _ _ => True := by
  obtain ⟨id, c⟩ := i'
  cases same
  exact ok rfl rfl (h.leads (List.prefix_refl all) (fun _ _ bound => bound)
    (h.store.setField alike i.id name)) trivial

theorem write (h : m.Alpha p all rs m') (text : String) :
    Alike p all rs m m' (Run.write text) (Run.write text) fun _ _ _ => True := by
  unfold Alike Run.write
  rw [h.sink]
  cases m.sink.refusal .write m.sink.requests with
  | some message => exact ⟨.fault (.same _), rfl⟩
  | none => exact ⟨all, h.asked _, trivial⟩

theorem readClock (h : m.Alpha p all rs m') :
    Alike p all rs m m' Run.readClock Run.readClock fun _ n n' => n' = n := by
  have there : Run.readClock m' = .ok (m.clock.reading m.clock.readings)
      { m' with clock := { m.clock with readings := m.clock.readings + 1 } } := by
    rw [← h.clock]
    rfl
  have leads : Machine.Leads p all rs m all
      { m with clock := { m.clock with readings := m.clock.readings + 1 } }
      { m' with clock := { m.clock with readings := m.clock.readings + 1 } } :=
    ⟨List.prefix_refl all, fun _ _ bound => bound, rfl, { h with clock := rfl }⟩
  exact ok rfl there leads rfl

end Alike

end Lox
