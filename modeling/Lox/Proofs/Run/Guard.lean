import Lox.Proofs.Run.Preserved
import Lox.Proofs.Store.Chains

/-!
# Guards

A guard says which scopes and instances code may get hold of, and which scopes a function or a class
may have captured, by its number. `Guards` says that code cannot get hold of more on a machine: what
may be got hold of leads to nothing else, and what may not be got hold of is as it was when the guard
was set up. `Guard.Leads` says that this is still so on a later machine. There is one lemma for each
change of the store.

A scope, an instance and a number that is given out anew is one that the guard allows, because a guard
speaks of what there was at its start.
-/

namespace Lox

/-- The second store has at least as many scopes, instances and numbers given out. -/
structure Store.Grows (s s' : Store) : Prop where
  frames : s.frames.size ≤ s'.frames.size
  fields : s.fields.size ≤ s'.fields.size
  objects : s.nextObject ≤ s'.nextObject

/-- What code may get hold of. -/
structure Guard where
  /-- The store when the guard was set up. -/
  start : Store
  scope : Store → FrameId → Prop
  inst : Store → InstanceId → Prop
  /-- A function or a class with this number may have captured this scope. -/
  object : Store → ObjectId → Environment → Prop
  scope_mono : ∀ {s s' : Store} {id : FrameId}, s.Grows s' → scope s id → scope s' id
  inst_mono : ∀ {s s' : Store} {id : InstanceId}, s.Grows s' → inst s id → inst s' id
  object_mono : ∀ {s s' : Store} {id : ObjectId} {e : Environment}, s.Grows s' →
    object s id e → object s' id e
  scope_old : ∀ {s s' : Store} {id : FrameId}, s.Grows s' → id < s.frames.size →
    scope s' id → scope s id
  inst_old : ∀ {s s' : Store} {id : InstanceId}, s.Grows s' → id < s.fields.size →
    inst s' id → inst s id
  scope_new : ∀ {s : Store} (bound : Bindings Value), start.Grows s →
    scope (s.pushFrame bound) s.frames.size
  inst_new : ∀ {s : Store}, start.Grows s → inst s.pushInstance s.fields.size
  object_new : ∀ {s : Store} (e : Environment), start.Grows s → object s.takeObject s.nextObject e

namespace Store

variable {s : Store} {name : String} {v : Value}

theorem lt_of_get? {id : FrameId} (found : (s.frame id).get? name = some v) :
    id < s.frames.size := by
  apply @lt_of_contains s id name
  rw [Bindings.contains, found]
  rfl

theorem lt_of_field {id : InstanceId} (found : (s.fieldsOf id).get? name = some v) :
    id < s.fields.size := by
  by_cases lt : id < s.fields.size
  · exact lt
  · have none : s.fields[id]? = none := Array.getElem?_eq_none (Nat.le_of_not_lt lt)
    simp [fieldsOf, Array.getD_eq_getD_getElem?, none] at found

theorem mem_path_of_getAt {e : Environment} {hops : Nat} (found : s.getAt e hops name = .ok v) :
    ∃ id ∈ e.path, (s.frame id).get? name = some v := by
  obtain ⟨target, up, here⟩ := getAt_eq_ok.1 found
  exact ⟨target.frame, List.mem_of_getElem? (Environment.path_of_up? up), here⟩

theorem mem_path_of_get {e : Environment} {x : Name} (found : s.get e x = .ok v) :
    ∃ id ∈ e.path, (s.frame id).get? x.text = some v := by
  unfold get at found
  split at found
  · next here =>
    cases found
    exact lookup?_mem here
  · cases found

theorem fieldsOf_setField_of_ne {target id : InstanceId} (other : id ≠ target) :
    (s.setField target name v).fieldsOf id = s.fieldsOf id := by
  simp only [fieldsOf, setField, Array.getD_eq_getD_getElem?, Array.getElem?_modify]
  rw [if_neg (Ne.symm other)]

end Store

namespace Store.Grows

variable {s s' s'' : Store}

theorem refl (s : Store) : s.Grows s := ⟨Nat.le_refl _, Nat.le_refl _, Nat.le_refl _⟩

theorem trans (first : s.Grows s') (second : s'.Grows s'') : s.Grows s'' :=
  ⟨Nat.le_trans first.frames second.frames, Nat.le_trans first.fields second.fields,
    Nat.le_trans first.objects second.objects⟩

theorem pushFrame (s : Store) (bound : Bindings Value) : s.Grows (s.pushFrame bound) := by
  refine ⟨?_, Nat.le_refl _, Nat.le_refl _⟩
  rw [size_pushFrame]
  exact Nat.le_succ _

theorem pushInstance (s : Store) : s.Grows s.pushInstance := by
  refine ⟨Nat.le_refl _, ?_, Nat.le_refl _⟩
  simp [Store.pushInstance]

theorem takeObject (s : Store) : s.Grows s.takeObject :=
  ⟨Nat.le_refl _, Nat.le_refl _, Nat.le_succ _⟩

theorem setVariable (s : Store) (id : FrameId) (name : String) (v : Value) :
    s.Grows (s.setVariable id name v) :=
  ⟨Nat.le_of_eq (size_setVariable s id name v).symm, Nat.le_refl _, Nat.le_refl _⟩

theorem setField (s : Store) (id : InstanceId) (name : String) (v : Value) :
    s.Grows (s.setField id name v) := by
  refine ⟨Nat.le_refl _, ?_, Nat.le_refl _⟩
  simp [Store.setField]

end Store.Grows

namespace Guard

variable (g : Guard)

/-! ## What is allowed -/

/-- Code may get hold of the scope and those around it. -/
def AllowsScope (s : Store) (e : Environment) : Prop := ∀ id ∈ e.path, g.scope s id

/-- The methods have captured what they may. -/
def AllowsLevel (s : Store) (level : ClassLevel) : Prop :=
  ∀ name f, level.methods.get? name = some f →
    g.AllowsScope s f.environment ∧ g.object s level.id f.environment

def AllowsClass (s : Store) (c : Class) : Prop := ∀ level ∈ c.lineage, g.AllowsLevel s level

/-- Code may get hold of the value. -/
def Allows (s : Store) : Value → Prop
  | .nil | .boolean _ | .number _ | .string _ | .callable (.native _) => True
  | .callable (.function id f) => g.AllowsScope s f.environment ∧ g.object s id f.environment
  | .callable (.ofClass c) => g.AllowsClass s c
  | .ofInstance i => g.inst s i.id ∧ g.AllowsClass s i.ofClass

/-- Code cannot get hold of more than it may, and has not. -/
structure Guards (m : Machine) : Prop where
  grown : g.start.Grows m.store
  active : g.AllowsScope m.store m.current
  globals : g.AllowsScope m.store .globals
  bound : ∀ {id : FrameId} {name : String} {v : Value}, g.scope m.store id →
    (m.store.frame id).get? name = some v → g.Allows m.store v
  fields : ∀ {id : InstanceId} {name : String} {v : Value}, g.inst m.store id →
    (m.store.fieldsOf id).get? name = some v → g.Allows m.store v
  shut : ∀ {id : FrameId}, ¬ g.scope m.store id → m.store.frame id = g.start.frame id
  shutFields : ∀ {id : InstanceId}, ¬ g.inst m.store id →
    m.store.fieldsOf id = g.start.fieldsOf id

/-- The second machine is a later one, and is guarded. -/
structure Leads (m m' : Machine) : Prop where
  grows : m.store.Grows m'.store
  guards : g.Guards m'

variable {g} {s s' : Store} {m m' m'' : Machine}

/-! ## More stays allowed -/

section

variable (grows : s.Grows s')
include grows

theorem AllowsScope.mono {e : Environment} (h : g.AllowsScope s e) : g.AllowsScope s' e :=
  fun id mem => g.scope_mono grows (h id mem)

theorem AllowsClass.mono {c : Class} (h : g.AllowsClass s c) : g.AllowsClass s' c := by
  intro level mem name f found
  obtain ⟨scope, object⟩ := h level mem name f found
  exact ⟨scope.mono grows, g.object_mono grows object⟩

theorem Allows.mono {v : Value} (h : g.Allows s v) : g.Allows s' v := by
  cases v with
  | nil | boolean | number | string => trivial
  | callable c =>
    cases c with
    | native f => trivial
    | function id f => exact ⟨h.1.mono grows, g.object_mono grows h.2⟩
    | ofClass c => exact AllowsClass.mono grows h
  | ofInstance i => exact ⟨g.inst_mono grows h.1, h.2.mono grows⟩

end

/-- A method of an allowed class has captured what it may. -/
theorem AllowsClass.method {c : Class} (h : g.AllowsClass s c) {name : String} {f : Closure}
    (found : c.findMethod? name = some f) : g.AllowsScope s f.environment := by
  obtain ⟨level, mem, here⟩ := List.exists_of_findSome?_eq_some found
  exact (h level mem name f here).1

namespace Leads

theorem refl (guards : g.Guards m) : g.Leads m m := ⟨.refl _, guards⟩

theorem trans (first : g.Leads m m') (second : g.Leads m' m'') : g.Leads m m'' :=
  ⟨first.grows.trans second.grows, second.guards⟩

/-! ## Steps -/

variable (guards : g.Guards m)
include guards

/-- Another scope is active, or the clock or the sink has moved on. -/
theorem of_store (same : m'.store = m.store) (active : g.AllowsScope m.store m'.current) :
    g.Leads m m' := by
  obtain ⟨store, current, sink, clock⟩ := m'
  cases same
  exact ⟨.refl _, guards.grown, active, guards.globals, guards.bound, guards.fields, guards.shut,
    guards.shutFields⟩

/-- A change of the store that adds allowed values only and leaves alone what is not allowed. -/
theorem of_change {s' : Store} (grows : m.store.Grows s')
    (values : ∀ {id name v}, (s'.frame id).get? name = some v →
      (m.store.frame id).get? name = some v ∨ g.Allows m.store v)
    (fields : ∀ {id name v}, (s'.fieldsOf id).get? name = some v →
      (m.store.fieldsOf id).get? name = some v ∨ g.Allows m.store v)
    (shut : ∀ {id}, ¬ g.scope s' id → s'.frame id = m.store.frame id)
    (shutFields : ∀ {id}, ¬ g.inst s' id → s'.fieldsOf id = m.store.fieldsOf id) :
    g.Leads m { m with store := s' } := by
  refine ⟨grows, ?_⟩
  constructor
  case grown => exact guards.grown.trans grows
  case active => exact guards.active.mono grows
  case globals => exact guards.globals.mono grows
  case bound =>
    intro id name v scope found
    rcases values found with before | allowed
    · have old := g.scope_old grows (Store.lt_of_get? before) scope
      exact (guards.bound old before).mono grows
    · exact allowed.mono grows
  case fields =>
    intro id name v inst found
    rcases fields found with before | allowed
    · have old := g.inst_old grows (Store.lt_of_field before) inst
      exact (guards.fields old before).mono grows
    · exact allowed.mono grows
  case shut =>
    intro id none
    rw [shut none]
    exact guards.shut fun before => none (g.scope_mono grows before)
  case shutFields =>
    intro id none
    rw [shutFields none]
    exact guards.shutFields fun before => none (g.inst_mono grows before)

theorem pushFrame {bound : Bindings Value}
    (allowed : ∀ {name v}, bound.get? name = some v → g.Allows m.store v) :
    g.Leads m { m with store := m.store.pushFrame bound } := by
  apply of_change guards (.pushFrame m.store bound)
  case values =>
    intro id name v found
    rw [Store.frame_pushFrame] at found
    split at found
    · exact .inr (allowed found)
    · exact .inl found
  case fields => exact fun found => .inl found
  case shut =>
    intro id none
    rw [Store.frame_pushFrame, if_neg]
    rintro rfl
    exact none (g.scope_new bound guards.grown)
  case shutFields => exact fun _ => rfl

theorem pushInstance : g.Leads m { m with store := m.store.pushInstance } := by
  apply of_change guards (.pushInstance m.store)
  case values => exact fun found => .inl found
  case fields =>
    intro id name v found
    rw [Store.fieldsOf_pushInstance] at found
    exact .inl found
  case shut => exact fun _ => rfl
  case shutFields => exact fun _ => Store.fieldsOf_pushInstance m.store _

theorem takeObject : g.Leads m { m with store := m.store.takeObject } :=
  of_change guards (.takeObject m.store) (fun found => .inl found) (fun found => .inl found)
    (fun _ => rfl) fun _ => rfl

theorem setVariable {target : FrameId} {name : String} {v : Value} (scope : g.scope m.store target)
    (allowed : g.Allows m.store v) :
    g.Leads m { m with store := m.store.setVariable target name v } := by
  have grows := Store.Grows.setVariable m.store target name v
  apply of_change guards grows
  case values =>
    intro id other u found
    rw [Store.get?_setVariable] at found
    split at found
    · cases found
      exact .inr allowed
    · exact .inl found
  case fields => exact fun found => .inl found
  case shut =>
    intro id none
    rw [Store.frame_setVariable, if_neg]
    rintro ⟨rfl, -⟩
    exact none (g.scope_mono grows scope)
  case shutFields => exact fun _ => rfl

theorem setField {i : InstanceId} {name : String} {v : Value} (inst : g.inst m.store i)
    (allowed : g.Allows m.store v) :
    g.Leads m { m with store := m.store.setField i name v } := by
  have grows := Store.Grows.setField m.store i name v
  apply of_change guards grows
  case values => exact fun found => .inl found
  case fields =>
    intro id other u found
    rcases Store.get?_setField _ _ _ _ _ _ found with rfl | before
    · exact .inr allowed
    · exact .inl before
  case shut => exact fun _ => rfl
  case shutFields =>
    intro id none
    apply Store.fieldsOf_setField_of_ne
    rintro rfl
    exact none (g.inst_mono grows inst)

end Leads

end Guard

end Lox
