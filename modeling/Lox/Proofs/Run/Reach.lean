import Lox.Proofs.Run.Guard
import Lox.Proofs.Store.Reachable

/-!
# Guards and what is reached

All that can be reached on a guarded machine is allowed, if the roots are (`Guards.reaches`). Two
guards are of use. One allows what is reached from some roots, and what is made later
(`Guard.reaching`). The other allows what there is; a function or a class that was there when it was
set up has captured no scope that was not (`Guard.since`).
-/

namespace Lox

namespace Guard

/-- Code may get hold of the item. -/
def AllowsItem (g : Guard) (s : Store) : Item → Prop
  | .scope e => g.AllowsScope s e
  | .function f => g.AllowsScope s f.environment
  | .value v => g.Allows s v

variable {g : Guard} {m : Machine} {roots : Item → Prop} {s : Store}

/-- What is allowed leads to nothing else. -/
theorem Guards.links (guards : g.Guards m) {x y : Item} (allowed : g.AllowsItem m.store x)
    (link : m.store.Links x y) : g.AllowsItem m.store y := by
  cases link with
  | @enclosing e outer around =>
    obtain ⟨frame, path⟩ := e
    cases path with
    | nil => cases around
    | cons next path =>
      cases around
      exact fun id mem => allowed id (List.mem_cons_of_mem _ mem)
  | bound found => exact guards.bound (allowed _ List.mem_cons_self) found
  | captured => exact allowed
  | function => exact allowed.1
  | method found => exact (allowed _ List.mem_cons_self _ _ found).1
  | superclass => exact fun level mem => allowed level (List.mem_cons_of_mem _ mem)
  | ofClass => exact allowed.2
  | field found => exact guards.fields allowed.1 found

theorem Guards.reaches (guards : g.Guards m) (base : ∀ x, roots x → g.AllowsItem m.store x) {x : Item}
    (reached : m.store.Reaches roots x) : g.AllowsItem m.store x :=
  reached.invariant base fun _ _ allowed link => guards.links allowed link

/-! ## What is reached and what is new -/

/-- Code may get hold of what is reached from the roots, and of what has been made since. -/
def reaching (s : Store) (roots : Item → Prop) : Guard where
  start := s
  scope _ id := id < s.frames.size → s.ReachesScope roots id
  inst _ id := id < s.fields.size → s.ReachesInstance roots id
  object _ _ _ := True
  scope_mono _ h := h
  inst_mono _ h := h
  object_mono _ h := h
  scope_old _ _ h := h
  inst_old _ _ h := h
  scope_new _ grows old := absurd old (Nat.not_lt.2 grows.frames)
  inst_new grows old := absurd old (Nat.not_lt.2 grows.fields)
  object_new _ _ := trivial

theorem reaching_allowsScope {e : Environment} (reached : s.Reaches roots (.scope e)) :
    (reaching s roots).AllowsScope s e :=
  fun id mem _ => reached.path id mem

theorem reaching_allowsClass {c : Class}
    (reached : s.Reaches roots (.value (.callable (.ofClass c)))) :
    (reaching s roots).AllowsClass s c := by
  intro level mem name f found
  obtain ⟨rest, inherited⟩ := reached.lineage level mem
  have method : s.Reaches roots (.function f) := inherited.step (.method found)
  exact ⟨reaching_allowsScope (method.step .captured), trivial⟩

/-- What is reached is allowed. -/
theorem reaching_allows {v : Value} (reached : s.Reaches roots (.value v)) :
    (reaching s roots).Allows s v := by
  cases v with
  | nil | boolean | number | string => trivial
  | callable c =>
    cases c with
    | native f => trivial
    | function id f => exact ⟨reaching_allowsScope ((reached.step .function).step .captured), trivial⟩
    | ofClass c => exact reaching_allowsClass reached
  | ofInstance i => exact ⟨fun _ => ⟨i, reached, rfl⟩, reaching_allowsClass (reached.step .ofClass)⟩

/-- Code that has hold of the roots can get hold of what is reached only. -/
theorem reaching_guards (active : roots (.scope m.current)) (globals : roots (.scope .globals)) :
    (reaching m.store roots).Guards m where
  grown := .refl _
  active := reaching_allowsScope (.root active)
  globals := reaching_allowsScope (.root globals)
  bound scope found := by
    obtain ⟨e, reached, rfl⟩ := scope (Store.lt_of_get? found)
    exact reaching_allows (reached.step (.bound found))
  fields inst found := by
    obtain ⟨i, reached, rfl⟩ := inst (Store.lt_of_field found)
    exact reaching_allows (reached.step (.field found))
  shut _ := rfl
  shutFields _ := rfl

/-! ## What there is -/

/-- Code may get hold of what there is. What was there at first has captured no later scope. -/
def since (mark : Store) : Guard where
  start := mark
  scope s id := id < s.frames.size
  inst s id := id < s.fields.size
  object s id e := id < s.nextObject ∧
    (id < mark.nextObject → ∀ captured ∈ e.path, captured < mark.frames.size)
  scope_mono grows lt := Nat.lt_of_lt_of_le lt grows.frames
  inst_mono grows lt := Nat.lt_of_lt_of_le lt grows.fields
  object_mono grows h := ⟨Nat.lt_of_lt_of_le h.1 grows.objects, h.2⟩
  scope_old _ lt _ := lt
  inst_old _ lt _ := lt
  scope_new bound _ := by
    rw [Store.size_pushFrame]
    exact Nat.lt_succ_self _
  inst_new _ := by simp [Store.pushInstance]
  object_new _ grows := ⟨Nat.lt_succ_self _, fun old => absurd old (Nat.not_lt.2 grows.objects)⟩

theorem since_allowsClass {mark : Store} {c : Class} (h : (since mark).AllowsClass s c) :
    (since s).AllowsClass s c := by
  intro level mem name f found
  obtain ⟨scope, lt, -⟩ := h level mem name f found
  exact ⟨scope, lt, fun _ => scope⟩

/-- What there is may be had from later on as well. -/
theorem since_allows {mark : Store} {v : Value} (h : (since mark).Allows s v) :
    (since s).Allows s v := by
  cases v with
  | nil | boolean | number | string => trivial
  | callable c =>
    cases c with
    | native f => trivial
    | function id f => exact ⟨h.1, h.2.1, fun _ => h.1⟩
    | ofClass c => exact since_allowsClass h
  | ofInstance i => exact ⟨h.1, since_allowsClass h.2⟩

theorem Guards.since {mark : Store} (guards : (since mark).Guards m) :
    (Guard.since m.store).Guards m where
  grown := .refl _
  active := guards.active
  globals := guards.globals
  bound scope found := since_allows (guards.bound scope found)
  fields inst found := since_allows (guards.fields inst found)
  shut _ := rfl
  shutFields _ := rfl

/-- Where a session begins, there are only the globals, and they bind only what the language
provides. -/
theorem since_start (sink : Sink) (clock : Clock) :
    (since (Machine.start sink clock).store).Guards (.start sink clock) := by
  constructor
  case grown => exact .refl _
  case active | globals =>
    intro id mem
    rw [List.mem_singleton.1 mem]
    exact Nat.lt_succ_self 0
  case bound =>
    intro id name v _ found
    simp only [Machine.start, Store.frame_pushFrame] at found
    split at found
    · obtain ⟨-, rfl⟩ := Bindings.get?_insert_empty.1 found
      trivial
    · simp [Store.frame, Store.empty] at found
  case fields =>
    intro id name v inst
    exact absurd inst (Nat.not_lt_zero _)
  case shut | shutFields => exact fun _ => rfl

end Guard

end Lox
