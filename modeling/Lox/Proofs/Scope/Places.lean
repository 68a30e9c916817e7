import Lox.Scope.Basic

/-!
# Where a name is found

The place of a name in some scopes is told by the innermost one, if that declares the name, and by
the scopes around it otherwise. A declaration changes the place of no other name.
-/

namespace Lox

/-- The place of what is found there, seen from one more scope inside. -/
def Place.outward : Place → Place
  | scope hops => scope (hops + 1)
  | global => global

namespace Scopes

variable {scopes : Scopes} {scope : Bindings Bool} {name other : String}

theorem place_cons_of_contains (bound : scope.contains name = true) :
    Scopes.place (scope :: scopes) name = .scope 0 := by
  simp [place, List.findIdx?_cons, bound]

theorem place_cons_of_not_contains (unbound : scope.contains name = false) :
    Scopes.place (scope :: scopes) name = (scopes.place name).outward := by
  unfold place
  rw [List.findIdx?_cons, unbound]
  cases scopes.findIdx? (·.contains name) with
  | none => rfl
  | some hops => rfl

/-- A name that none of the scopes declares is that of a global. -/
theorem place_of_unbound (unbound : ∀ scope ∈ scopes, scope.contains name = false) :
    scopes.place name = .global := by
  induction scopes with
  | nil => rfl
  | cons scope outer ih =>
    rw [place_cons_of_not_contains (unbound scope List.mem_cons_self),
      ih fun scope mem => unbound scope (List.mem_cons_of_mem _ mem)]
    rfl

/-- The place of a name tells how many scopes are inside the innermost one that declares it. -/
theorem place_of_drop {k : Nat} (unbound : ∀ scope ∈ scopes.take k, scope.contains name = false)
    (declared : Scopes.isDeclared (scopes.drop k) name = true) : scopes.place name = .scope k := by
  induction scopes generalizing k with
  | nil => simp [isDeclared] at declared
  | cons scope outer ih =>
    cases k with
    | zero => exact place_cons_of_contains declared
    | succ k =>
      rw [place_cons_of_not_contains (unbound scope List.mem_cons_self),
        ih (fun scope mem => unbound scope (List.mem_cons_of_mem _ mem)) declared]
      rfl

theorem place_insert (ready : Bool) (ne : other ≠ name) :
    Scopes.place (scope.insert name ready :: scopes) other = Scopes.place (scope :: scopes) other := by
  have same : (scope.insert name ready).contains other = scope.contains other := by
    rw [Bindings.contains_insert]
    simp [ne]
  simp only [place, List.findIdx?_cons, same]

theorem place_define (ne : other ≠ name) :
    (scopes.define name).place other = scopes.place other := by
  cases scopes with
  | nil => rfl
  | cons scope rest => exact place_insert true ne

theorem place_declare (ne : other ≠ name) :
    (scopes.declare name).place other = scopes.place other := by
  cases scopes with
  | nil => rfl
  | cons scope rest =>
    simp only [declare]
    split
    · rfl
    · exact place_insert false ne

end Scopes

end Lox
