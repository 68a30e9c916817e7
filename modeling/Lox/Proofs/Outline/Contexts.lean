import Lox.Proofs.Outline.Walk
import Mathlib.Data.Set.Insert

/-!
# What the context says of a position

The scopes that the walk has at a position hold the names that are declared before it in the scopes
around it, and the context tells the innermost function and the innermost class around it.
-/

namespace Lox

variable {ρ : Type}

/-! ## The names of scopes -/

/-- The names that are declared in each of the scopes. -/
def Scopes.names (scopes : Scopes) : List (Set String) :=
  scopes.map fun scope => {name | scope.contains name = true}

/-- More names in the innermost scope. -/
def growInnermost (more : Set String) : List (Set String) → List (Set String)
  | [] => []
  | names :: outer => (names ∪ more) :: outer

theorem growInnermost_empty (names : List (Set String)) : growInnermost ∅ names = names := by
  cases names with
  | nil => rfl
  | cons inner outer => simp [growInnermost]

theorem growInnermost_union (first second : Set String) (names : List (Set String)) :
    growInnermost second (growInnermost first names) = growInnermost (first ∪ second) names := by
  cases names with
  | nil => rfl
  | cons inner outer => simp [growInnermost, Set.union_assoc]

/-- More of the names that are there already are none. -/
theorem growInnermost_absorb {first second : Set String} (known : second ⊆ first)
    (names : List (Set String)) :
    growInnermost second (growInnermost first names) = growInnermost first names := by
  rw [growInnermost_union, Set.union_eq_self_of_subset_right known]

namespace Scopes

variable {scopes : Scopes} {name : String}

theorem names_insert (scope : Bindings Bool) (ready : Bool) :
    {other | (scope.insert name ready).contains other = true} =
      {other | scope.contains other = true} ∪ {name} := by
  ext other
  rw [Set.mem_union, Set.mem_singleton_iff]
  simp [Bindings.contains_insert, or_comm]

theorem names_define : (scopes.define name).names = growInnermost {name} scopes.names := by
  cases scopes with
  | nil => rfl
  | cons scope outer => simp only [define, names, List.map_cons, names_insert, growInnermost]

theorem names_declare : (scopes.declare name).names = growInnermost {name} scopes.names := by
  cases scopes with
  | nil => rfl
  | cons scope outer =>
    by_cases known : scope.contains name = true
    · have same : {other | scope.contains other = true} ∪ {name} =
          {other | scope.contains other = true} := by
        rw [Set.union_singleton]
        exact Set.insert_eq_of_mem known
      simp only [declare, known, if_true, names, List.map_cons, growInnermost, same]
    · simp only [declare, known, names, List.map_cons, growInnermost]
      simp [names_insert]

theorem names_enter : scopes.enter.names = ∅ :: scopes.names := by
  simp [enter, names, Bindings.contains]

end Scopes

/-! ## The names around a position -/

variable {label : Label ρ} {o : Outline ρ} {parts : List (Outline ρ)} {scopes inner : Scopes}
  {c c' : Context} {q : Position} {name : String}

theorem Label.names_scopesInside (scopes : Scopes) (label : Label ρ) :
    (label.scopesInside scopes).names =
      if label.opensScope then ∅ :: scopes.names
      else growInnermost label.declares scopes.names := by
  cases label with
  | «variable» name => exact Scopes.names_declare
  | function name | parameter name | classDecl name _ | implicit name => exact Scopes.names_define
  | scope | body _ => exact Scopes.names_enter
  | operation | read | store | this | super | statement | ret | inherits =>
    exact (growInnermost_empty _).symm

/-- Behind a node that opens no scope stand the names behind its last part, when these include the one
that the node declares. -/
theorem Label.names_scopesBehind (closed : label.opensScope = false) {known : Set String}
    {names : List (Set String)} (behindParts : inner.names = growInnermost known names)
    (declared : label.declares ⊆ known) :
    (label.scopesBehind scopes inner).names = growInnermost known names := by
  cases label with
  | «variable» name =>
    have defined : (inner.define name.text).names = growInnermost {name.text} inner.names :=
      Scopes.names_define
    rw [Label.scopesBehind, defined, behindParts]
    exact growInnermost_absorb declared names
  | scope | body => cases closed
  | operation | read | store | this | super | statement | ret | inherits | function | parameter
  | classDecl | implicit => exact behindParts

namespace Outline

theorem looseIn_nil : looseIn ([] : List (Outline ρ)) = ∅ := by
  ext name
  simp [looseIn]

theorem looseIn_cons (o : Outline ρ) (os : List (Outline ρ)) :
    looseIn (o :: os) = o.loose ∪ looseIn os := by
  ext name
  simp [looseIn]

mutual

/-- An outline adds its loose names to the innermost scope. -/
theorem names_scopesAfter :
    ∀ (o : Outline ρ) (scopes : Scopes),
      (o.scopesAfter scopes).names = growInnermost o.loose scopes.names
  | .node label parts, scopes => by
    rw [scopesAfter]
    cases opens : label.opensScope with
    | true =>
      rw [Label.scopesBehind_of_opensScope opens, loose_of_opensScope opens, growInnermost_empty]
    | false =>
      rw [loose_of_not_opensScope opens]
      apply Label.names_scopesBehind opens _ Set.subset_union_left
      rw [names_scopesAfterAll parts, Label.names_scopesInside, opens]
      exact growInnermost_union _ _ _

theorem names_scopesAfterAll :
    ∀ (os : List (Outline ρ)) (scopes : Scopes),
      (scopesAfterAll scopes os).names = growInnermost (looseIn os) scopes.names
  | [], scopes => by rw [scopesAfterAll, looseIn_nil, growInnermost_empty]
  | o :: os, scopes => by
    rw [scopesAfterAll, names_scopesAfterAll os, names_scopesAfter o, growInnermost_union,
      looseIn_cons]

end

/-- **The scopes at a position hold the names declared before it** in the scopes around it. Behind them
come the scopes from outside, the innermost with the names that are declared before in none of these. -/
theorem names_contextAt :
    ∀ {q : Position} {o : Outline ρ} {c : Context}, o.contextAt c q = some c' →
      c'.scopes.names = (o.scopesAround q).map (o.declaredBefore · q) ++
        growInnermost (o.looseBefore q) c.scopes.names
  | [], o, c, reached => by
    obtain rfl := eq_of_contextAt_nil reached
    rw [scopesAround_nil, looseBefore_nil, growInnermost_empty]
    rfl
  | i :: q, .node label parts, c, reached => by
    obtain ⟨o, at_i, inside⟩ := contextAt_cons.1 reached
    -- the walk comes to the part with what the node and the parts before it have left
    have before : ((label.inside c).behind (parts.take i)).scopes.names =
        growInnermost (looseIn (parts.take i)) (label.scopesInside c.scopes).names :=
      names_scopesAfterAll (parts.take i) (label.scopesInside c.scopes)
    rw [names_contextAt inside, before, growInnermost_union, Label.names_scopesInside,
      scopesAround_cons at_i, List.map_append, List.map_map]
    have inPart : (o.scopesAround q).map
          ((fun s => (node label parts).declaredBefore s (i :: q)) ∘ (i :: ·)) =
        (o.scopesAround q).map (o.declaredBefore · q) := by
      apply List.map_congr_left
      intro s _
      exact declaredBefore_cons at_i
    rw [inPart, List.append_assoc]
    congr 1
    -- if the node is a scope, it is the outermost one and holds what is loose in its parts
    cases opens : label.opensScope with
    | true =>
      rw [looseBefore_of_opensScope opens, growInnermost_empty]
      simp [growInnermost, declaredBefore_root at_i opens]
    | false => simp [looseBefore_cons at_i opens, growInnermost_union]

/-! ## In a whole program -/

theorem names_of_program (reached : o.contextAt .top q = some c') :
    c'.scopes.names = (o.scopesAround q).map (o.declaredBefore · q) := by
  rw [names_contextAt reached]
  exact List.append_nil _

/-- The walk is in as many scopes as there are around the position. -/
theorem length_scopes_of_program (reached : o.contextAt .top q = some c') :
    c'.scopes.length = (o.scopesAround q).length := by
  have same := congrArg List.length (names_of_program reached)
  simpa [Scopes.names] using same

/-- A scope of the walk declares what is declared before the position in the scope around it. -/
theorem contains_of_program (reached : o.contextAt .top q = some c') {k : Nat}
    {scope : Bindings Bool} {s : Position} (found : c'.scopes[k]? = some scope)
    (there : (o.scopesAround q)[k]? = some s) :
    scope.contains name = true ↔ name ∈ o.declaredBefore s q := by
  have same := congrArg (·[k]?) (names_of_program reached)
  simp only [Scopes.names, List.getElem?_map, found, there, Option.map_some,
    Option.some.injEq] at same
  rw [← same]
  rfl

theorem isDeclared_of_program (reached : o.contextAt .top q = some c') :
    c'.scopes.isDeclared name = true ↔
      ∃ s, (o.scopesAround q).head? = some s ∧ name ∈ o.declaredBefore s q := by
  have length := length_scopes_of_program reached
  cases hs : c'.scopes with
  | nil =>
    have outside : o.scopesAround q = [] := by
      rw [hs] at length
      exact List.eq_nil_of_length_eq_zero length.symm
    simp [Scopes.isDeclared, outside]
  | cons scope outer =>
    cases around : o.scopesAround q with
    | nil => simp [hs, around] at length
    | cons s rest =>
      have same : scope.contains name = true ↔ name ∈ o.declaredBefore s q :=
        contains_of_program (k := 0) reached (by rw [hs]; rfl) (by rw [around]; rfl)
      simp [Scopes.isDeclared, same]

/-- A name is new in the innermost scope of the walk if there is a scope around the position and the
innermost one does not declare it before. -/
theorem isNew_of_program (reached : o.contextAt .top q = some c') :
    c'.scopes ≠ [] ∧ c'.scopes.isDeclared name = false ↔
      ∃ s, (o.scopesAround q).head? = some s ∧ name ∉ o.declaredBefore s q := by
  have length := length_scopes_of_program reached
  have declared : c'.scopes.isDeclared name = true ↔
      ∃ s, (o.scopesAround q).head? = some s ∧ name ∈ o.declaredBefore s q :=
    isDeclared_of_program reached
  rw [← Bool.not_eq_true, declared]
  cases around : o.scopesAround q with
  | nil =>
    have outside : c'.scopes = [] := List.eq_nil_of_length_eq_zero (by rw [length, around]; rfl)
    simp [outside]
  | cons s rest =>
    have inside : c'.scopes ≠ [] := by
      intro outside
      simp [outside, around] at length
    simp [inside]

/-- **The walk finds a name where lexical scoping does.** -/
theorem lands_place (reached : o.contextAt .top q = some c') :
    o.Lands q name (c'.scopes.place name) := by
  have length := length_scopes_of_program reached
  unfold Scopes.place
  cases found : c'.scopes.findIdx? (·.contains name) with
  | none =>
    intro s mem declared
    obtain ⟨k, there⟩ := List.mem_iff_getElem?.1 mem
    have inRange : k < c'.scopes.length := by
      rw [length]
      exact (List.getElem?_eq_some_iff.1 there).1
    have here := List.getElem?_eq_getElem inRange
    have bound := (contains_of_program reached here there).2 declared
    have unbound := List.findIdx?_eq_none_iff.1 found _ (List.getElem_mem inRange)
    rw [bound] at unbound
    cases unbound
  | some hops =>
    obtain ⟨inRange, bound, nearer⟩ := List.findIdx?_eq_some_iff_getElem.1 found
    have here := List.getElem?_eq_getElem inRange
    have there := List.getElem?_eq_getElem (length ▸ inRange)
    refine ⟨_, there, (contains_of_program reached here there).1 bound, ?_⟩
    intro s mem declared
    obtain ⟨j, there⟩ := List.mem_iff_getElem?.1 mem
    rw [List.getElem?_take] at there
    split at there
    · next closer =>
      have here := List.getElem?_eq_getElem (closer.trans inRange)
      have bound := (contains_of_program reached here there).2 declared
      exact nearer j closer bound
    · cases there

/-- A name lands in one place only. -/
theorem Lands.unique {place other : Place} (first : o.Lands q name place)
    (second : o.Lands q name other) : place = other := by
  have apart {j k : Nat} : o.Finds q name j → o.Finds q name k → ¬ j < k := by
    rintro ⟨s, there, declared, -⟩ ⟨_, _, _, nearer⟩ closer
    have taken : ((o.scopesAround q).take k)[j]? = some s := by
      rw [List.getElem?_take_of_lt closer, there]
    exact nearer s (List.mem_of_getElem? taken) declared
  cases place with
  | scope j =>
    cases other with
    | scope k =>
      have notCloser : ¬ j < k := apart first second
      have notFurther : ¬ k < j := apart second first
      have same : j = k := by omega
      rw [same]
    | global =>
      obtain ⟨s, there, declared, -⟩ := first
      exact absurd declared (second s (List.mem_of_getElem? there))
  | global =>
    cases other with
    | scope k =>
      obtain ⟨s, there, declared, -⟩ := second
      exact absurd declared (first s (List.mem_of_getElem? there))
    | global => rfl

/-- The context tells whether the innermost function is an initializer. -/
theorem function_contextAt :
    ∀ {q : Position} {o : Outline ρ} {c : Context}, o.contextAt c q = some c' →
      c'.function = ((o.functionAround q).map .ofBody).getD c.function
  | [], o, c, reached => by
    obtain rfl := eq_of_contextAt_nil reached
    simp [functionAround]
  | i :: q, .node label parts, c, reached => by
    obtain ⟨o, at_i, inside⟩ := contextAt_cons.1 reached
    rw [function_contextAt inside, functionAround_cons at_i]
    cases o.functionAround q <;> rfl

/-- The context tells the sort of the innermost class. -/
theorem classContext_contextAt :
    ∀ {q : Position} {o : Outline ρ} {c : Context}, o.contextAt c q = some c' →
      c'.classContext = ((o.classAround q).map .ofSuperclass).getD c.classContext
  | [], o, c, reached => by
    obtain rfl := eq_of_contextAt_nil reached
    simp [classAround]
  | i :: q, .node label parts, c, reached => by
    obtain ⟨o, at_i, inside⟩ := contextAt_cons.1 reached
    rw [classContext_contextAt inside, classAround_cons at_i]
    cases o.classAround q <;> rfl

end Outline

end Lox
