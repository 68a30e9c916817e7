import Lox.Proofs.Outline.Basic

/-!
# Positions in the parts of an outline

What stands around a position in a part of a node is what stands around it in the part, and the node
itself last of all. The names declared before the position in a scope of the part are those that are
declared there in the part; if the node is itself the scope, they are those of the parts before and
those of the part itself that stand in no other scope.
-/

namespace Lox

variable {ρ : Type}

/-- What opens a scope declares nothing. -/
theorem Label.declares_of_opensScope {label : Label ρ} (opens : label.opensScope = true) :
    label.declares = ∅ := by
  cases label with
  | scope | body => rfl
  | operation | read | store | this | super | statement | ret | inherits | «variable» | function
  | parameter | classDecl | implicit => cases opens

namespace Outline

/-- The names that are declared in the outline and in none of its scopes. -/
def loose (o : Outline ρ) : Set String :=
  {name | ∃ p, o.DeclaresAt p name ∧ o.scopesAround p = []}

/-- The names that are declared in the outline before the position, in none of its scopes. -/
def looseBefore (o : Outline ρ) (q : Position) : Set String :=
  {name | ∃ p, o.DeclaresAt p name ∧ o.scopesAround p = [] ∧ p < q}

/-- The names that are declared in some of the outlines, in none of their scopes. -/
def looseIn (os : List (Outline ρ)) : Set String := {name | ∃ o ∈ os, name ∈ o.loose}

variable {o : Outline ρ} {label : Label ρ} {parts : List (Outline ρ)} {i : Nat} {p q s : Position}
  {name : String}

@[simp] theorem label?_nil : (node label parts).label? [] = some label := rfl

theorem label?_cons : (node label parts).label? (i :: q) = parts[i]?.bind (·.label? q) := rfl

@[simp] theorem around_nil : o.around [] = [] := by
  cases o
  rfl

theorem around_cons (at_i : parts[i]? = some o) :
    (node label parts).around (i :: q) =
      (o.around q).map (fun a => (i :: a.1, a.2)) ++ [([], label)] := by
  simp [around, at_i]

theorem mem_around_cons {a : Position × Label ρ} :
    a ∈ (node label parts).around (i :: q) ↔
      a = ([], label) ∨
        ∃ o b, parts[i]? = some o ∧ b ∈ o.around q ∧ a = (i :: b.1, b.2) := by
  cases at_i : parts[i]? with
  | none => simp [around, at_i]
  | some o =>
    rw [around_cons at_i, List.mem_append, List.mem_map, List.mem_singleton, or_comm]
    apply or_congr_right
    constructor
    · rintro ⟨b, mem, rfl⟩
      exact ⟨o, b, rfl, mem, rfl⟩
    · rintro ⟨o', b, same, mem, rfl⟩
      obtain rfl : o = o' := Option.some.inj same
      exact ⟨b, mem, rfl⟩

/-- What is around a position stands at its own position. -/
theorem label?_of_mem_around :
    ∀ {q : Position} {o : Outline ρ} {a : Position × Label ρ},
      a ∈ o.around q → o.label? a.1 = some a.2
  | [], _, _, mem => by simp at mem
  | i :: q, .node _ _, a, mem => by
    rcases mem_around_cons.1 mem with rfl | ⟨o, b, at_i, inPart, rfl⟩
    · rfl
    · rw [label?_cons, at_i]
      exact label?_of_mem_around inPart

@[simp] theorem scopesAround_nil : o.scopesAround [] = [] := by
  simp [scopesAround]

theorem scopesAround_cons (at_i : parts[i]? = some o) :
    (node label parts).scopesAround (i :: q) =
      (o.scopesAround q).map (i :: ·) ++ if label.opensScope then [[]] else [] := by
  simp only [scopesAround, around_cons at_i, List.filter_append, List.filter_map, List.map_append,
    List.map_map]
  congr 1
  by_cases opens : label.opensScope <;> simp [opens]

theorem functionAround_cons (at_i : parts[i]? = some o) :
    (node label parts).functionAround (i :: q) = (o.functionAround q).or label.function? := by
  simp only [functionAround, around_cons at_i, List.findSome?_append, List.findSome?_map,
    Function.comp_def, List.findSome?_singleton]

theorem classAround_cons (at_i : parts[i]? = some o) :
    (node label parts).classAround (i :: q) = (o.classAround q).or label.class? := by
  simp only [classAround, around_cons at_i, List.findSome?_append, List.findSome?_map,
    Function.comp_def, List.findSome?_singleton]

theorem declaresAt_nil : (node label parts).DeclaresAt [] name ↔ name ∈ label.declares := by
  simp [DeclaresAt]

theorem declaresAt_cons :
    (node label parts).DeclaresAt (i :: p) name ↔
      ∃ o, parts[i]? = some o ∧ o.DeclaresAt p name := by
  constructor
  · rintro ⟨l, there, declares⟩
    obtain ⟨o, at_i, inside⟩ := Option.bind_eq_some_iff.1 there
    exact ⟨o, at_i, l, inside, declares⟩
  · rintro ⟨o, at_i, l, inside, declares⟩
    exact ⟨l, Option.bind_eq_some_iff.2 ⟨o, at_i, inside⟩, declares⟩

/-! ## Declarations in a node and in its parts -/

theorem mem_looseIn_take :
    name ∈ looseIn (parts.take i) ↔ ∃ j o, j < i ∧ parts[j]? = some o ∧ name ∈ o.loose := by
  constructor
  · rintro ⟨o, mem, free⟩
    obtain ⟨j, at_j⟩ := List.mem_iff_getElem?.1 mem
    rw [List.getElem?_take] at at_j
    split at at_j
    · next before => exact ⟨j, o, before, at_j, free⟩
    · cases at_j
  · rintro ⟨j, o, before, at_j, free⟩
    have taken : (parts.take i)[j]? = some o := by rw [List.getElem?_take_of_lt before, at_j]
    exact ⟨o, List.mem_of_getElem? taken, free⟩

/-- A scope that a node opens is the innermost one around what is loose in the parts. -/
theorem head?_scopesAround_cons_eq_root (at_i : parts[i]? = some o) :
    ((node label parts).scopesAround (i :: p)).head? = some [] ↔
      label.opensScope = true ∧ o.scopesAround p = [] := by
  rw [scopesAround_cons at_i]
  cases o.scopesAround p with
  | nil => by_cases opens : label.opensScope <;> simp [opens]
  | cons s rest => simp

theorem head?_scopesAround_cons_eq_cons {j : Nat} (at_i : parts[i]? = some o) :
    ((node label parts).scopesAround (i :: p)).head? = some (j :: s) ↔
      i = j ∧ (o.scopesAround p).head? = some s := by
  rw [scopesAround_cons at_i]
  cases o.scopesAround p with
  | nil => by_cases opens : label.opensScope <;> simp [opens]
  | cons s rest => simp

theorem scopesAround_cons_eq_nil (at_i : parts[i]? = some o) :
    (node label parts).scopesAround (i :: p) = [] ↔
      label.opensScope = false ∧ o.scopesAround p = [] := by
  rw [scopesAround_cons at_i]
  by_cases opens : label.opensScope <;> simp [opens]

theorem declaredBefore_cons (at_i : parts[i]? = some o) :
    (node label parts).declaredBefore (i :: s) (i :: q) = o.declaredBefore s q := by
  ext name
  constructor
  · rintro ⟨p, declares, owned, before⟩
    cases p with
    | nil => simp at owned
    | cons j p =>
      obtain ⟨o', at_j, inside⟩ := declaresAt_cons.1 declares
      obtain ⟨rfl, nearest⟩ := (head?_scopesAround_cons_eq_cons at_j).1 owned
      obtain rfl : o' = o := Option.some.inj (at_j.symm.trans at_i)
      exact ⟨p, inside, nearest, by simpa using before⟩
  · rintro ⟨p, declares, owned, before⟩
    exact ⟨i :: p, declaresAt_cons.2 ⟨o, at_i, declares⟩,
      (head?_scopesAround_cons_eq_cons at_i).2 ⟨rfl, owned⟩, by simpa using before⟩

/-- The declarations that a part of a node has loose before a position come from the parts before and
from the part that the position is in. -/
theorem loose_before_cons (at_i : parts[i]? = some o) :
    (∃ j p o', parts[j]? = some o' ∧ o'.DeclaresAt p name ∧ o'.scopesAround p = [] ∧
        j :: p < i :: q) ↔
      name ∈ looseIn (parts.take i) ∪ o.looseBefore q := by
  rw [Set.mem_union, mem_looseIn_take]
  constructor
  · rintro ⟨j, p, o', at_j, declares, free, before⟩
    rcases List.cons_lt_cons_iff.1 before with earlier | ⟨rfl, within⟩
    · exact .inl ⟨j, o', earlier, at_j, p, declares, free⟩
    · obtain rfl : o' = o := Option.some.inj (at_j.symm.trans at_i)
      exact .inr ⟨p, declares, free, within⟩
  · rintro (⟨j, o', before, at_j, p, declares, free⟩ | ⟨p, declares, free, before⟩)
    · exact ⟨j, p, o', at_j, declares, free, List.cons_lt_cons_iff.2 (.inl before)⟩
    · exact ⟨i, p, o, at_i, declares, free, List.cons_lt_cons_iff.2 (.inr ⟨rfl, before⟩)⟩

theorem declaredBefore_root (at_i : parts[i]? = some o) (opens : label.opensScope = true) :
    (node label parts).declaredBefore [] (i :: q) =
      looseIn (parts.take i) ∪ o.looseBefore q := by
  ext name
  rw [← loose_before_cons at_i]
  constructor
  · rintro ⟨p, declares, owned, before⟩
    cases p with
    | nil => simp at owned
    | cons j p =>
      obtain ⟨o', at_j, inside⟩ := declaresAt_cons.1 declares
      have free := ((head?_scopesAround_cons_eq_root at_j).1 owned).2
      exact ⟨j, p, o', at_j, inside, free, before⟩
  · rintro ⟨j, p, o', at_j, declares, free, before⟩
    exact ⟨j :: p, declaresAt_cons.2 ⟨o', at_j, declares⟩,
      (head?_scopesAround_cons_eq_root at_j).2 ⟨opens, free⟩, before⟩

theorem looseBefore_nil : o.looseBefore [] = ∅ := by
  ext name
  simp [looseBefore]

theorem looseBefore_cons (at_i : parts[i]? = some o) (closed : label.opensScope = false) :
    (node label parts).looseBefore (i :: q) =
      label.declares ∪ (looseIn (parts.take i) ∪ o.looseBefore q) := by
  ext name
  rw [Set.mem_union, ← loose_before_cons at_i]
  constructor
  · rintro ⟨p, declares, free, before⟩
    cases p with
    | nil => exact .inl (declaresAt_nil.1 declares)
    | cons j p =>
      obtain ⟨o', at_j, inside⟩ := declaresAt_cons.1 declares
      exact .inr ⟨j, p, o', at_j, inside, ((scopesAround_cons_eq_nil at_j).1 free).2, before⟩
  · rintro (declares | ⟨j, p, o', at_j, declares, free, before⟩)
    · exact ⟨[], declaresAt_nil.2 declares, scopesAround_nil, List.nil_lt_cons _ _⟩
    · exact ⟨j :: p, declaresAt_cons.2 ⟨o', at_j, declares⟩,
        (scopesAround_cons_eq_nil at_j).2 ⟨closed, free⟩, before⟩

/-- Nothing is loose in a scope. -/
theorem loose_of_opensScope (opens : label.opensScope = true) : (node label parts).loose = ∅ := by
  ext name
  simp only [Set.mem_empty_iff_false, iff_false]
  rintro ⟨p, declares, free⟩
  cases p with
  | nil => simp [declaresAt_nil, Label.declares_of_opensScope opens] at declares
  | cons j p =>
    obtain ⟨o', at_j, -⟩ := declaresAt_cons.1 declares
    have closed := ((scopesAround_cons_eq_nil at_j).1 free).1
    simp [opens] at closed

theorem looseBefore_of_opensScope (opens : label.opensScope = true) :
    (node label parts).looseBefore q = ∅ := by
  have none : (node label parts).looseBefore q ⊆ (node label parts).loose :=
    fun _ ⟨p, declares, free, _⟩ => ⟨p, declares, free⟩
  rw [loose_of_opensScope opens] at none
  exact Set.subset_empty_iff.1 none

/-- What is loose in a node that opens no scope is what it declares and what is loose in its parts. -/
theorem loose_of_not_opensScope (closed : label.opensScope = false) :
    (node label parts).loose = label.declares ∪ looseIn parts := by
  ext name
  constructor
  · rintro ⟨p, declares, free⟩
    cases p with
    | nil => exact .inl (declaresAt_nil.1 declares)
    | cons j p =>
      obtain ⟨o', at_j, inside⟩ := declaresAt_cons.1 declares
      exact .inr ⟨o', List.mem_of_getElem? at_j, p, inside,
        ((scopesAround_cons_eq_nil at_j).1 free).2⟩
  · rintro (declares | ⟨o', mem, p, declares, free⟩)
    · exact ⟨[], declaresAt_nil.2 declares, scopesAround_nil⟩
    · obtain ⟨j, at_j⟩ := List.mem_iff_getElem?.1 mem
      exact ⟨j :: p, declaresAt_cons.2 ⟨o', at_j, declares⟩,
        (scopesAround_cons_eq_nil at_j).2 ⟨closed, free⟩⟩

end Outline

end Lox
