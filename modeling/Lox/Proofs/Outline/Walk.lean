import Lox.Proofs.Outline.Positions

/-!
# Walking through an outline

Resolution walks through a program in the order of its text and has a context around each node. The
walk is the same for all nodes of an outline: what a node adds to the context of its first part, and
what it leaves to the node behind it. `contextAt` is the context at a position, and `visits` lists the
nodes as the walk comes to them.
-/

namespace Lox

variable {ρ : Type}

/-- The sort of a function's body. -/
def FunctionContext.ofBody (isInitializer : Bool) : FunctionContext :=
  if isInitializer then .initializer else .function

/-- The sort of a class with this superclass. -/
def ClassContext.ofSuperclass (superclass : Option Name) : ClassContext :=
  if superclass.isSome then .derived else .base

namespace Label

/-- The scopes before the first part of a node, from those before the node. -/
def scopesInside (scopes : Scopes) : Label ρ → Scopes
  | «variable» name => scopes.declare name.text
  | function name | parameter name | classDecl name _ => scopes.define name.text
  | implicit name => scopes.define name
  | scope | body _ => scopes.enter
  | operation | read _ | store _ | this .. | super .. | statement | ret .. | inherits _ => scopes

/-- The scopes behind a node, from those before it and those behind its last part. -/
def scopesBehind (before inner : Scopes) : Label ρ → Scopes
  | scope | body _ => before
  | «variable» name => inner.define name.text
  | _ => inner

/-- Behind a scope stand the scopes before it. -/
theorem scopesBehind_of_opensScope {label : Label ρ} (opens : label.opensScope = true)
    (before inner : Scopes) : label.scopesBehind before inner = before := by
  cases label with
  | scope | body => rfl
  | operation | read | store | this | super | statement | ret | inherits | «variable» | function
  | parameter | classDecl | implicit => cases opens

/-- The context before the first part of a node. -/
def inside (c : Context) (label : Label ρ) : Context where
  function := (label.function?.map .ofBody).getD c.function
  classContext := (label.class?.map .ofSuperclass).getD c.classContext
  scopes := label.scopesInside c.scopes

end Label

mutual

/-- The scopes behind an outline. -/
def Outline.scopesAfter (scopes : Scopes) : Outline ρ → Scopes
  | .node label parts =>
    label.scopesBehind scopes (Outline.scopesAfterAll (label.scopesInside scopes) parts)

/-- The scopes behind outlines that follow each other. -/
def Outline.scopesAfterAll (scopes : Scopes) : List (Outline ρ) → Scopes
  | [] => scopes
  | o :: os => Outline.scopesAfterAll (o.scopesAfter scopes) os

end

/-- The context behind outlines that follow each other. -/
def Context.behind (c : Context) (os : List (Outline ρ)) : Context :=
  c.within (Outline.scopesAfterAll c.scopes os)

/-- The context that the walk has at a position. -/
def Outline.contextAt (c : Context) : Outline ρ → Position → Option Context
  | _, [] => some c
  | .node label parts, i :: q =>
    parts[i]?.bind fun o => o.contextAt ((label.inside c).behind (parts.take i)) q

/-- A node that the walk comes to. -/
structure Visit (ρ : Type) where
  position : Position
  context : Context
  label : Label ρ

/-- The visit, seen from the node with this part. -/
def Visit.inPart (i : Nat) (v : Visit ρ) : Visit ρ := { v with position := i :: v.position }

mutual

/-- The nodes of an outline as the walk comes to them. -/
def Outline.visits (c : Context) : Outline ρ → List (Visit ρ)
  | .node label parts => ⟨[], c, label⟩ :: Outline.visitsAll 0 (label.inside c) parts

/-- The nodes of the parts from the one with this number on. -/
def Outline.visitsAll (i : Nat) (c : Context) : List (Outline ρ) → List (Visit ρ)
  | [] => []
  | o :: os => (o.visits c).map (.inPart i) ++ Outline.visitsAll (i + 1) (c.behind [o]) os

end

namespace Outline

variable {o : Outline ρ} {label : Label ρ} {parts : List (Outline ρ)} {c c' : Context} {i : Nat}
  {q : Position}

@[simp] theorem contextAt_nil : o.contextAt c [] = some c := by
  cases o
  rfl

theorem eq_of_contextAt_nil (reached : o.contextAt c [] = some c') : c = c' :=
  Option.some.inj (contextAt_nil.symm.trans reached)

theorem contextAt_cons :
    (node label parts).contextAt c (i :: q) = some c' ↔
      ∃ o, parts[i]? = some o ∧
        o.contextAt ((label.inside c).behind (parts.take i)) q = some c' := by
  simp only [contextAt, Option.bind_eq_some_iff]

/-- The walk comes to every node. -/
theorem exists_contextAt :
    ∀ {q : Position} {o : Outline ρ} {c : Context}, o.label? q = some label →
      ∃ c', o.contextAt c q = some c'
  | [], _, c, _ => ⟨c, contextAt_nil⟩
  | _ :: _, .node _ _, _, there => by
    obtain ⟨o, at_i, inside⟩ := Option.bind_eq_some_iff.1 there
    obtain ⟨c', reached⟩ := exists_contextAt inside
    exact ⟨c', contextAt_cons.2 ⟨o, at_i, reached⟩⟩

/-! ## What is visited -/

mutual

/-- The walk visits each node, in its context. -/
theorem mem_visits :
    ∀ (o : Outline ρ) (c : Context) {q : Position} {c' : Context} {label : Label ρ},
      ⟨q, c', label⟩ ∈ o.visits c ↔ o.contextAt c q = some c' ∧ o.label? q = some label
  | .node l parts, c, [], c', label => by
    have notInPart : ⟨[], c', label⟩ ∉ visitsAll 0 (l.inside c) parts := by
      intro mem
      obtain ⟨_, _, _, _, absurd, _⟩ := (mem_visitsAll parts 0 _).1 mem
      cases absurd
    simp only [visits, List.mem_cons, Visit.mk.injEq, true_and, notInPart, or_false, contextAt_nil,
      label?_nil, Option.some.injEq]
    exact and_congr eq_comm eq_comm
  | .node l parts, c, i :: q, c', label => by
    simp only [visits, List.mem_cons, Visit.mk.injEq, List.cons_ne_nil, false_and, false_or]
    rw [mem_visitsAll parts 0, contextAt_cons, label?_cons, Option.bind_eq_some_iff]
    constructor
    · rintro ⟨j, o, p, at_j, same, reached, there⟩
      rw [Nat.zero_add, List.cons.injEq] at same
      obtain ⟨rfl, rfl⟩ := same
      exact ⟨⟨o, at_j, reached⟩, o, at_j, there⟩
    · rintro ⟨⟨o, at_i, reached⟩, o', at_i', there⟩
      obtain rfl : o = o' := Option.some.inj (at_i.symm.trans at_i')
      exact ⟨i, o, q, at_i, by rw [Nat.zero_add], reached, there⟩

theorem mem_visitsAll :
    ∀ (os : List (Outline ρ)) (n : Nat) (c : Context) {q : Position} {c' : Context}
      {label : Label ρ}, ⟨q, c', label⟩ ∈ visitsAll n c os ↔
        ∃ i o p, os[i]? = some o ∧ q = (n + i) :: p ∧
          o.contextAt (c.behind (os.take i)) p = some c' ∧ o.label? p = some label
  | [], _, _, _, _, _ => by simp [visitsAll]
  | o :: os, n, c, q, c', label => by
    have first : ⟨q, c', label⟩ ∈ (o.visits c).map (Visit.inPart n) ↔
        ∃ p, q = n :: p ∧ o.contextAt c p = some c' ∧ o.label? p = some label := by
      rw [List.mem_map]
      constructor
      · rintro ⟨⟨p, d, l⟩, mem, same⟩
        cases same
        exact ⟨p, rfl, (mem_visits o c).1 mem⟩
      · rintro ⟨p, rfl, standing⟩
        exact ⟨⟨p, c', label⟩, (mem_visits o c).2 standing, rfl⟩
    rw [visitsAll, List.mem_append, first, mem_visitsAll os (n + 1)]
    constructor
    · rintro (⟨p, same, standing⟩ | ⟨i, o', p, at_i, same, standing⟩)
      · exact ⟨0, o, p, rfl, same, standing⟩
      · exact ⟨i + 1, o', p, at_i, by rw [same]; congr 1; omega, standing⟩
    · rintro ⟨i, o', p, at_i, same, standing⟩
      cases i with
      | zero =>
        obtain rfl : o = o' := Option.some.inj at_i
        exact .inl ⟨p, same, standing⟩
      | succ i => exact .inr ⟨i, o', p, at_i, by rw [same]; congr 1; omega, standing⟩

end

mutual

/-- The walk goes on in the order of the text. -/
theorem visits_ordered :
    ∀ (o : Outline ρ) (c : Context),
      (o.visits c).Pairwise fun v w => v.position < w.position
  | .node l parts, c => by
    rw [visits, List.pairwise_cons]
    constructor
    · rintro ⟨q, d, m⟩ mem
      obtain ⟨i, o, p, -, rfl, -⟩ := (mem_visitsAll parts 0 _).1 mem
      exact List.nil_lt_cons _ _
    · exact visitsAll_ordered parts 0 _

theorem visitsAll_ordered :
    ∀ (os : List (Outline ρ)) (n : Nat) (c : Context),
      (visitsAll n c os).Pairwise fun v w => v.position < w.position
  | [], _, _ => .nil
  | o :: os, n, c => by
    rw [visitsAll, List.pairwise_append]
    refine ⟨?_, visitsAll_ordered os (n + 1) _, ?_⟩
    · rw [List.pairwise_map]
      exact (visits_ordered o c).imp fun before => List.cons_lt_cons_iff.2 (.inr ⟨rfl, before⟩)
    · -- all of the first part has its number, all of the others a larger one
      intro v first ⟨q, d, m⟩ later
      obtain ⟨w, -, rfl⟩ := List.mem_map.1 first
      obtain ⟨i, o', p, -, rfl, -⟩ := (mem_visitsAll os (n + 1) _).1 later
      exact List.cons_lt_cons_iff.2 (.inl (by omega))

end

end Outline

end Lox
