import Lox.Proofs.Outline.Marks
import Lox.Proofs.Scope.Checks

/-!
# Distances are those of lexical scoping

The distance table of a program has an entry for a reference if some scope around the reference has a
declaration of its name that begins before it, and the entry is the number of scopes between the
reference and the innermost such scope.
-/

namespace Lox

variable {ρ : Type}

theorem mem_distances {marks : List (ρ × Place)} {mark : ρ} {hops : Nat} :
    (mark, hops) ∈ distances marks ↔ (mark, Place.scope hops) ∈ marks := by
  rw [distances, List.mem_filterMap]
  constructor
  · rintro ⟨⟨m, place⟩, mem, entry⟩
    obtain ⟨h, found, same⟩ := Option.map_eq_some_iff.1 entry
    cases same
    cases place with
    | scope k =>
      cases found
      exact mem
    | global => cases found
  · intro mem
    exact ⟨_, mem, rfl⟩

namespace Outline

variable {o : Outline ρ} {q : Position} {name : String} {mark : ρ}

/-- A name is found if any scope around declares it before. -/
theorem RefersAt.exists_finds (refers : o.RefersAt q name mark) :
    (∃ hops, o.Finds q name hops) ↔ ∃ s ∈ o.scopesAround q, name ∈ o.declaredBefore s q := by
  constructor
  · rintro ⟨hops, s, there, declared, -⟩
    exact ⟨s, List.mem_of_getElem? there, declared⟩
  · rintro ⟨s, mem, declared⟩
    obtain ⟨label, standing, -⟩ := refers
    obtain ⟨d, reached⟩ := exists_contextAt (c := .top) standing
    have lands : o.Lands q name (d.scopes.place name) := lands_place reached
    cases place : d.scopes.place name with
    | scope hops =>
      rw [place] at lands
      exact ⟨hops, lands⟩
    | global =>
      rw [place] at lands
      exact absurd declared (lands s mem)

/-- A reference in an expression gets the place that its name has where the expression begins. -/
theorem lands_of_refersAt_in_expression {p : Position} {label : Label ρ} {place : Place}
    (regular : o.Regular) (there : o.label? p = some label) (expression : label.isExpression = true)
    (refers : (o.locate []).RefersAt (p ++ q) name (mark, place)) : o.Lands p name place := by
  obtain ⟨l, standing, found⟩ := refers
  obtain ⟨d, label', below, -, rfl⟩ := (label?_locate (c := .top)).1 standing
  obtain ⟨d', reached⟩ := exists_contextAt (c := .top) there
  obtain rfl := regular.contextAt_in_expression there expression reached below
  rw [Label.locate, Label.refers?_mapMarks, Option.map_eq_some_iff] at found
  obtain ⟨⟨name', mark'⟩, -, same⟩ := found
  cases same
  exact lands_place reached

/-- The entries of the distance table are those of the references that find a scope. -/
theorem mem_distances_locateAll {program : List (Stmt ρ)} {mark : ρ} {hops : Nat} :
    (mark, hops) ∈ distances (Stmt.marksAll (Stmt.locateAll [] program)) ↔
      ∃ q name, (ofProgram program).RefersAt q name mark ∧ (ofProgram program).Finds q name hops := by
  rw [mem_distances, ← marks_ofProgram, ofProgram_locate, mem_marks]
  constructor
  · rintro ⟨q, name, refers⟩
    obtain ⟨there, lands⟩ := refersAt_locate.1 refers
    exact ⟨q, name, there, lands⟩
  · rintro ⟨q, name, there, finds⟩
    exact ⟨q, name, refersAt_locate.2 ⟨there, finds⟩⟩

/-- Where each reference has a mark of its own, its entry is its distance. -/
theorem mem_distances_of_nodup {program : List (Stmt ρ)} (distinct : (Stmt.marksAll program).Nodup)
    {q : Position} {name : String} {mark : ρ} (refers : (ofProgram program).RefersAt q name mark)
    (hops : Nat) :
    (mark, hops) ∈ distances (Stmt.marksAll (Stmt.locateAll [] program)) ↔
      (ofProgram program).Finds q name hops := by
  rw [← marks_ofProgram] at distinct
  rw [mem_distances_locateAll]
  constructor
  · rintro ⟨q', name', refers', finds⟩
    obtain rfl := refers.position_unique distinct refers'
    obtain rfl := refers.name_unique refers'
    exact finds
  · intro finds
    exact ⟨q, name, refers, finds⟩

/-- **The distances of a program are those of lexical scoping.** A reference finds its name in the
innermost scope around it that has a declaration of the name beginning before the reference; its
distance is the number of scopes between the two. -/
theorem distances_lexical {program : List (Stmt ρ)} {located : List (Stmt (ρ × Place))}
    (accepted : resolve program = .ok located) :
    let o := ofProgram program
    let table := distances (Stmt.marksAll located)
    -- each reference is given the place where lexical scoping finds its name
    (∀ q name mark place, (ofProgram located).RefersAt q name (mark, place) ↔
      o.RefersAt q name mark ∧ o.Lands q name place) ∧
    -- the table has the distances of the references that find a scope, and nothing else
    (∀ mark hops, (mark, hops) ∈ table ↔
      ∃ q name, o.RefersAt q name mark ∧ o.Finds q name hops) ∧
    -- so where each reference has a mark of its own, it has an entry if a scope around it declares
    -- its name before it, and the entry is its distance
    ((Stmt.marksAll program).Nodup → ∀ q name mark, o.RefersAt q name mark →
      ((∃ hops, (mark, hops) ∈ table) ↔
        ∃ s ∈ o.scopesAround q, name ∈ o.declaredBefore s q) ∧
      ∀ hops, (mark, hops) ∈ table ↔ o.Finds q name hops) ∧
    -- a reference in an expression is given the place of its name where the whole expression begins,
    -- whatever stands beside it
    (∀ p q label name mark place, o.label? p = some label → label.isExpression = true →
      (ofProgram located).RefersAt (p ++ q) name (mark, place) → o.Lands p name place) := by
  obtain ⟨-, rfl⟩ := resolve_eq_ok.1 accepted
  refine ⟨?_, ?_, ?_, ?_⟩
  · intro q name mark place
    rw [ofProgram_locate]
    exact refersAt_locate
  · intro mark hops
    exact mem_distances_locateAll
  · intro distinct q name mark refers
    have own := mem_distances_of_nodup distinct refers
    constructor
    · rw [← refers.exists_finds]
      exact exists_congr own
    · exact own
  · intro p q label name mark place there expression refers
    rw [ofProgram_locate] at refers
    exact lands_of_refersAt_in_expression (ofProgram_regular program) there expression refers

-- between the `super` of a method and the scope of the superclass lie the method and the instance
theorem distances_lexical_super :
    let program : List (Stmt Nat) :=
      [.block [
        .classDecl ⟨"B", 1⟩ none [],
        .classDecl ⟨"A", 1⟩ (some ⟨⟨"B", 1⟩, 0⟩)
          [⟨⟨"m", 1⟩, [], [.ret 1 (some (.super 1 1 ⟨"m", 1⟩))]⟩]]]
    let super : Position := [0, 1, 1, 1, 1, 0, 0]
    ∃ located, resolve program = .ok located ∧
      distances (Stmt.marksAll located) = [(0, 0), (1, 2)] ∧
        (ofProgram program).RefersAt super superName 1 ∧
          (ofProgram program).Finds super superName 2 := by
  intro program super
  have accepted : resolve program = .ok (Stmt.locateAll [] program) := rfl
  have table : distances (Stmt.marksAll (Stmt.locateAll [] program)) = [(0, 0), (1, 2)] := rfl
  have refers : (ofProgram program).RefersAt super superName 1 := ⟨.super 1 1, rfl, rfl⟩
  have distinct : (Stmt.marksAll program).Nodup := by decide
  have entry : (1, 2) ∈ distances (Stmt.marksAll (Stmt.locateAll [] program)) := by
    rw [table]
    decide
  exact ⟨_, accepted, table, refers,
    (((distances_lexical accepted).2.2.1 distinct super superName 1 refers).2 2).1 entry⟩

end Outline

end Lox
