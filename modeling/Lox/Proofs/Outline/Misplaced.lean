import Lox.Proofs.Outline.Violations
import Lox.Proofs.Scope.Checks
import Mathlib.Data.List.Nodup

/-!
# Violations are what is misplaced

What is wrong with a node in the context that the walk has there is what its position in the program
violates. The walk visits each node once, so resolution reports each violation once.
-/

namespace Lox

variable {ρ : Type}

/-! ## What the context says is wrong -/

theorem mem_violationIf {condition : Bool} {cause : ScopeCause} {line : Nat} {v : Violation} :
    v ∈ violationIf condition cause line ↔ condition = true ∧ v = ⟨cause, line⟩ := by
  cases condition <;> simp [violationIf]

theorem violationIf_nodup (condition : Bool) (cause : ScopeCause) (line : Nat) :
    (violationIf condition cause line).Nodup := by
  cases condition <;> simp [violationIf]

/-- Two violations with different causes are two. -/
theorem violationIf_append_nodup {condition condition' : Bool} {cause cause' : ScopeCause}
    {line line' : Nat} (ne : cause ≠ cause') :
    (violationIf condition cause line ++ violationIf condition' cause' line').Nodup := by
  rw [List.nodup_append]
  refine ⟨violationIf_nodup _ _ _, violationIf_nodup _ _ _, ?_⟩
  intro v mem w mem' same
  obtain ⟨-, rfl⟩ := mem_violationIf.1 mem
  obtain ⟨-, rfl⟩ := mem_violationIf.1 mem'
  exact ne (congrArg Violation.cause same)

/-- Nothing is wrong with a node twice. -/
theorem Label.violations_nodup (label : Label ρ) (c : Context) : (label.violations c).Nodup := by
  cases label with
  | read | this => exact violationIf_nodup _ _ _
  | super | ret => exact violationIf_append_nodup (by simp)
  | «variable» | function | parameter => exact violationIf_nodup _ _ _
  | classDecl name superclass =>
    cases superclass with
    | none => exact violationIf_nodup _ _ _
    | some superclass => exact violationIf_append_nodup (by simp)
  | operation | store | statement | inherits | scope | body | implicit => exact .nil

namespace Outline

variable {o : Outline ρ} {label : Label ρ} {c : Context} {q : Position} {v : Violation}

/-! ## What the position says is wrong -/

theorem function_eq_outside (reached : o.contextAt .top q = some c) :
    c.function = .outside ↔ o.functionAround q = none := by
  rw [function_contextAt reached]
  cases o.functionAround q with
  | none => simp [Context.top]
  | some isInitializer => cases isInitializer <;> simp [FunctionContext.ofBody]

theorem function_eq_initializer (reached : o.contextAt .top q = some c) :
    c.function = .initializer ↔ o.functionAround q = some true := by
  rw [function_contextAt reached]
  cases o.functionAround q with
  | none => simp [Context.top]
  | some isInitializer => cases isInitializer <;> simp [FunctionContext.ofBody]

theorem classContext_eq_outside (reached : o.contextAt .top q = some c) :
    c.classContext = .outside ↔ o.classAround q = none := by
  rw [classContext_contextAt reached]
  cases o.classAround q with
  | none => simp [Context.top]
  | some superclass => cases superclass <;> simp [ClassContext.ofSuperclass]

theorem classContext_eq_base (reached : o.contextAt .top q = some c) :
    c.classContext = .base ↔ o.classAround q = some none := by
  rw [classContext_contextAt reached]
  cases o.classAround q with
  | none => simp [Context.top]
  | some superclass => cases superclass <;> simp [ClassContext.ofSuperclass]

theorem mem_redeclaration {name : Name} (reached : o.contextAt .top q = some c) :
    v ∈ redeclaration c.scopes name ↔
      (∃ s, (o.scopesAround q).head? = some s ∧ name.text ∈ o.declaredBefore s q) ∧
        v = ⟨.redeclared name.text, name.line⟩ := by
  rw [redeclaration, mem_violationIf, isDeclared_of_program reached]

theorem violates_of_mem (regular : o.Regular) (reached : o.contextAt .top q = some c)
    (there : o.label? q = some label) (mem : v ∈ label.violations c) : o.Violates q v := by
  cases label with
  | read target =>
    obtain ⟨unfinished, rfl⟩ := mem_violationIf.1 mem
    obtain ⟨p, name, s, around, same, nearest, new⟩ :=
      (regular.isUnfinished_of_program reached).1 unfinished
    exact .readInInitializer there around same nearest (same ▸ new)
  | this line mark =>
    obtain ⟨outside, rfl⟩ := mem_violationIf.1 mem
    exact .thisOutside there ((classContext_eq_outside reached).1 (by simpa using outside))
  | super line mark =>
    rcases List.mem_append.1 mem with mem | mem
    · obtain ⟨outside, rfl⟩ := mem_violationIf.1 mem
      exact .superOutside there ((classContext_eq_outside reached).1 (by simpa using outside))
    · obtain ⟨base, rfl⟩ := mem_violationIf.1 mem
      exact .superWithoutSuperclass there ((classContext_eq_base reached).1 (by simpa using base))
  | ret line hasValue =>
    rcases List.mem_append.1 mem with mem | mem
    · obtain ⟨outside, rfl⟩ := mem_violationIf.1 mem
      exact .returnOutside there ((function_eq_outside reached).1 (by simpa using outside))
    · obtain ⟨both, rfl⟩ := mem_violationIf.1 mem
      obtain ⟨rfl, initializer⟩ := Bool.and_eq_true_iff.1 both
      exact .returnFromInitializer there
        ((function_eq_initializer reached).1 (by simpa using initializer))
  | «variable» name | function name | parameter name =>
    obtain ⟨⟨s, nearest, declared⟩, rfl⟩ := (mem_redeclaration reached).1 mem
    exact .redeclared there rfl nearest declared
  | classDecl name superclass =>
    cases superclass with
    | none =>
      obtain ⟨⟨s, nearest, declared⟩, rfl⟩ := (mem_redeclaration reached).1 mem
      exact .redeclared there rfl nearest declared
    | some superclass =>
      rcases List.mem_append.1 mem with mem | mem
      · obtain ⟨⟨s, nearest, declared⟩, rfl⟩ := (mem_redeclaration reached).1 mem
        exact .redeclared there rfl nearest declared
      · obtain ⟨same, rfl⟩ := mem_violationIf.1 mem
        exact .inheritsItself there (by simpa using same)
  | operation | store | statement | inherits | scope | body | implicit => cases mem

/-- A declaration of a name that is there already is wrong. -/
theorem mem_violations_of_declared {name : Name} (declared : label.declared? = some name)
    (mem : v ∈ redeclaration c.scopes name) : v ∈ label.violations c := by
  cases label with
  | «variable» | function | parameter =>
    cases declared
    exact mem
  | classDecl name superclass =>
    cases declared
    cases superclass with
    | none => exact mem
    | some superclass => exact List.mem_append_left _ mem
  | operation | read | store | this | super | statement | ret | inherits | scope | body
  | implicit => cases declared

theorem mem_of_violates (regular : o.Regular) (reached : o.contextAt .top q = some c)
    (there : o.label? q = some label) (violates : o.Violates q v) : v ∈ label.violations c := by
  cases violates with
  | redeclared here declared nearest before =>
    obtain rfl := Option.some.inj (there.symm.trans here)
    exact mem_violations_of_declared declared
      ((mem_redeclaration reached).2 ⟨⟨_, nearest, before⟩, rfl⟩)
  | readInInitializer here around same nearest new =>
    obtain rfl := Option.some.inj (there.symm.trans here)
    have unfinished := (regular.isUnfinished_of_program reached).2
      ⟨_, _, _, around, same, nearest, same ▸ new⟩
    exact mem_violationIf.2 ⟨unfinished, rfl⟩
  | returnOutside here outside =>
    obtain rfl := Option.some.inj (there.symm.trans here)
    have context := (function_eq_outside reached).2 outside
    exact List.mem_append_left _ (mem_violationIf.2 ⟨by simp [context], rfl⟩)
  | returnFromInitializer here initializer =>
    obtain rfl := Option.some.inj (there.symm.trans here)
    have context := (function_eq_initializer reached).2 initializer
    exact List.mem_append_right _ (mem_violationIf.2 ⟨by simp [context], rfl⟩)
  | thisOutside here outside =>
    obtain rfl := Option.some.inj (there.symm.trans here)
    have context := (classContext_eq_outside reached).2 outside
    exact mem_violationIf.2 ⟨by simp [context], rfl⟩
  | superOutside here outside =>
    obtain rfl := Option.some.inj (there.symm.trans here)
    have context := (classContext_eq_outside reached).2 outside
    exact List.mem_append_left _ (mem_violationIf.2 ⟨by simp [context], rfl⟩)
  | superWithoutSuperclass here base =>
    obtain rfl := Option.some.inj (there.symm.trans here)
    have context := (classContext_eq_base reached).2 base
    exact List.mem_append_right _ (mem_violationIf.2 ⟨by simp [context], rfl⟩)
  | inheritsItself here same =>
    obtain rfl := Option.some.inj (there.symm.trans here)
    exact List.mem_append_right _ (mem_violationIf.2 ⟨by simp [same], rfl⟩)

/-- What is violated is violated at a node. -/
theorem Violates.label? (violates : o.Violates q v) : ∃ label, o.label? q = some label := by
  cases violates with
  | redeclared here | readInInitializer here | returnOutside here | returnFromInitializer here
  | thisOutside here | superOutside here | superWithoutSuperclass here | inheritsItself here =>
    exact ⟨_, here⟩

/-- What the walk finds wrong in a program, with the positions. -/
def sites (o : Outline ρ) : List (Position × Violation) :=
  (o.visits .top).flatMap fun visit =>
    (visit.label.violations visit.context).map (visit.position, ·)

theorem sites_map_snd (o : Outline ρ) : o.sites.map Prod.snd = o.violations .top := by
  rw [violations_eq_visits, sites, List.map_flatMap]
  congr 1
  funext visit
  rw [List.map_map]
  exact List.map_id _

theorem mem_sites (regular : o.Regular) : (q, v) ∈ o.sites ↔ o.Violates q v := by
  rw [sites, List.mem_flatMap]
  constructor
  · rintro ⟨⟨p, c, label⟩, visited, mem⟩
    obtain ⟨w, wrong, same⟩ := List.mem_map.1 mem
    cases same
    obtain ⟨reached, there⟩ := (mem_visits o .top).1 visited
    exact violates_of_mem regular reached there wrong
  · intro violates
    obtain ⟨label, there⟩ := violates.label?
    obtain ⟨c, reached⟩ := exists_contextAt (c := .top) there
    have wrong := mem_of_violates regular reached there violates
    exact ⟨⟨q, c, label⟩, (mem_visits o .top).2 ⟨reached, there⟩, List.mem_map.2 ⟨v, wrong, rfl⟩⟩

theorem sites_nodup (o : Outline ρ) : o.sites.Nodup := by
  rw [sites, List.nodup_flatMap]
  constructor
  · intro visit _
    exact (visit.label.violations_nodup visit.context).map fun _ _ same => congrArg Prod.snd same
  · -- what two visits find has two positions
    apply (visits_ordered o .top).imp
    intro visit later before (p, v) mem mem'
    obtain ⟨_, -, same⟩ := List.mem_map.1 mem
    obtain ⟨_, -, same'⟩ := List.mem_map.1 mem'
    have one : visit.position = later.position :=
      (congrArg Prod.fst same).trans (congrArg Prod.fst same').symm
    rw [one] at before
    exact List.lt_irrefl _ before

/-- The violations that resolution lists are those that the walk finds. -/
theorem violationsAll_perm_sites (program : List (Stmt ρ)) :
    (Stmt.violationsAll .top program).Perm ((ofProgram program).sites.map Prod.snd) := by
  rw [sites_map_snd, ofProgram, violations_statement]
  exact Stmt.violationsAll_outline program .top

/-- **Resolution reports exactly what is misplaced**: it fails if anything violates a rule of scoping,
and then it reports each violation once, with the line of what stands there. -/
theorem violations_reported (program : List (Stmt ρ)) :
    ((∃ violations, resolve program = .error violations) ↔
      ∃ q v, (ofProgram program).Violates q v) ∧
    ∃ sites : List (Position × Violation),
      sites.Nodup ∧ (∀ q v, (q, v) ∈ sites ↔ (ofProgram program).Violates q v) ∧
        ∀ violations, resolve program = .error violations →
          violations.Perm (sites.map Prod.snd) := by
  have complete : ∀ q v, (q, v) ∈ (ofProgram program).sites ↔ (ofProgram program).Violates q v :=
    fun q v => mem_sites (ofProgram_regular program)
  have listed := violationsAll_perm_sites program
  constructor
  · constructor
    · rintro ⟨violations, failed⟩
      obtain ⟨rfl, nonempty⟩ := resolve_eq_error.1 failed
      obtain ⟨v, mem⟩ := List.exists_mem_of_ne_nil _ nonempty
      obtain ⟨⟨q, w⟩, site, -⟩ := List.mem_map.1 (listed.mem_iff.1 mem)
      exact ⟨q, w, (complete q w).1 site⟩
    · rintro ⟨q, v, violates⟩
      have mem : v ∈ (ofProgram program).sites.map Prod.snd :=
        List.mem_map.2 ⟨(q, v), (complete q v).2 violates, rfl⟩
      have nonempty := List.ne_nil_of_mem (listed.mem_iff.2 mem)
      exact ⟨_, resolve_eq_error.2 ⟨rfl, nonempty⟩⟩
  · refine ⟨(ofProgram program).sites, sites_nodup _, complete, ?_⟩
    intro violations failed
    obtain ⟨rfl, -⟩ := resolve_eq_error.1 failed
    exact listed

end Outline

end Lox
