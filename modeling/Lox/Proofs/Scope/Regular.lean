import Lox.Proofs.Scope.Scoped

/-!
# Contexts that resolution reaches

The scopes around a point of a program are not arbitrary: an unfinished variable is one of the
innermost scope, the scope that holds a superclass lies directly outside of one that holds an
instance, and what the context says of the class around the point stands in some scope. `Regular`
says so, and `Settled` adds that no variable is unfinished, as it is wherever a statement stands.
-/

namespace Lox

/-! ## The scopes of parameters -/

/-- The scope of a function's parameters. -/
def paramScope (params : List Name) : Bindings Bool :=
  params.foldl (fun scope p => scope.insert p.text true) Bindings.empty

theorem Scopes.enterFunction_eq (scopes : Scopes) (params : List Name) :
    scopes.enterFunction params = paramScope params :: scopes := by
  have fold (scope : Bindings Bool) :
      params.foldl (fun s p => Scopes.define s p.text) (scope :: scopes) =
        params.foldl (fun scope p => scope.insert p.text true) scope :: scopes := by
    induction params generalizing scope with
    | nil => rfl
    | cons p ps ih => exact ih (scope.insert p.text true)
  exact fold Bindings.empty

theorem get?_paramScope (params : List Name) (name : String) :
    (paramScope params).get? name = if name ∈ params.map Name.text then some true else none := by
  have fold (scope : Bindings Bool) :
      (params.foldl (fun scope p => scope.insert p.text true) scope).get? name =
        if name ∈ params.map Name.text then some true else scope.get? name := by
    induction params generalizing scope with
    | nil => simp
    | cons p ps ih =>
      rw [List.foldl_cons, ih, Bindings.get?_insert]
      by_cases later : name ∈ ps.map Name.text <;> by_cases here : name = p.text <;>
        simp [later, here]
  exact fold Bindings.empty

/-! ## Regular contexts -/

/-- The scopes are such as a program can have around a point of it. -/
structure Context.Regular (c : Context) : Prop where
  outer : ∀ scope ∈ c.scopes.tail, ∀ name, scope.get? name ≠ some false
  unfinished : ∀ name, c.scopes.isUnfinished name = true → IsVariable name
  innermost : ∀ scope ∈ c.scopes.head?, scope.contains superName = false
  superOutside : ∀ (h : Nat) (inner outer : Bindings Bool), c.scopes[h]? = some inner →
    c.scopes[h + 1]? = some outer → outer.contains superName = true →
    inner.contains thisName = true
  thisBound : c.classContext ≠ .outside → ∃ scope ∈ c.scopes, scope.contains thisName = true
  superBound : c.classContext = .derived → ∃ scope ∈ c.scopes, scope.contains superName = true

/-- No variable is unfinished. -/
structure Context.Settled (c : Context) : Prop where
  regular : c.Regular
  finished : ∀ name, c.scopes.isUnfinished name = false

namespace Context

variable {c d : Context}

/-- No scope of a settled context has an unfinished variable. -/
theorem Settled.all_finished (h : c.Settled) :
    ∀ scope ∈ c.scopes, ∀ name, scope.get? name ≠ some false := by
  intro scope mem name unfinished
  cases hs : c.scopes with
  | nil => simp [hs] at mem
  | cons inner rest =>
    rw [hs] at mem
    rcases List.mem_cons.1 mem with rfl | mem
    · have finished := h.finished name
      simp [Scopes.isUnfinished, hs, unfinished] at finished
    · exact h.regular.outer scope (by simpa [hs] using mem) name unfinished

theorem settled_top : Context.top.Settled :=
  ⟨⟨by simp [Context.top], by simp [Context.top, Scopes.isUnfinished], by simp [Context.top],
    by simp [Context.top], by simp [Context.top], by simp [Context.top]⟩,
    by simp [Context.top, Scopes.isUnfinished]⟩

/-- One more scope without a superclass and without unfinished variables. -/
theorem Settled.push (h : c.Settled) {scope : Bindings Bool} (scopes : d.scopes = scope :: c.scopes)
    (same : d.classContext = c.classContext) (finished : ∀ name, scope.get? name ≠ some false)
    (noSuper : scope.contains superName = false) : d.Settled := by
  have done : ∀ name, d.scopes.isUnfinished name = false := by
    intro name
    simpa [Scopes.isUnfinished, scopes] using finished name
  refine ⟨⟨?_, fun name unfinished => ?_, ?_, ?_, fun inside => ?_, fun derived => ?_⟩, done⟩
  · rw [scopes]
    exact h.all_finished
  · rw [done name] at unfinished
    cases unfinished
  · simpa [scopes] using noSuper
  · intro k inner outer hi ho
    rw [scopes] at hi ho
    cases k with
    | zero =>
      simp only [List.getElem?_cons_zero, List.getElem?_cons_succ, Option.some.injEq] at hi ho
      have without := h.regular.innermost outer (by rw [List.head?_eq_getElem?]; exact ho)
      simp [without]
    | succ k => exact h.regular.superOutside k inner outer hi ho
  · obtain ⟨s, mem, bound⟩ := h.regular.thisBound (same ▸ inside)
    exact ⟨s, by simp [scopes, mem], bound⟩
  · obtain ⟨s, mem, bound⟩ := h.regular.superBound (same ▸ derived)
    exact ⟨s, by simp [scopes, mem], bound⟩

theorem Settled.enter (h : c.Settled) : (c.within c.scopes.enter).Settled :=
  h.push rfl rfl (by simp) (by simp [Bindings.contains])

/-- Inside a function the parameters are variables of one more scope. -/
theorem Settled.enterFunction (h : c.Settled) {params : List Name}
    (named : ∀ p ∈ params, IsVariable p.text) (scopes : d.scopes = c.scopes.enterFunction params)
    (same : d.classContext = c.classContext) : d.Settled := by
  refine h.push (scopes.trans (Scopes.enterFunction_eq _ _)) same (fun name => ?_) ?_
  · rw [get?_paramScope]
    split <;> simp
  · rw [Bindings.contains, get?_paramScope]
    have notParam : superName ∉ params.map Name.text := by
      intro mem
      obtain ⟨p, hp, eq⟩ := List.mem_map.1 mem
      exact (named p hp).2 eq
    simp [notParam]

theorem Settled.inClass {ρ : Type} (h : c.Settled) (superclass : Option (Reference ρ)) :
    (c.inClass superclass).Settled := by
  have withThis : ∀ name, (Bindings.empty.insert thisName true).get? name ≠ some false := by
    intro name
    rw [Bindings.get?_insert]
    split <;> simp
  have withSuper : ∀ name, (Bindings.empty.insert superName true).get? name ≠ some false := by
    intro name
    rw [Bindings.get?_insert]
    split <;> simp
  have thisOnly : (Bindings.empty.insert thisName true).contains superName = false := by
    rw [Bindings.contains, Bindings.get?_insert_of_ne _ (by decide)]
    rfl
  have thisHere : (Bindings.empty.insert thisName true).contains thisName = true := by
    simp [Bindings.contains_insert]
  have superHere : (Bindings.empty.insert superName true).contains superName = true := by
    simp [Bindings.contains_insert]
  cases superclass with
  | none =>
    have inner : (c.within (c.scopes.enterWith thisName)).Settled :=
      h.push rfl rfl withThis thisOnly
    exact ⟨⟨inner.regular.outer, inner.regular.unfinished, inner.regular.innermost,
      inner.regular.superOutside, fun _ => ⟨_, List.mem_cons_self, thisHere⟩,
      fun derived => by simp [Context.inClass] at derived⟩, inner.finished⟩
  | some r =>
    -- the scope of the superclass alone is not regular, so both scopes are added at once
    have done : ∀ name, (c.inClass (some r)).scopes.isUnfinished name = false := by
      intro name
      simpa [Context.inClass, Scopes.enterClass, Scopes.enterWith, Scopes.enter, Scopes.define,
        Scopes.isUnfinished] using withThis name
    refine ⟨⟨?_, fun name unfinished => ?_, ?_, ?_, ?_, ?_⟩, done⟩
    · intro scope mem name
      rcases List.mem_cons.1 mem with rfl | mem
      · exact withSuper name
      · exact h.all_finished scope mem name
    · rw [done name] at unfinished
      cases unfinished
    · intro scope mem
      cases mem
      exact thisOnly
    · intro k inner outer hi ho bound
      rcases k with _ | _ | k
      · cases hi
        exact thisHere
      · cases hi
        have without := h.regular.innermost outer (by rw [List.head?_eq_getElem?]; exact ho)
        rw [without] at bound
        cases bound
      · exact h.regular.superOutside k inner outer hi ho bound
    · exact fun _ => ⟨_, List.mem_cons_self, thisHere⟩
    · exact fun _ => ⟨_, List.mem_cons_of_mem _ List.mem_cons_self, superHere⟩

/-- A change of the innermost scope that concerns a variable only. -/
theorem Regular.setInnermost (h : c.Settled) {name : String} (named : IsVariable name) (b : Bool)
    {scope : Bindings Bool} {rest : Scopes} (scopes : c.scopes = scope :: rest) :
    (c.within (scope.insert name b :: rest)).Regular := by
  have kept : ∀ other, other = thisName ∨ other = superName →
      (scope.insert name b).contains other = scope.contains other := by
    intro other special
    have ne : other ≠ name := by
      rcases special with rfl | rfl
      · exact named.1.symm
      · exact named.2.symm
    simp [Bindings.contains_insert, ne]
  refine ⟨?_, fun other unfinished => ?_, ?_, ?_, fun inside => ?_, fun derived => ?_⟩
  · intro s mem
    exact h.regular.outer s (by simpa [scopes] using mem)
  · by_cases same : other = name
    · exact same ▸ named
    · have finished := h.finished other
      simp only [Scopes.isUnfinished, within_scopes, scopes, Bindings.get?_insert, same, if_false]
        at unfinished finished
      rw [finished] at unfinished
      cases unfinished
  · intro s mem
    cases mem
    rw [kept superName (.inr rfl)]
    exact h.regular.innermost scope (by simp [scopes])
  · intro k inner outer hi ho bound
    cases k with
    | zero =>
      cases hi
      rw [kept thisName (.inl rfl)]
      exact h.regular.superOutside 0 scope outer (by simp [scopes]) (by simpa [scopes] using ho)
        bound
    | succ k =>
      exact h.regular.superOutside (k + 1) inner outer (by simpa [scopes] using hi)
        (by simpa [scopes] using ho) bound
  · obtain ⟨s, mem, bound⟩ := h.regular.thisBound inside
    rw [scopes] at mem
    rcases List.mem_cons.1 mem with rfl | mem
    · exact ⟨_, List.mem_cons_self, (kept thisName (.inl rfl)).trans bound⟩
    · exact ⟨s, List.mem_cons_of_mem _ mem, bound⟩
  · obtain ⟨s, mem, bound⟩ := h.regular.superBound derived
    rw [scopes] at mem
    rcases List.mem_cons.1 mem with rfl | mem
    · exact ⟨_, List.mem_cons_self, (kept superName (.inr rfl)).trans bound⟩
    · exact ⟨s, List.mem_cons_of_mem _ mem, bound⟩

theorem Settled.define (h : c.Settled) {name : String} (named : IsVariable name) :
    (c.within (c.scopes.define name)).Settled := by
  cases hs : c.scopes with
  | nil => simpa [Scopes.define, ← hs] using h
  | cons scope rest =>
    refine ⟨Regular.setInnermost h named true hs, fun other => ?_⟩
    have finished := h.finished other
    simp only [Scopes.isUnfinished, hs] at finished
    simp only [Scopes.define, within_scopes, Scopes.isUnfinished, Bindings.get?_insert]
    split
    · rfl
    · exact finished

theorem Settled.declare (h : c.Settled) {name : String} (named : IsVariable name) :
    (c.within (c.scopes.declare name)).Regular := by
  cases hs : c.scopes with
  | nil => simpa [Scopes.declare, ← hs] using h.regular
  | cons scope rest =>
    simp only [Scopes.declare]
    split
    · simpa [← hs] using h.regular
    · exact Regular.setInnermost h named false hs

/-- Behind a well-scoped statement no variable is unfinished. -/
theorem Settled.after (h : c.Settled) :
    ∀ {s : Stmt Place}, s.Scoped c → (c.within (s.scopesAfter c.scopes)).Settled
  | .declare _ _, sc => h.define sc.1
  | .function ⟨_, _, _⟩, sc => h.define sc.1
  | .classDecl _ _ _, sc => h.define sc.1
  | .expression _, _ | .print _, _ | .block _, _ | .ret _ _, _ => h
  | .conditional c t none, sc => by rwa [sc.scopesAfter rfl]
  | .conditional c t (some e), sc => by rwa [sc.scopesAfter rfl]
  | .loop c b, sc => by rwa [sc.scopesAfter rfl]

end Context

/-! ## Where references find their variables -/

/-- The place of a reference is the innermost scope that declares its name. -/
theorem Scopes.place_scope {scopes : Scopes} {name : String} {hops : Nat}
    (h : scopes.place name = .scope hops) :
    ∃ scope, scopes[hops]? = some scope ∧ scope.contains name = true ∧
      ∀ k < hops, ∀ inner, scopes[k]? = some inner → inner.contains name = false := by
  unfold Scopes.place at h
  split at h
  · next k found =>
    cases h
    obtain ⟨lt, here, before⟩ := List.findIdx?_eq_some_iff_getElem.1 found
    refine ⟨scopes[hops], List.getElem?_eq_getElem lt, here, fun k hk inner hi => ?_⟩
    obtain ⟨lt', rfl⟩ := List.getElem?_eq_some_iff.1 hi
    simpa using before k hk
  · cases h

/-- A name that some scope declares is not looked up among the globals. -/
theorem Scopes.place_of_mem {scopes : Scopes} {name : String} {scope : Bindings Bool}
    (mem : scope ∈ scopes) (bound : scope.contains name = true) :
    ∃ hops, scopes.place name = .scope hops := by
  unfold Scopes.place
  split
  · exact ⟨_, rfl⟩
  · next none =>
    have := List.findIdx?_eq_none_iff.1 none scope mem
    simp [bound] at this

/-- A scope holds each of its names ready to be read, save the unfinished ones. -/
theorem Context.Regular.ready_at {c : Context} (h : c.Regular) {name : String} {k : Nat}
    {scope : Bindings Bool} (found : c.scopes[k]? = some scope)
    (bound : scope.contains name = true) (finished : c.scopes.isUnfinished name = false) :
    scope.get? name = some true := by
  obtain ⟨b, hb⟩ := Option.isSome_iff_exists.1 bound
  cases b with
  | true => exact hb
  | false =>
    cases hs : c.scopes with
    | nil => simp [hs] at found
    | cons inner rest =>
      cases k with
      | zero =>
        simp only [hs, List.getElem?_cons_zero, Option.some.injEq] at found
        simp [Scopes.isUnfinished, hs, found, hb] at finished
      | succ k =>
        rw [hs, List.getElem?_cons_succ] at found
        have mem : scope ∈ c.scopes.tail := by
          rw [hs]
          exact List.mem_of_getElem? found
        exact absurd hb (h.outer scope mem name)

/-- A variable that is not unfinished is ready to be read where its reference finds it. -/
theorem Context.Regular.ready {c : Context} (h : c.Regular) {name : String} {hops : Nat}
    (place : c.scopes.place name = .scope hops) (finished : c.scopes.isUnfinished name = false) :
    ∃ scope, c.scopes[hops]? = some scope ∧ scope.get? name = some true := by
  obtain ⟨scope, found, bound, -⟩ := Scopes.place_scope place
  exact ⟨scope, found, h.ready_at found bound finished⟩

/-- The instance and the superclass of a method are never unfinished. -/
theorem Context.Regular.special_finished {c : Context} (h : c.Regular) {name : String}
    (special : ¬ IsVariable name) : c.scopes.isUnfinished name = false := by
  cases unfinished : c.scopes.isUnfinished name with
  | false => rfl
  | true => exact absurd (h.unfinished name unfinished) special

/-- An unfinished variable is one of the innermost scope. -/
theorem Scopes.place_unfinished {scopes : Scopes} {name : String}
    (unfinished : scopes.isUnfinished name = true) : scopes.place name = .scope 0 := by
  cases scopes with
  | nil => simp [isUnfinished] at unfinished
  | cons scope rest =>
    have bound : scope.contains name = true := by
      have some_false : scope.get? name = some false := by simpa [isUnfinished] using unfinished
      simp [Bindings.contains, some_false]
    simp [place, List.findIdx?_cons, bound]

end Lox
