import Lox.Proofs.History.Openings
import Lox.Proofs.Session.Holdings

/-!
# Captured state is private

What is done next leaves alone each scope and each instance that cannot be reached from the active
scope, the globals, the scopes under way and the values at hand. The scopes that a call has opened are
under way no more when it has ended. So what comes later changes them only if a function has captured
them that could be reached where the call ended, and the call itself has made such a function
(`Holding.Arises.reaches_maker`).

It need not be that function through which they are changed: it may have handed on another one, declared
inside it, and be gone itself.
-/

namespace Lox

namespace Holding

variable {h h₁ h₂ : Holding}

/-- The number of a function or a class that has been made between the two. -/
def MadeBetween (h h₁ : Holding) (n : ObjectId) : Prop :=
  h.machine.store.nextObject ≤ n ∧ n < h₁.machine.store.nextObject

/-- The second holding is the first one after something has been done. A scope that has been opened for
that and is reached has been captured by a function that has been made for that and is reached. -/
theorem Does.reaches_maker {a : Action} {fuel : Nat} (did : h.Does a fuel h₁)
    (before : h.Within (.since h.machine.store)) {id : FrameId}
    (opened : h.machine.store.frames.size ≤ id)
    (reached : h₁.machine.store.ReachesScope h₁.Roots id) :
    ∃ v n f, h₁.Reaches (.value v) ∧ v.Carries n f ∧ h.MadeBetween h₁ n ∧
      id ∈ f.environment.path := by
  obtain ⟨-, within⟩ := before.step (.does did)
  have current : h₁.machine.current = h.machine.current := by
    rw [did.machine]
    exact a.uniform Run.current_uniform fuel h.machine
  -- the scopes at hand are older than what has been done
  have old : ∀ e, h₁.Roots (.scope e) → id ∉ e.path := by
    intro e root mem
    have lt : id < h.machine.store.frames.size := by
      simp only [Roots, current, did.scopes] at root
      rcases List.mem_cons.1 root with rfl | root
      · exact before.guards.active id mem
      · rcases List.mem_cons.1 root with rfl | root
        · exact before.guards.globals id mem
        · exact before.scopes e root id mem
    exact Nat.not_lt.2 opened lt
  obtain ⟨e, reachedScope, rfl⟩ := reached
  rcases reachedScope.of_scope with ⟨root, isRoot, suffix⟩ | ⟨f, captured, suffix⟩
  · exact absurd (suffix.subset List.mem_cons_self) (old root isRoot)
  · have mem : e.frame ∈ f.environment.path := suffix.subset List.mem_cons_self
    have none : ¬ h₁.Roots (.function f) := not_false
    obtain ⟨v, n, reachedValue, carries⟩ := captured.of_function none
    have allowed := within.reaches reachedValue
    have object : (Guard.since h.machine.store).object h₁.machine.store n f.environment := by
      cases carries with
      | function => exact allowed.2
      | method found => exact (allowed _ List.mem_cons_self _ _ found).2
    refine ⟨v, n, f, reachedValue, carries, ⟨?_, object.1⟩, mem⟩
    refine Nat.le_of_not_lt fun lt => ?_
    exact Nat.not_lt.2 opened (object.2 lt _ mem)

/-- A scope that has been opened for something that is over now stays as it is, unless a function has
captured it that has been made for the same thing and can be reached now. -/
theorem Arises.reaches_maker (arises : h.Arises) {a : Action} {fuel : Nat}
    (did : h.Does a fuel h₁) (later : h₁.Later h₂) {id : FrameId}
    (opened : h.machine.store.frames.size ≤ id) (there : id < h₁.machine.store.frames.size)
    (changed : h₂.machine.store.frame id ≠ h₁.machine.store.frame id) :
    ∃ v n f, h₁.Reaches (.value v) ∧ v.Carries n f ∧ h.MadeBetween h₁ n ∧
      id ∈ f.environment.path := by
  apply did.reaches_maker arises.within_since opened
  exact Classical.byContradiction fun unreached => changed (later.spares.scopes id there unreached)

end Holding

/-- **Captured state is private.** Whatever is evaluated or run next, on whatever machine, leaves each
scope and each instance as it is that cannot be reached from the active scope, the globals, the scopes
under way and the values at hand. In a session, the scopes that a call has opened are changed behind it
only if a function that has captured them, and that the call has made, could be reached where the call
ended. No two calls share a scope: no two bodies that are entered, and no two blocks, have one. -/
theorem captured_state_private :
    (∀ h h' : Holding, h.Step h' → h.Spares h') ∧
    (∀ h : Holding, h.Arises → ∀ callee arguments line fuel h₁,
      h.Does (.call callee arguments line) fuel h₁ → ∀ h₂, h₁.Later h₂ →
      ∀ id, h.machine.store.frames.size ≤ id → id < h₁.machine.store.frames.size →
        h₂.machine.store.frame id ≠ h₁.machine.store.frame id →
        ∃ v n f, h₁.Reaches (.value v) ∧ v.Carries n f ∧ h.MadeBetween h₁ n ∧
          id ∈ f.environment.path) ∧
    ∀ sink clock requests,
      let s := (ChronicledSession.start sink clock).after requests
      s.forget = (Session.start sink clock).after requests ∧
        (openedScopes s.chronicle.past).Nodup := by
  refine ⟨fun h h' step => step.spares, ?_, fun sink clock requests => ⟨?_, ?_⟩⟩
  · intro h arises callee arguments line fuel h₁ did h₂ later id opened there changed
    exact arises.reaches_maker did later opened there changed
  · exact ChronicledSession.after_forget _ requests
  · exact (ChronicledSession.openedScopes_falls sink clock requests).imp fun gt => Nat.ne_of_gt gt

-- each call has a counter of its own, which only the function that it gives can get to
example : ((Session.start .reliable (.ticking 0)).after [.run 30
    ("fun makeCounter() \x7b var i = 0; fun count() \x7b i = i + 1; print i; \x7d return count; \x7d" ++
      "var c1 = makeCounter(); c1(); c1(); var c2 = makeCounter(); c2();")]).machine.sink.written =
    "1\n2\n1\n" := by
  decide +kernel

/-- What code does that can reach no function that a call has made may still change the locals of that
call: the function may have been replaced by one that has been declared inside it. -/
theorem locals_changed_without_maker :
    let session := (Session.start .reliable (.ticking 0)).after [.run 30
      ("fun make() \x7b var seen = false; fun first() \x7b first = nil;" ++
        "fun second() \x7b print seen; seen = true; \x7d return second; \x7d return first; \x7d")]
    let h : Holding := ⟨session.machine, [], []⟩
    ∃ make first second h₁ h₂ h₃, h.Arises ∧ h.Does (.call make [] 1) 30 h₁ ∧
      h₁.Does (.call first [] 1) 30 h₂ ∧ h₂.Does (.call second [] 1) 30 h₃ ∧
      h.machine.store.frames.size ≤ 1 ∧ 1 < h₁.machine.store.frames.size ∧
      h₃.machine.store.frame 1 ≠ h₂.machine.store.frame 1 ∧
      ∀ v n f, h₂.Reaches (.value v) → v.Carries n f → ¬ h.MadeBetween h₁ n := by
  intro session h
  have arises : h.Arises := Holding.arises_after .reliable (.ticking 0) _
  let make := ((h.machine.store.frame 0).get? "make").getD .nil
  let h₁ := h.called 30 make
  let first := h₁.values.headD .nil
  let h₂ := h₁.called 30 first
  let second := h₂.values.headD .nil
  let h₃ := h₂.called 30 second
  have checked : ((h.machine.store.frame 0).contains "make" && !h₁.values.isEmpty &&
      !h₂.values.isEmpty && decide (h.machine.store.frames.size ≤ 1) &&
      decide (1 < h₁.machine.store.frames.size) &&
      !((h₂.machine.store.frame 1).get? "seen").any Value.isTruthy &&
      ((h₃.machine.store.frame 1).get? "seen").any Value.isTruthy &&
      h₂.HasNumbers fun n =>
        n < h.machine.store.nextObject || h₁.machine.store.nextObject ≤ n) = true := by
    decide +kernel
  simp only [Bool.and_eq_true, Bool.not_eq_true', decide_eq_true_eq] at checked
  obtain ⟨⟨⟨⟨⟨⟨⟨bound, gives⟩, gives'⟩, old⟩, new⟩, unseen⟩, seen⟩, numbers⟩ := checked
  have made := Holding.does_called 30 (Holding.reaches_global bound)
  have handed := Holding.does_called 30 (Holding.reaches_head gives)
  have ran := Holding.does_called 30 (Holding.reaches_head gives')
  refine ⟨make, first, second, h₁, h₂, h₃, arises, made, handed, ran, old, new, fun same => ?_,
    fun v n f reached carries between => ?_⟩
  · rw [same, unseen] at seen
    cases seen
  · have outside := Holding.HasNumbers.of_reaches numbers reached n carries.mem_numbers
    simp only [Bool.or_eq_true, decide_eq_true_eq] at outside
    rcases outside with lt | le
    · exact Nat.not_lt.2 between.1 lt
    · exact Nat.not_lt.2 le between.2

end Lox
