import Lox.Proofs.History.Sessions
import Lox.Proofs.History.Uniform
import Lox.Proofs.Run.Onward

/-!
# Each body and each block has a scope of its own

`Chronicle.Opens` says of a later chronicle that what has happened since has opened scopes that were
not there, one after the other: each has a greater number than those before. So no two bodies that are
entered in a session, and no two blocks, have one scope, not even of one function that is called while
another call of it is still under way.
-/

namespace Lox

/-- The scope that is opened for the body that is entered, or for the block that is reached. -/
def Happening.opened? (h : Happening) : Option FrameId :=
  if h.deed.opens then some h.machine.store.frames.size else none

/-- The scopes that have been opened for bodies and blocks, last first. -/
def openedScopes (past : List Happening) : List FrameId := past.filterMap Happening.opened?

/-- More has happened, and for what has happened new scopes have been opened. -/
structure Chronicle.Opens (w w' : Chronicle) : Prop where
  grows : w.machine.store.frames.size ≤ w'.machine.store.frames.size
  since : ∃ new, w'.past = new ++ w.past ∧ (openedScopes new).Pairwise (· > ·) ∧
    ∀ id ∈ openedScopes new,
      w.machine.store.frames.size ≤ id ∧ id < w'.machine.store.frames.size

namespace Chronicle.Opens

variable {w w' w'' : Chronicle}

/-- Nothing has happened. -/
theorem of_past (grows : w.machine.store.frames.size ≤ w'.machine.store.frames.size)
    (same : w'.past = w.past) : w.Opens w' :=
  ⟨grows, [], same, .nil, nofun⟩

theorem refl (w : Chronicle) : w.Opens w := of_past (Nat.le_refl _) rfl

theorem trans (first : w.Opens w') (second : w'.Opens w'') : w.Opens w'' := by
  obtain ⟨new, split, falls, range⟩ := first.since
  obtain ⟨new', split', falls', range'⟩ := second.since
  have parts : openedScopes (new' ++ new) = openedScopes new' ++ openedScopes new :=
    List.filterMap_append
  refine ⟨Nat.le_trans first.grows second.grows, new' ++ new, ?_, ?_, fun id mem => ?_⟩
  · rw [split', split, List.append_assoc]
  · rw [parts, List.pairwise_append]
    exact ⟨falls', falls, fun later mem' earlier mem =>
      Nat.lt_of_lt_of_le (range earlier mem).2 (range' later mem').1⟩
  · rw [parts] at mem
    rcases List.mem_append.1 mem with mem | mem
    · exact ⟨Nat.le_trans first.grows (range' id mem).1, (range' id mem).2⟩
    · exact ⟨(range id mem).1, Nat.lt_of_lt_of_le (range id mem).2 second.grows⟩

/-- A deed behind which no scope is opened. -/
theorem of_deed {deed : Deed} (other : deed.opens = false)
    (grows : w.machine.store.frames.size ≤ w'.machine.store.frames.size)
    (split : w'.past = ⟨deed, w.machine⟩ :: w.past) : w.Opens w' := by
  have none : openedScopes [⟨deed, w.machine⟩] = [] := by
    simp [openedScopes, Happening.opened?, other]
  refine ⟨grows, [⟨deed, w.machine⟩], split, ?_, ?_⟩
  · rw [none]
    exact .nil
  · rw [none]
    exact nofun

/-- A deed, with the scope that is opened behind it. -/
theorem of_opening {deed : Deed} (opens : deed.opens = true) (bound : Bindings Value)
    (store : w'.machine.store = w.machine.store.pushFrame bound)
    (split : w'.past = ⟨deed, w.machine⟩ :: w.past) : w.Opens w' := by
  have one : openedScopes [⟨deed, w.machine⟩] = [w.machine.store.frames.size] := by
    simp [openedScopes, Happening.opened?, opens]
  have size : w'.machine.store.frames.size = w.machine.store.frames.size + 1 := by
    rw [store, Store.size_pushFrame]
  refine ⟨size ▸ Nat.le_succ _, [⟨deed, w.machine⟩], split, ?_, fun id mem => ?_⟩
  · rw [one]
    exact .cons nofun .nil
  · rw [one] at mem
    rw [List.mem_singleton.1 mem, size]
    exact ⟨Nat.le_refl _, Nat.lt_succ_self _⟩

end Chronicle.Opens

namespace Chronicled

/-- What is run in a chronicled way opens new scopes only. -/
def Opens {α : Type} (t : Chronicled α) : Prop := ∀ w : Chronicle, w.Opens (Chronicle.left (t w))

theorem Opens.bind {α β : Type} {t : Chronicled α} {next : α → Chronicled β} (first : t.Opens)
    (rest : ∀ a, (next a).Opens) : Opens (t >>= next) := by
  intro w
  have before := first w
  simp only [Bind.bind, EStateM.bind]
  cases result : t w with
  | error stop w' =>
    rw [result] at before
    exact before
  | ok a w' =>
    rw [result] at before
    exact before.trans (rest a w')

theorem Opens.plain {α : Type} {act : Run α} (kept : Run.Onward Run.KeepsScopes act) :
    (Chronicled.plain act).Opens := by
  intro w
  have more := kept w.machine
  unfold Chronicled.plain
  cases result : act w.machine with
  | ok a m | error stop m =>
    rw [result] at more
    exact .of_past more rfl

theorem Opens.withEnvironment {α : Type} (e : Environment) {t : Chronicled α} (inner : t.Opens) :
    (Chronicled.withEnvironment e t).Opens := by
  intro w
  have within := inner { w with machine := { w.machine with current := e } }
  unfold Chronicled.withEnvironment
  dsimp only
  cases result : t { w with machine := { w.machine with current := e } } with
  | ok a w' | error stop w' =>
    rw [result] at within
    exact ⟨within.grows, within.since⟩

theorem opens_uniform : Chronicled.Uniform Opens where
  pure _ w := .refl w
  bind := Opens.bind
  plain composed := Opens.plain (composed Run.KeepsScopes.uniform)
  withEnvironment := Opens.withEnvironment
  note other _ := .of_deed other (Nat.le_refl _) rfl
  enters f arguments next rest w := by
    let deed : Deed := .enters f arguments
    let bound := Run.parameters f.declaration.params arguments
    let opened : Chronicle :=
      ⟨{ w.machine with store := w.machine.store.pushFrame bound }, ⟨deed, w.machine⟩ :: w.past⟩
    have first : w.Opens opened := .of_opening rfl bound rfl rfl
    exact first.trans (rest ⟨w.machine.store.frames.size, f.environment.path⟩ opened)
  block body next rest w := by
    let deed : Deed := .reaches (.statement (.block body))
    let opened : Chronicle :=
      ⟨{ w.machine with store := w.machine.store.pushFrame Bindings.empty },
        ⟨deed, w.machine⟩ :: w.past⟩
    have first : w.Opens opened := .of_opening rfl Bindings.empty rfl rfl
    exact first.trans (rest ⟨w.machine.store.frames.size, w.machine.current.path⟩ opened)
  newInstance _ _ := .of_deed rfl (Nat.le_refl _) rfl
  bindMethod method i w := by
    apply Chronicle.Opens.of_deed rfl _ rfl
    exact Nat.le_of_lt (Nat.lt_of_lt_of_eq (Nat.lt_succ_self _) (Store.size_pushFrame _ _).symm)
  setField _ _ _ _ := .of_deed rfl (Nat.le_refl _) rfl
  newClass _ _ _ _ := .of_deed rfl (Nat.le_refl _) rfl

theorem Opens.interpret (fuel : Nat) (ss : List (Stmt Place)) : (interpret fuel ss).Opens := by
  intro w
  have ran := opens_uniform.program (opens_uniform.chronicler fuel) ss w
  rcases left_interpret fuel ss w with same | flushed
  · rw [same]
    exact ran
  · rw [flushed]
    exact ran.trans (Opens.plain Run.KeepsScopes.uniform.flush _)

end Chronicled

namespace ChronicledSession

theorem perform_opens {α : Type} (s : ChronicledSession) {t : Chronicled α} (opens : t.Opens) :
    s.chronicle.Opens (s.perform t).2.chronicle := by
  have result := opens s.chronicle
  unfold perform
  cases ended : t s.chronicle with
  | ok a w | error stop w =>
    rw [ended] at result
    exact result

theorem serve_opens (s : ChronicledSession) (r : Request) :
    s.chronicle.Opens (s.serve r).2.chronicle := by
  cases r with
  | run fuel source =>
    simp only [serve]
    cases checkProgram (readProgram source s.nextRef) with
    | error reports => exact .refl _
    | ok statements =>
      exact perform_opens { s with nextRef := (readProgram source s.nextRef).nextRef }
        (.interpret fuel _)
  | evaluate fuel source =>
    simp only [serve]
    cases checkExpression (readExpression source s.nextRef) with
    | error reports => exact .refl _
    | ok e =>
      exact perform_opens { s with nextRef := (readExpression source s.nextRef).nextRef }
        ((Chronicled.opens_uniform.chronicler fuel).eval _)
  | check source => exact .refl _
  | takeOutput | setClock clock => exact .of_past (Nat.le_refl _) rfl

theorem after_opens (s : ChronicledSession) (requests : List Request) :
    s.chronicle.Opens (s.after requests).chronicle := by
  induction requests generalizing s with
  | nil => exact .refl _
  | cons r rest ih => exact (s.serve_opens r).trans (ih (s.serve r).2)

/-- **No two bodies and no two blocks of a session have one scope.** Later ones have a greater
number. -/
theorem openedScopes_falls (sink : Sink) (clock : Clock) (requests : List Request) :
    (openedScopes ((start sink clock).after requests).chronicle.past).Pairwise (· > ·) := by
  obtain ⟨new, split, falls, -⟩ := ((start sink clock).after_opens requests).since
  rw [split, show (start sink clock).chronicle.past = [] from rfl, List.append_nil]
  exact falls

end ChronicledSession

end Lox
