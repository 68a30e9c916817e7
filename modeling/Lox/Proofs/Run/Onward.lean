import Lox.Proofs.Run.Preserved
import Lox.Proofs.Store.Frames

/-!
# What a run only adds to

`Onward after` says of a part of a run that the machine it leaves comes `after` the one it began on,
however it ends. Two such orders hold of all that is evaluated or run: the text that has been
printed is only added to, and so are the scopes.
-/

namespace Lox.Run

variable {α β : Type} {after : Machine → Machine → Prop}

/-- However the part of a run ends, the machine that it leaves comes after the one it began on. -/
def Onward (after : Machine → Machine → Prop) (act : Run α) : Prop := ∀ m, after m (left (act m))

namespace Onward

/-- What comes after a machine if it differs in nothing that counts. -/
theorem of_preserves {γ : Type} {f : Machine → γ} {act : Run α} (same : Preserves f act)
    (imp : ∀ m m', f m' = f m → after m m') : Onward after act :=
  fun m => imp _ _ (same m)

theorem bind (trans : ∀ m₁ m₂ m₃, after m₁ m₂ → after m₂ m₃ → after m₁ m₃) {act : Run α}
    {next : α → Run β} (first : Onward after act) (rest : ∀ a, Onward after (next a)) :
    Onward after (act >>= next) := by
  intro m
  have before := first m
  simp only [Bind.bind, EStateM.bind]
  cases result : act m with
  | error stop m' =>
    rw [result] at before
    exact before
  | ok a m' =>
    rw [result] at before
    exact trans _ _ _ before (rest a m')

theorem withEnvironment
    (anyScope : ∀ m m' e e', after { m with current := e } m' → after m { m' with current := e' })
    (e : Environment) {act : Run α} (inner : Onward after act) :
    Onward after (Run.withEnvironment e act) := by
  intro m
  have within := inner { m with current := e }
  unfold Run.withEnvironment
  dsimp only
  cases result : act { m with current := e } with
  | ok a m' =>
    rw [result] at within
    exact anyScope _ _ _ _ within
  | error stop m' =>
    rw [result] at within
    exact anyScope _ _ _ _ within

end Onward

/-! ## Printed text -/

/-- The other machine has printed at least as much. -/
def PrintsOn (m m' : Machine) : Prop := ∃ output, m'.sink.written = m.sink.written ++ output

namespace PrintsOn

theorem of_eq (m m' : Machine) (same : m'.sink.written = m.sink.written) : PrintsOn m m' :=
  ⟨"", same.trans String.append_empty.symm⟩

theorem trans (m₁ m₂ m₃ : Machine) (first : PrintsOn m₁ m₂) (second : PrintsOn m₂ m₃) :
    PrintsOn m₁ m₃ := by
  obtain ⟨output, printed⟩ := first
  obtain ⟨more, printed'⟩ := second
  exact ⟨output ++ more, by rw [printed', printed, String.append_assoc]⟩

theorem write (text : String) : Onward PrintsOn (Run.write text) := by
  intro m
  unfold Run.write
  cases m.sink.refusal .write m.sink.requests with
  | none => exact ⟨text, rfl⟩
  | some message => exact of_eq _ _ rfl

/-- Nothing that runs takes back what has been printed. -/
theorem uniform : Uniform (Onward PrintsOn) where
  pure a := .of_preserves (.pure a) of_eq
  bind first rest := .bind trans first rest
  fault f := .of_preserves (.fault f) of_eq
  outOfFuel := .of_preserves .outOfFuel of_eq
  read _ := .of_preserves (.read _) of_eq
  current m := of_eq m m rfl
  withEnvironment e _ := .withEnvironment (fun _ _ _ _ printed => printed) e
  newFrame _ _ m := of_eq m _ rfl
  newInstance _ m := of_eq m _ rfl
  newObject m := of_eq m _ rfl
  define _ _ m := of_eq m _ rfl
  assign e name v := .of_preserves (.assign (fun _ _ => rfl) e name v) of_eq
  assignAt hops name v := .of_preserves (.assignAt (fun _ _ => rfl) hops name v) of_eq
  setField _ _ _ m := of_eq m _ rfl
  write := write
  flush := .of_preserves (.flush fun _ => rfl) of_eq
  readClock m := of_eq m _ rfl

end PrintsOn

/-! ## Scopes -/

/-- The other machine has at least as many scopes. -/
def KeepsScopes (m m' : Machine) : Prop := m.store.frames.size ≤ m'.store.frames.size

namespace KeepsScopes

theorem of_eq (m m' : Machine) (same : m'.store = m.store) : KeepsScopes m m' :=
  Nat.le_of_eq (by rw [same])

theorem trans (m₁ m₂ m₃ : Machine) (first : KeepsScopes m₁ m₂) (second : KeepsScopes m₂ m₃) :
    KeepsScopes m₁ m₃ := Nat.le_trans first second

theorem setVariable {m m' : Machine} {id : FrameId} {name : String} {v : Value}
    (same : m'.store = m.store.setVariable id name v) : KeepsScopes m m' :=
  Nat.le_of_eq (by rw [same, Store.size_setVariable])

theorem assign (e : Environment) (name : Name) (v : Value) :
    Onward KeepsScopes (Run.assign e name v) := by
  intro m
  unfold Run.assign Store.assign
  cases m.store.binder? e.path name.text with
  | none => exact of_eq _ _ rfl
  | some id => exact setVariable rfl

theorem assignAt (hops : Nat) (name : String) (v : Value) :
    Onward KeepsScopes (Run.assignAt hops name v) := by
  intro m
  unfold Run.assignAt Store.assignAt
  cases m.store.binderAt m.current hops name with
  | error f => exact of_eq _ _ rfl
  | ok id => exact setVariable rfl

theorem write (text : String) : Onward KeepsScopes (Run.write text) := by
  intro m
  unfold Run.write
  cases m.sink.refusal .write m.sink.requests with
  | none => exact of_eq _ _ rfl
  | some message => exact of_eq _ _ rfl

/-- Nothing that runs removes a scope. -/
theorem uniform : Uniform (Onward KeepsScopes) where
  pure a := .of_preserves (f := (·.store)) (.pure a) of_eq
  bind first rest := .bind trans first rest
  fault f := .of_preserves (f := (·.store)) (.fault f) of_eq
  outOfFuel := .of_preserves (f := (·.store)) .outOfFuel of_eq
  read _ := .of_preserves (f := (·.store)) (.read _) of_eq
  current m := of_eq m m rfl
  withEnvironment e _ := .withEnvironment (fun _ _ _ _ more => more) e
  newFrame _ bound m := by
    have grown : m.store.frames.size ≤ (m.store.pushFrame bound).frames.size := by
      rw [Store.size_pushFrame]
      exact Nat.le_succ _
    exact grown
  newInstance _ m := Nat.le_refl m.store.frames.size
  newObject m := Nat.le_refl m.store.frames.size
  define _ _ m := setVariable rfl
  assign := assign
  assignAt := assignAt
  setField _ _ _ m := Nat.le_refl m.store.frames.size
  write := write
  flush := .of_preserves (f := (·.store)) (.flush fun _ => rfl) of_eq
  readClock m := of_eq m _ rfl

end KeepsScopes

end Lox.Run
