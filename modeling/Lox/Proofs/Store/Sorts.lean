import Lox.Proofs.Scope.Scoped
import Lox.Proofs.Store.Frames

/-!
# Three sorts of scopes

A scope binds variables, or it holds the instance of a bound method, or it holds a superclass. What a
run does to the store takes no scope from one sort to another, and leaves the scopes of the last two
sorts as they are (`Store.Settles`).
-/

namespace Lox.Store

/-- The scope holds an instance and nothing else. -/
def HoldsThis (s : Store) (id : FrameId) (i : Instance) : Prop :=
  s.frame id = Bindings.empty.insert thisName (.ofInstance i)

/-- The scope holds a superclass and nothing else. -/
def HoldsSuper (s : Store) (id : FrameId) (c : Class) : Prop :=
  s.frame id = Bindings.empty.insert superName (.callable (.ofClass c))

/-- The scope is there, and all its names are those of variables. -/
structure IsPlain (s : Store) (id : FrameId) : Prop where
  lt : id < s.frames.size
  named : ∀ name, (s.frame id).contains name = true → IsVariable name

/-- The scope is of one of the three sorts. -/
def IsSorted (s : Store) (id : FrameId) : Prop :=
  s.IsPlain id ∨ (∃ i, s.HoldsThis id i) ∨ ∃ c, s.HoldsSuper id c

/-- Each scope is still of its sort, and one that holds an instance or a superclass is as it was. -/
structure Settles (s s' : Store) : Prop where
  plain : ∀ id, s.IsPlain id → s'.IsPlain id
  this : ∀ id i, s.HoldsThis id i → s'.HoldsThis id i
  super : ∀ id c, s.HoldsSuper id c → s'.HoldsSuper id c

variable {s s' s'' : Store} {id : FrameId} {name : String} {i : Instance} {c : Class}

namespace Settles

theorem refl (s : Store) : s.Settles s := ⟨fun _ h => h, fun _ _ h => h, fun _ _ h => h⟩

theorem trans (first : s.Settles s') (second : s'.Settles s'') : s.Settles s'' where
  plain id h := second.plain id (first.plain id h)
  this id i h := second.this id i (first.this id i h)
  super id c h := second.super id c (first.super id c h)

/-- A scope of one of the sorts stays one. -/
theorem sorted (settles : s.Settles s') (h : s.IsSorted id) : s'.IsSorted id := by
  rcases h with plain | ⟨i, holds⟩ | ⟨c, holds⟩
  · exact .inl (settles.plain id plain)
  · exact .inr (.inl ⟨i, settles.this id i holds⟩)
  · exact .inr (.inr ⟨c, settles.super id c holds⟩)

/-- Two stores with the same scopes. -/
theorem of_frames (same : s'.frames = s.frames) : s.Settles s' := by
  have frame (id : FrameId) : s'.frame id = s.frame id := by
    rw [Store.frame, same, ← Store.frame]
  refine ⟨fun id h => ⟨?_, fun name bound => h.named name ?_⟩, fun id i h => ?_, fun id c h => ?_⟩
  · rw [same]
    exact h.lt
  · rwa [frame] at bound
  · exact (frame id).trans h
  · exact (frame id).trans h

end Settles

/-! ## Names tell the sorts apart -/

theorem HoldsThis.contains (h : s.HoldsThis id i) : (s.frame id).contains thisName = true := by
  rw [h, Bindings.contains_insert]
  rfl

theorem HoldsSuper.contains (h : s.HoldsSuper id c) : (s.frame id).contains superName = true := by
  rw [h, Bindings.contains_insert]
  rfl

theorem HoldsThis.get (h : s.HoldsThis id i) :
    (s.frame id).get? thisName = some (.ofInstance i) := by
  rw [h]
  exact Bindings.get?_insert_self _ _ _

theorem HoldsSuper.get (h : s.HoldsSuper id c) :
    (s.frame id).get? superName = some (.callable (.ofClass c)) := by
  rw [h]
  exact Bindings.get?_insert_self _ _ _

theorem IsPlain.not_this (h : s.IsPlain id) : ¬ s.HoldsThis id i :=
  fun holds => (h.named _ holds.contains).1 rfl

theorem IsPlain.not_super (h : s.IsPlain id) : ¬ s.HoldsSuper id c :=
  fun holds => (h.named _ holds.contains).2 rfl

/-- A scope with the name of a variable is plain. -/
theorem IsSorted.plain (h : s.IsSorted id) (named : IsVariable name)
    (bound : (s.frame id).contains name = true) : s.IsPlain id := by
  rcases h with plain | ⟨i, holds⟩ | ⟨c, holds⟩
  · exact plain
  · rw [holds, Bindings.contains_insert] at bound
    have isThis : name = thisName := by simpa [Bindings.contains] using bound
    exact absurd isThis named.1
  · rw [holds, Bindings.contains_insert] at bound
    have isSuper : name = superName := by simpa [Bindings.contains] using bound
    exact absurd isSuper named.2

/-! ## Operations -/

/-- A new scope leaves the others alone. -/
theorem Settles.pushFrame (s : Store) (bound : Bindings Value) : s.Settles (s.pushFrame bound) := by
  refine ⟨fun id h => ⟨?_, fun name here => h.named name ?_⟩, fun id i h => ?_, fun id c h => ?_⟩
  · rw [size_pushFrame]
    exact Nat.lt_succ_of_lt h.lt
  · rwa [frame_pushFrame_of_lt bound h.lt] at here
  · rw [HoldsThis, frame_pushFrame_of_lt bound (lt_of_contains h.contains)]
    exact h
  · rw [HoldsSuper, frame_pushFrame_of_lt bound (lt_of_contains h.contains)]
    exact h

/-- A new scope with names of variables is plain. -/
theorem isPlain_pushFrame {bound : Bindings Value}
    (named : ∀ name, bound.contains name = true → IsVariable name) :
    (s.pushFrame bound).IsPlain s.frames.size := by
  refine ⟨?_, fun name here => named name ?_⟩
  · rw [size_pushFrame]
    exact Nat.lt_succ_self _
  · rwa [frame_pushFrame_self] at here

/-- A variable of a plain scope may be set. -/
theorem Settles.setVariable (plain : s.IsPlain id) (named : IsVariable name) (v : Value) :
    s.Settles (s.setVariable id name v) := by
  have other {id' : FrameId} (ne : id' ≠ id) : (s.setVariable id name v).frame id' = s.frame id' := by
    rw [frame_setVariable, if_neg fun here => ne here.1]
  refine ⟨fun id' h => ⟨?_, fun x here => ?_⟩, fun id' i h => ?_, fun id' c h => ?_⟩
  · rw [size_setVariable]
    exact h.lt
  · rw [contains_setVariable, Bool.or_eq_true, decide_eq_true_iff] at here
    rcases here with ⟨-, rfl⟩ | here
    · exact named
    · exact h.named x here
  · have ne : id' ≠ id := by
      rintro rfl
      exact plain.not_this h
    exact (other ne).trans h
  · have ne : id' ≠ id := by
      rintro rfl
      exact plain.not_super h
    exact (other ne).trans h

end Lox.Store
