import Lox.Proofs.Store.Frames
import Lox.Proofs.Scope.Regular

/-!
# Scopes of a run and scopes of a program

`Mirrors s path scopes` says that a chain of scopes of a run has the shape of the scopes that
resolution had: as many of them, with the globals around all, and position by position each holds
the names that are ready in the other. It may hold more, since a closure keeps the scope that it was
made in, and later declarations add to that.
-/

namespace Lox

/-- The scope of the run binds each name that is ready in the scope of the program. -/
def Store.Binds (s : Store) (id : FrameId) (scope : Bindings Bool) : Prop :=
  ∀ name, scope.get? name = some true → (s.frame id).contains name = true

/-- The chain of scopes has the shape of the scopes of the program, with the globals around it. -/
inductive Mirrors (s : Store) : List FrameId → Scopes → Prop
  | globals : Mirrors s [0] []
  | inside {id : FrameId} {path : List FrameId} {scope : Bindings Bool} {scopes : Scopes} :
    0 < id → id < s.frames.size → s.Binds id scope → Mirrors s path scopes →
    Mirrors s (id :: path) (scope :: scopes)

namespace Mirrors

variable {s s' : Store} {path : List FrameId} {scopes : Scopes}

/-- The chain ends in the globals and has them nowhere else. -/
theorem chain (h : Mirrors s path scopes) :
    ∃ chain : List FrameId, path = chain ++ [Environment.globals.frame] ∧
      chain.length = scopes.length ∧ Environment.globals.frame ∉ chain := by
  induction h with
  | globals => exact ⟨[], rfl, rfl, by simp⟩
  | @inside id _ _ _ positive _ _ _ ih =>
    obtain ⟨chain, eq, length, noGlobals⟩ := ih
    refine ⟨id :: chain, by simp [eq], by simp [length], ?_⟩
    have other : Environment.globals.frame ≠ id := Nat.ne_of_lt positive
    simp [other, noGlobals]

/-- At each position the scope of the run binds what is ready in the scope of the program. -/
theorem at_position (h : Mirrors s path scopes) {k : Nat} {scope : Bindings Bool}
    (found : scopes[k]? = some scope) :
    ∃ id, path[k]? = some id ∧ s.Binds id scope := by
  induction h generalizing k with
  | globals => simp at found
  | @inside id _ _ _ _ _ binds _ ih =>
    cases k with
    | zero =>
      cases found
      exact ⟨id, rfl, binds⟩
    | succ k => exact ih (by simpa using found)

theorem lt_size (h : Mirrors s path scopes) (globals : 0 < s.frames.size) :
    ∀ id ∈ path, id < s.frames.size := by
  induction h with
  | globals => simpa using globals
  | inside _ lt _ _ ih =>
    intro id mem
    rcases List.mem_cons.1 mem with rfl | mem
    · exact lt
    · exact ih id mem

/-- A store that has more scopes, and more names in them, mirrors the same scopes. -/
theorem mono (h : Mirrors s path scopes) (more : s.frames.size ≤ s'.frames.size)
    (names : ∀ id name, (s.frame id).contains name = true → (s'.frame id).contains name = true) :
    Mirrors s' path scopes := by
  induction h with
  | globals => exact .globals
  | @inside id _ _ _ positive lt binds _ ih =>
    exact .inside positive (Nat.lt_of_lt_of_le lt more)
      (fun name ready => names id name (binds name ready)) ih

/-- The innermost scope of the program may change as long as its names are bound. -/
theorem setInnermost {id : FrameId} {outer : List FrameId} {scope scope' : Bindings Bool}
    {rest : Scopes} (h : Mirrors s (id :: outer) (scope :: rest)) (binds : s.Binds id scope') :
    Mirrors s (id :: outer) (scope' :: rest) := by
  cases h with
  | inside positive lt _ rest => exact .inside positive lt binds rest

/-- The globals alone are active where resolution has no scopes. -/
theorem globals_iff {e : Environment} (h : Mirrors s e.path scopes) :
    e = .globals ↔ scopes = [] := by
  obtain ⟨frame, outer⟩ := e
  unfold Environment.path at h
  constructor
  · intro isGlobals
    cases isGlobals
    cases h with
    | globals => rfl
    | inside positive _ _ _ => exact absurd positive (Nat.lt_irrefl 0)
  · intro none
    subst none
    cases h
    rfl

end Mirrors

/-- The scopes of the run hold what a reference needs that is ready where it finds its variable. -/
theorem Mirrors.resolved {s : Store} {path : List FrameId} {c : Context} {name : String}
    {hops : Nat} (h : Mirrors s path c.scopes) (regular : c.Regular)
    (place : c.scopes.place name = .scope hops) (finished : c.scopes.isUnfinished name = false) :
    ∃ id, path[hops]? = some id ∧ (s.frame id).contains name = true := by
  obtain ⟨scope, found, ready⟩ := regular.ready place finished
  obtain ⟨id, here, binds⟩ := h.at_position found
  exact ⟨id, here, binds name ready⟩

end Lox
