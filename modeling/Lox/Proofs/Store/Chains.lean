import Lox.Proofs.Store.Frames

/-!
# Chains of scopes

`up?` follows the links from a scope to the one around it, one at a time. The scope at a distance is
the one that this many links lead to (`ancestor_eq_up?`), and a search by name ends at the nearest
scope of the chain that binds the name (`get_of_nearest`, `assign_of_nearest`). So both ways of access
come to the same at the least distance at which the name is bound.

`Rebinds` says what an assignment does to the store: one binding has a new value, no other binding
changes, none is added and none goes away.
-/

namespace Lox

/-- The scope that so many links lead to. -/
def Environment.up? : Nat → Environment → Option Environment
  | 0, e => some e
  | hops + 1, e => e.enclosing?.bind (up? hops)

namespace Store

/-- The scope that so many links lead to binds the name. -/
def BindsAt (s : Store) (e : Environment) (name : String) (hops : Nat) : Prop :=
  ∃ target, e.up? hops = some target ∧ (s.frame target.frame).contains name = true

/-- This is the least distance at which the name is bound. -/
structure Nearest (s : Store) (e : Environment) (name : String) (hops : Nat) : Prop where
  binds : s.BindsAt e name hops
  least : ∀ nearer < hops, ¬ s.BindsAt e name nearer

/-- The second store has another value for one name in one scope, and is the same in all else. -/
structure Rebinds (s s' : Store) (id : FrameId) (name : String) (value : Value) : Prop where
  there : (s.frame id).contains name = true
  bound : ∀ other x, (s'.frame other).get? x =
    if other = id ∧ x = name then some value else (s.frame other).get? x
  sizes : ∀ other, (s'.frame other).size = (s.frame other).size
  frames : s'.frames.size = s.frames.size
  fields : s'.fields = s.fields
  objects : s'.nextObject = s.nextObject

end Store

/-! ## Links -/

namespace Environment

variable {e target : Environment} {hops : Nat}

theorem up?_eq (hops : Nat) (e : Environment) :
    e.up? hops = match e.path.drop hops with
      | frame :: outer => some ⟨frame, outer⟩
      | [] => none := by
  induction hops generalizing e with
  | zero => rfl
  | succ hops ih =>
    unfold up? enclosing? path
    cases e.outer with
    | nil => simp
    | cons frame outer => exact ih ⟨frame, outer⟩

/-- A scope is at a distance if so many links lead to it, and else the chain is too short. -/
theorem ancestor_eq_up? (e : Environment) (hops : Nat) :
    e.ancestor hops = match e.up? hops with
      | some target => .ok target
      | none => .error (.mismatch (.tooFewScopes e.outer.length hops)) := by
  rw [up?_eq, ancestor]
  cases e.path.drop hops <;> rfl

theorem ancestor_of_up? (h : e.up? hops = some target) : e.ancestor hops = .ok target := by
  rw [ancestor_eq_up?, h]

theorem path_of_up? (h : e.up? hops = some target) : e.path[hops]? = some target.frame := by
  have here : (e.path.drop hops)[0]? = e.path[hops + 0]? := List.getElem?_drop
  rw [up?_eq] at h
  cases rest : e.path.drop hops with
  | nil =>
    rw [rest] at h
    cases h
  | cons frame outer =>
    rw [rest] at h here
    cases h
    exact here.symm

theorem up?_of_path {id : FrameId} (h : e.path[hops]? = some id) :
    ∃ target, e.up? hops = some target ∧ target.frame = id := by
  obtain ⟨outer, found⟩ := Store.ancestor_of_path h
  rw [ancestor_eq_up?] at found
  cases up : e.up? hops with
  | none =>
    rw [up] at found
    cases found
  | some target =>
    rw [up] at found
    cases found
    exact ⟨_, rfl, rfl⟩

end Environment

namespace Bindings

/-- A name that is bound keeps its place. -/
theorem size_insert_of_contains {α : Type} {b : Bindings α} {name : String} (value : α)
    (bound : b.contains name = true) : (b.insert name value).size = b.size := by
  have length (entries : List (String × α)) (found : (find? name entries).isSome = true) :
      (put name value entries).length = entries.length := by
    induction entries with
    | nil => simp [find?] at found
    | cons e rest ih =>
      by_cases here : e.1 = name
      · simp [put, here]
      · simp only [find?, here, if_false] at found
        simp [put, here, ih found]
  exact length b.entries bound

end Bindings

namespace Store

variable {s s' : Store} {e target : Environment} {name : String} {hops : Nat} {v : Value}

/-! ## The nearest scope -/

theorem bindsAt_iff : s.BindsAt e name hops ↔
    ∃ id, e.path[hops]? = some id ∧ (s.frame id).contains name = true := by
  constructor
  · rintro ⟨target, up, bound⟩
    exact ⟨target.frame, Environment.path_of_up? up, bound⟩
  · rintro ⟨id, place, bound⟩
    obtain ⟨target, up, rfl⟩ := Environment.up?_of_path place
    exact ⟨target, up, bound⟩

theorem exists_nearest (h : s.BindsAt e name hops) : ∃ nearest, s.Nearest e name nearest := by
  induction hops using Nat.strongRecOn with
  | ind hops ih =>
    by_cases nearer : ∃ d < hops, s.BindsAt e name d
    · obtain ⟨d, lt, binds⟩ := nearer
      exact ih d lt binds
    · exact ⟨hops, h, fun d lt binds => nearer ⟨d, lt, binds⟩⟩

theorem Nearest.unique {other : Nat} (h : s.Nearest e name hops) (h' : s.Nearest e name other) :
    other = hops := by
  rcases Nat.lt_trichotomy other hops with lt | same | gt
  · exact absurd h'.binds (h.least other lt)
  · exact same
  · exact absurd h.binds (h'.least hops gt)

/-- The search ends at the nearest scope. -/
theorem binder?_of_nearest (h : s.Nearest e name hops) (up : e.up? hops = some target) :
    s.binder? e.path name = some target.frame := by
  obtain ⟨found, up', bound⟩ := h.binds
  cases up.symm.trans up'
  rw [binder?, List.find?_eq_some_iff_getElem]
  obtain ⟨lt, place⟩ := List.getElem?_eq_some_iff.1 (Environment.path_of_up? up)
  refine ⟨bound, hops, lt, place, ?_⟩
  intro d nearer
  have place := List.getElem?_eq_getElem (Nat.lt_trans nearer lt)
  cases here : (s.frame e.path[d]).contains name with
  | false => rfl
  | true => exact absurd (bindsAt_iff.2 ⟨_, place, here⟩) (h.least d nearer)

theorem binder?_of_unbound (unbound : ∀ hops, ¬ s.BindsAt e name hops) :
    s.binder? e.path name = none := by
  rw [binder?, List.find?_eq_none]
  intro id mem bound
  obtain ⟨hops, place⟩ := List.getElem?_of_mem mem
  exact unbound hops (bindsAt_iff.2 ⟨id, place, bound⟩)

theorem lookup?_eq_binder? (s : Store) (path : List FrameId) (name : String) :
    s.lookup? path name = (s.binder? path name).bind fun id => (s.frame id).get? name := by
  induction path with
  | nil => rfl
  | cons id path ih =>
    rw [lookup?, List.findSome?_cons, binder?, List.find?_cons, Bindings.contains]
    cases found : (s.frame id).get? name with
    | some v => exact found.symm
    | none => exact ih

/-! ## Accesses at a distance -/

theorem getAt_of_up? (up : e.up? hops = some target) :
    s.getAt e hops name = match (s.frame target.frame).get? name with
      | some v => .ok v
      | none => .error (.mismatch (.missingVariable name hops)) := by
  rw [getAt, Environment.ancestor_of_up? up]
  rfl

theorem getAt_of_short (short : e.up? hops = none) :
    s.getAt e hops name = .error (.mismatch (.tooFewScopes e.outer.length hops)) := by
  rw [getAt, Environment.ancestor_eq_up?, short]
  rfl

theorem assignAt_of_up? (up : e.up? hops = some target) (v : Value) :
    s.assignAt e hops name v =
      if (s.frame target.frame).contains name then .ok (s.setVariable target.frame name v)
      else .error (.mismatch (.missingVariable name hops)) := by
  have place := Environment.path_of_up? up
  cases bound : (s.frame target.frame).contains name with
  | true => exact assignAt_of_contains place bound v
  | false => exact assignAt_of_not_contains place bound v

theorem assignAt_of_short (short : e.up? hops = none) (v : Value) :
    s.assignAt e hops name v = .error (.mismatch (.tooFewScopes e.outer.length hops)) := by
  rw [assignAt, binderAt, Environment.ancestor_eq_up?, short]
  rfl

/-- A read succeeds exactly if the scope reached has the value. -/
theorem getAt_eq_ok : s.getAt e hops name = .ok v ↔
    ∃ target, e.up? hops = some target ∧ (s.frame target.frame).get? name = some v := by
  cases up : e.up? hops with
  | none => simp [getAt_of_short up]
  | some target =>
    rw [getAt_of_up? up]
    cases found : (s.frame target.frame).get? name <;> simp [found]

theorem getAt_isOk : (∃ v, s.getAt e hops name = .ok v) ↔ s.BindsAt e name hops := by
  constructor
  · rintro ⟨v, ok⟩
    obtain ⟨target, up, found⟩ := getAt_eq_ok.1 ok
    exact ⟨target, up, by rw [Bindings.contains, found]; rfl⟩
  · rintro ⟨target, up, bound⟩
    obtain ⟨v, found⟩ := Option.isSome_iff_exists.1 bound
    exact ⟨v, getAt_eq_ok.2 ⟨target, up, found⟩⟩

/-- An assignment succeeds exactly if the scope reached binds the name. -/
theorem assignAt_eq_ok : s.assignAt e hops name v = .ok s' ↔
    ∃ target, e.up? hops = some target ∧ (s.frame target.frame).contains name = true ∧
      s' = s.setVariable target.frame name v := by
  cases up : e.up? hops with
  | none => simp [assignAt_of_short up]
  | some target =>
    rw [assignAt_of_up? up]
    cases bound : (s.frame target.frame).contains name with
    | true => simp [bound, eq_comm (a := s')]
    | false => simp [bound]

theorem assignAt_isOk : (∃ s', s.assignAt e hops name v = .ok s') ↔ s.BindsAt e name hops := by
  constructor
  · rintro ⟨s', ok⟩
    obtain ⟨target, up, bound, -⟩ := assignAt_eq_ok.1 ok
    exact ⟨target, up, bound⟩
  · rintro ⟨target, up, bound⟩
    exact ⟨_, assignAt_eq_ok.2 ⟨target, up, bound, rfl⟩⟩

/-- A chain that is too short and a name that is missing are told apart. -/
theorem getAt_eq_error (unbound : ¬ s.BindsAt e name hops) :
    s.getAt e hops name = .error (.mismatch (match e.up? hops with
      | some _ => .missingVariable name hops
      | none => .tooFewScopes e.outer.length hops)) := by
  cases up : e.up? hops with
  | none => exact getAt_of_short up
  | some target =>
    rw [getAt_of_up? up]
    cases found : (s.frame target.frame).get? name with
    | none => rfl
    | some v => exact absurd (getAt_isOk.1 ⟨v, getAt_eq_ok.2 ⟨target, up, found⟩⟩) unbound

theorem assignAt_eq_error (unbound : ¬ s.BindsAt e name hops) (v : Value) :
    s.assignAt e hops name v = .error (.mismatch (match e.up? hops with
      | some _ => .missingVariable name hops
      | none => .tooFewScopes e.outer.length hops)) := by
  cases up : e.up? hops with
  | none => exact assignAt_of_short up v
  | some target =>
    rw [assignAt_of_up? up, if_neg]
    intro bound
    exact unbound ⟨target, up, bound⟩

/-! ## Accesses by name -/

section

variable {x : Name}

theorem get_of_nearest (h : s.Nearest e x.text hops) : s.get e x = s.getAt e hops x.text := by
  obtain ⟨target, up, bound⟩ := h.binds
  obtain ⟨v, found⟩ := Option.isSome_iff_exists.1 bound
  rw [get, lookup?_eq_binder?, binder?_of_nearest h up, Option.bind_some, found, getAt_of_up? up,
    found]

theorem get_of_unbound (unbound : ∀ hops, ¬ s.BindsAt e x.text hops) :
    s.get e x = .error (.runtime (.undefinedVariable x.text) x.line) := by
  rw [get, lookup?_eq_binder?, binder?_of_unbound unbound]
  rfl

theorem assign_of_nearest (h : s.Nearest e x.text hops) (v : Value) :
    s.assign e x v = s.assignAt e hops x.text v := by
  obtain ⟨target, up, bound⟩ := h.binds
  rw [assign, binder?_of_nearest h up, assignAt_eq_ok.2 ⟨target, up, bound, rfl⟩]

theorem assign_of_unbound (unbound : ∀ hops, ¬ s.BindsAt e x.text hops) (v : Value) :
    s.assign e x v = .error (.runtime (.undefinedVariable x.text) x.line) := by
  rw [assign, binder?_of_unbound unbound]

end

/-! ## What an assignment changes -/

theorem rebinds_of_assignAt (h : s.assignAt e hops name v = .ok s') :
    ∃ target, e.up? hops = some target ∧ s.Rebinds s' target.frame name v := by
  obtain ⟨target, up, bound, rfl⟩ := assignAt_eq_ok.1 h
  have lt := lt_of_contains bound
  refine ⟨target, up, bound, ?_, ?_, size_setVariable _ _ _ _, rfl, rfl⟩
  · intro other x
    simp only [get?_setVariable, lt, and_true]
  · intro other
    rw [frame_setVariable]
    by_cases here : other = target.frame ∧ target.frame < s.frames.size
    · rw [if_pos here, here.1, Bindings.size_insert_of_contains v bound]
    · rw [if_neg here]

namespace Rebinds

variable {id : FrameId}

theorem contains (h : s.Rebinds s' id name v) (other : FrameId) (x : String) :
    (s'.frame other).contains x = (s.frame other).contains x := by
  rw [Bindings.contains, Bindings.contains, h.bound]
  by_cases here : other = id ∧ x = name
  · rw [if_pos here, here.1, here.2]
    exact h.there.symm
  · rw [if_neg here]

theorem bindsAt (h : s.Rebinds s' id name v) {x : String} :
    s'.BindsAt e x hops ↔ s.BindsAt e x hops := by
  simp only [BindsAt, h.contains]

theorem nearest (h : s.Rebinds s' id name v) {x : String} (nearest : s.Nearest e x hops) :
    s'.Nearest e x hops where
  binds := h.bindsAt.2 nearest.binds
  least nearer lt binds := nearest.least nearer lt (h.bindsAt.1 binds)

/-- A read at a distance gives the new value where it reaches the scope, and else what it gave. -/
theorem getAt (h : s.Rebinds s' id name v) (e : Environment) (hops : Nat) (x : String) :
    s'.getAt e hops x =
      if (∃ target, e.up? hops = some target ∧ target.frame = id) ∧ x = name then .ok v
      else s.getAt e hops x := by
  cases up : e.up? hops with
  | none => simp [getAt_of_short up]
  | some target =>
    rw [getAt_of_up? up, getAt_of_up? up, h.bound]
    by_cases here : target.frame = id ∧ x = name
    · simp [here]
    · rw [if_neg here, if_neg]
      rintro ⟨⟨_, ⟨rfl⟩, frame⟩, same⟩
      exact here ⟨frame, same⟩

end Rebinds

end Store

end Lox
