import Lox.Store.Variables

/-!
# What the operations of the store change

One lemma says what a scope, or an instance, holds after each operation, and the lemmas on
`getAt` and `assignAt` say how an access at a distance ends.
-/

namespace Lox

/-! ## Tables made from lists -/

theorem Bindings.mem_of_get?_ofList {α : Type} {entries : List (String × α)} {name : String} {a : α}
    (h : (Bindings.ofList entries).get? name = some a) : (name, a) ∈ entries := by
  have fold : ∀ (entries : List (String × α)) (b : Bindings α),
      (entries.foldl (fun b e => b.insert e.1 e.2) b).get? name = some a →
        (name, a) ∈ entries ∨ b.get? name = some a := by
    intro entries
    induction entries with
    | nil => exact fun _ found => .inr found
    | cons e rest ih =>
      intro b found
      rcases ih (b.insert e.1 e.2) found with mem | found
      · exact .inl (List.mem_cons_of_mem _ mem)
      · rw [Bindings.get?_insert] at found
        split at found
        · next same =>
          cases found
          exact .inl (same ▸ List.mem_cons_self)
        · exact .inr found
  exact (fold entries Bindings.empty h).resolve_right (by simp)

theorem Bindings.contains_ofList {α : Type} (entries : List (String × α)) (name : String) :
    (Bindings.ofList entries).contains name = decide (name ∈ entries.map Prod.fst) := by
  have fold (b : Bindings α) :
      (entries.foldl (fun b e => b.insert e.1 e.2) b).contains name =
        (decide (name ∈ entries.map Prod.fst) || b.contains name) := by
    induction entries generalizing b with
    | nil => simp
    | cons e rest ih =>
      rw [List.foldl_cons, ih, Bindings.contains_insert]
      by_cases here : name = e.1 <;> by_cases there : name ∈ rest.map Prod.fst <;>
        simp [here, there]
  rw [Bindings.ofList, fold]
  simp [Bindings.contains]

/-- The last entry of a name counts. -/
theorem Bindings.get?_ofList {α : Type} (entries : List (String × α)) (name : String) :
    (Bindings.ofList entries).get? name =
      (entries.reverse.find? fun e => e.1 == name).map Prod.snd := by
  have fold (b : Bindings α) :
      (entries.foldl (fun b e => b.insert e.1 e.2) b).get? name =
        ((entries.reverse.find? fun e => e.1 == name).map Prod.snd).or (b.get? name) := by
    induction entries generalizing b with
    | nil => rfl
    | cons e rest ih =>
      rw [List.foldl_cons, ih, Bindings.get?_insert, List.reverse_cons, List.find?_append]
      by_cases here : e.1 = name
      · cases rest.reverse.find? (fun e => e.1 == name) <;> simp [here]
      · cases rest.reverse.find? (fun e => e.1 == name) <;> simp [here, Ne.symm here]
  rw [Bindings.ofList, fold, Bindings.get?_empty, Option.or_none]

/-- An entry counts if no later one has its name. -/
theorem Bindings.get?_ofList_last {α : Type} {before after : List (String × α)} {name : String}
    {a : α} (others : ∀ e ∈ after, e.1 ≠ name) :
    (Bindings.ofList (before ++ (name, a) :: after)).get? name = some a := by
  have none : after.reverse.find? (fun e => e.1 == name) = none := by
    simpa [List.find?_eq_none] using fun x v mem => others (x, v) mem
  rw [Bindings.get?_ofList, List.reverse_append, List.reverse_cons, List.append_assoc,
    List.find?_append, none]
  simp

namespace Store

variable {s : Store} {e : Environment} {id : FrameId} {name : String} {hops : Nat}

/-! ## Operations -/

theorem frame_pushFrame (s : Store) (bound : Bindings Value) (id : FrameId) :
    (s.pushFrame bound).frame id = if id = s.frames.size then bound else s.frame id := by
  simp only [frame, pushFrame, Array.getD_eq_getD_getElem?, Array.getElem?_push]
  split <;> rfl

theorem size_pushFrame (s : Store) (bound : Bindings Value) :
    (s.pushFrame bound).frames.size = s.frames.size + 1 := by
  simp [pushFrame]

theorem frame_pushFrame_of_lt (bound : Bindings Value) (lt : id < s.frames.size) :
    (s.pushFrame bound).frame id = s.frame id := by
  rw [frame_pushFrame, if_neg (Nat.ne_of_lt lt)]

theorem frame_pushFrame_self (s : Store) (bound : Bindings Value) :
    (s.pushFrame bound).frame s.frames.size = bound := by
  rw [frame_pushFrame, if_pos rfl]

theorem lt_of_contains (bound : (s.frame id).contains name = true) : id < s.frames.size := by
  refine Nat.lt_of_not_le fun le => ?_
  simp [frame, Array.getD_eq_getD_getElem?, Array.getElem?_eq_none le, Bindings.contains] at bound

theorem size_setVariable (s : Store) (target : FrameId) (name : String) (value : Value) :
    (s.setVariable target name value).frames.size = s.frames.size := by
  simp [setVariable]

theorem frame_setVariable (s : Store) (target : FrameId) (name : String) (value : Value)
    (id : FrameId) :
    (s.setVariable target name value).frame id =
      if id = target ∧ target < s.frames.size then (s.frame id).insert name value
      else s.frame id := by
  simp only [frame, setVariable, Array.getD_eq_getD_getElem?, Array.getElem?_modify]
  by_cases same : target = id
  · subst same
    by_cases lt : target < s.frames.size
    · simp [lt]
    · simp [lt]
  · have other : id ≠ target := fun eq => same eq.symm
    simp [same, other]

theorem get?_setVariable (s : Store) (target : FrameId) (name : String) (value : Value)
    (id : FrameId) (other : String) :
    ((s.setVariable target name value).frame id).get? other =
      if (id = target ∧ target < s.frames.size) ∧ other = name then some value
      else (s.frame id).get? other := by
  rw [frame_setVariable]
  by_cases here : id = target ∧ target < s.frames.size
  · simp only [here, and_self, if_true, true_and, Bindings.get?_insert]
  · simp only [here, if_false, false_and]

theorem contains_setVariable (s : Store) (target : FrameId) (name : String) (value : Value)
    (id : FrameId) (other : String) :
    ((s.setVariable target name value).frame id).contains other =
      (decide ((id = target ∧ target < s.frames.size) ∧ other = name) ||
        (s.frame id).contains other) := by
  rw [Bindings.contains, get?_setVariable, Bindings.contains]
  by_cases here : (id = target ∧ target < s.frames.size) ∧ other = name <;> simp [here]

/-- A new value for a variable that is there changes no names. -/
theorem contains_setVariable_of_contains {target : FrameId} {value : Value}
    (bound : (s.frame target).contains name = true) (id : FrameId) (other : String) :
    ((s.setVariable target name value).frame id).contains other = (s.frame id).contains other := by
  rw [contains_setVariable]
  by_cases here : (id = target ∧ target < s.frames.size) ∧ other = name
  · obtain ⟨⟨rfl, -⟩, rfl⟩ := here
    simp [bound]
  · simp [here]

theorem fieldsOf_pushInstance (s : Store) (id : InstanceId) :
    s.pushInstance.fieldsOf id = s.fieldsOf id := by
  simp only [fieldsOf, pushInstance, Array.getD_eq_getD_getElem?, Array.getElem?_push]
  split
  · next last => simp [last]
  · rfl

theorem get?_setField (s : Store) (target : InstanceId) (name : String) (value : Value)
    (id : InstanceId) (other : String) {v : Value}
    (h : ((s.setField target name value).fieldsOf id).get? other = some v) :
    v = value ∨ (s.fieldsOf id).get? other = some v := by
  simp only [fieldsOf, setField, Array.getD_eq_getD_getElem?, Array.getElem?_modify] at h ⊢
  by_cases same : target = id
  · subst same
    cases here : s.fields[target]? with
    | none => simp [here] at h
    | some fields =>
      simp only [if_true, here, Option.map_some, Option.getD_some, Bindings.get?_insert] at h ⊢
      split at h
      · exact .inl (Option.some.inj h).symm
      · exact .inr h
  · exact .inr (by simpa [same] using h)

/-- An instance that is there gets the property. -/
theorem get?_setField_of_lt {target : InstanceId} (there : target < s.fields.size) (name : String)
    (value : Value) (id : InstanceId) (other : String) :
    ((s.setField target name value).fieldsOf id).get? other =
      if target = id ∧ name = other then some value else (s.fieldsOf id).get? other := by
  simp only [fieldsOf, setField, Array.getD_eq_getD_getElem?, Array.getElem?_modify]
  by_cases same : target = id
  · subst same
    simp only [if_true, Array.getElem?_eq_getElem there, Option.map_some, Option.getD_some,
      Bindings.get?_insert, true_and, eq_comm]
  · simp [same]

/-! ## Look-up by name -/

theorem lookup?_mem {path : List FrameId} {v : Value} (h : s.lookup? path name = some v) :
    ∃ id ∈ path, (s.frame id).get? name = some v := by
  obtain ⟨id, mem, found⟩ := List.exists_of_findSome?_eq_some h
  exact ⟨id, mem, found⟩

/-- The nearest scope binds the name. -/
theorem lookup?_of_get? {v : Value} (here : (s.frame e.frame).get? name = some v) :
    s.lookup? e.path name = some v := by
  rw [lookup?, Environment.path, List.findSome?_cons, here]

theorem binder?_contains {path : List FrameId} (h : s.binder? path name = some id) :
    (s.frame id).contains name = true :=
  List.find?_some (p := fun id => (s.frame id).contains name) h

theorem get?_of_get {x : Name} {v : Value} (h : s.get e x = .ok v) :
    ∃ id, (s.frame id).get? x.text = some v := by
  unfold get at h
  split at h
  · next found =>
    cases h
    obtain ⟨id, -, here⟩ := lookup?_mem found
    exact ⟨id, here⟩
  · cases h

/-- An assignment to a name that the scope itself binds looks no further. -/
theorem assign_of_contains {name : Name} (bound : (s.frame e.frame).contains name.text = true)
    (v : Value) : s.assign e name v = .ok (s.setVariable e.frame name.text v) := by
  have found : s.binder? e.path name.text = some e.frame := by
    simp only [binder?, Environment.path, List.find?_cons, bound]
  simp only [assign, found]

/-! ## Accesses at a distance -/

theorem ancestor_of_path (h : e.path[hops]? = some id) :
    ∃ outer, e.ancestor hops = .ok ⟨id, outer⟩ := by
  unfold Environment.ancestor
  cases rest : e.path.drop hops with
  | nil =>
    have here : (e.path.drop hops)[0]? = e.path[hops + 0]? := List.getElem?_drop
    simp [rest, h] at here
  | cons frame outer =>
    have here : (e.path.drop hops)[0]? = e.path[hops + 0]? := List.getElem?_drop
    simp only [rest, List.getElem?_cons_zero, Nat.add_zero, h, Option.some.injEq] at here
    exact ⟨outer, by rw [here]⟩

/-- A read that succeeds gives what some scope binds. -/
theorem get?_of_getAt {v : Value} (h : s.getAt e hops name = .ok v) :
    ∃ id, (s.frame id).get? name = some v := by
  unfold getAt at h
  cases target : e.ancestor hops with
  | error f =>
    rw [target] at h
    cases h
  | ok outer =>
    rw [target] at h
    simp only [bind, Except.bind] at h
    split at h
    · next found =>
      cases h
      exact ⟨_, found⟩
    · cases h

theorem binderAt_contains (h : s.binderAt e hops name = .ok id) :
    (s.frame id).contains name = true := by
  unfold binderAt at h
  cases target : e.ancestor hops with
  | error f =>
    rw [target] at h
    cases h
  | ok outer =>
    rw [target] at h
    simp only [bind, Except.bind] at h
    split at h
    · next bound =>
      cases h
      exact bound
    · cases h

/-- The scope at a distance is the one at this position of the path. -/
theorem path_of_binderAt (h : s.binderAt e hops name = .ok id) : e.path[hops]? = some id := by
  have here : (e.path.drop hops)[0]? = e.path[hops + 0]? := List.getElem?_drop
  unfold binderAt Environment.ancestor at h
  cases rest : e.path.drop hops with
  | nil =>
    rw [rest] at h
    cases h
  | cons frame outer =>
    rw [rest] at h here
    simp only [bind, Except.bind] at h
    split at h
    · cases h
      exact here.symm
    · cases h

/-- A read finds a name that the scope at this distance binds. -/
theorem getAt_of_contains (h : e.path[hops]? = some id)
    (bound : (s.frame id).contains name = true) :
    ∃ value, s.getAt e hops name = .ok value ∧ (s.frame id).get? name = some value := by
  obtain ⟨outer, found⟩ := ancestor_of_path h
  obtain ⟨value, here⟩ := Option.isSome_iff_exists.1 bound
  refine ⟨value, ?_, here⟩
  simp only [getAt, found, bind, Except.bind, here]

/-- A read gives the value that the scope at this distance binds. -/
theorem getAt_of_get? {v : Value} (place : e.path[hops]? = some id)
    (here : (s.frame id).get? name = some v) : s.getAt e hops name = .ok v := by
  have bound : (s.frame id).contains name = true := by simp [Bindings.contains, here]
  obtain ⟨value, found, same⟩ := getAt_of_contains place bound
  rw [here] at same
  cases same
  exact found

/-- A name that the scope at this distance binds gets the new value. -/
theorem assignAt_of_contains (h : e.path[hops]? = some id)
    (bound : (s.frame id).contains name = true) (value : Value) :
    s.assignAt e hops name value = .ok (s.setVariable id name value) := by
  obtain ⟨outer, found⟩ := ancestor_of_path h
  simp only [assignAt, binderAt, found, bind, Except.bind, bound, if_true]

/-- A name that the scope at this distance does not bind gets no value. -/
theorem assignAt_of_not_contains (h : e.path[hops]? = some id)
    (missing : (s.frame id).contains name = false) (value : Value) :
    s.assignAt e hops name value = .error (.mismatch (.missingVariable name hops)) := by
  obtain ⟨outer, found⟩ := ancestor_of_path h
  simp [assignAt, binderAt, found, bind, Except.bind, missing]

end Store

end Lox
