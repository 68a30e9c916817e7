import Lox.Proofs.Alpha.Values

/-!
# Stores that differ in the names of variables

Two stores are alike if each scope of the one binds the renamed names of the other to values that
are alike (`Store.Alpha`). There is one lemma for each operation on the store. An access at a
distance finds its variable on both sides or on neither, and in the latter case the faults differ at
most in the name that is missing.
-/

namespace Lox

open Renaming (nameMap identity ofScope along)

section

variable (p : Renaming → Prop) (all : List Renaming)

/-- The variables that a scope binds, under the other names that they have, are alike. -/
def Bindings.Alpha (r : Renaming) (b b' : Bindings Value) : Prop :=
  ∀ name, Option.Rel (Value.Alpha p all) (b.get? name) (b'.get? (r.perm name))

/-- The stores differ only in the names of variables: those of each scope as its renaming says. -/
structure Store.Alpha (s s' : Store) : Prop where
  renamed : all.length = s.frames.size
  frames : s'.frames.size = s.frames.size
  globals : all[0]? = some identity
  bindings : ∀ id, (s.frame id).Alpha p all (ofScope all id) (s'.frame id)
  fields : s'.fields.size = s.fields.size
  properties : ∀ id, (s.fieldsOf id).Alpha p all identity (s'.fieldsOf id)
  nextObject : s'.nextObject = s.nextObject

end

variable {p : Renaming → Prop} {all more : List Renaming}

/-! ## Scopes -/

namespace Bindings.Alpha

variable {r : Renaming} {b b' : Bindings Value}

theorem mono (h : b.Alpha p all r b') (later : all <+: more) : b.Alpha p more r b' :=
  fun name => (h name).imp fun _ _ value => value.mono later

theorem empty (r : Renaming) : Bindings.empty.Alpha p all r Bindings.empty := fun _ => .none

/-- A name is bound on both sides. -/
theorem insert (h : b.Alpha p all r b') {v v' : Value} (alike : v.Alpha p all v') (name : String) :
    (b.insert name v).Alpha p all r (b'.insert (r.perm name) v') := by
  intro other
  rw [Bindings.get?_insert, Bindings.get?_insert]
  simp only [r.perm.injective.eq_iff]
  split
  · exact .some alike
  · exact h other

theorem contains_eq (h : b.Alpha p all r b') (name : String) :
    b'.contains (r.perm name) = b.contains name := by
  rcases (h name).none_or_some with ⟨unbound, unbound'⟩ | ⟨v, v', found, found', -⟩
  · rw [Bindings.contains, Bindings.contains, unbound, unbound']
  · rw [Bindings.contains, Bindings.contains, found, found']
    rfl

/-- The parameters of two functions have the arguments of a call. -/
theorem parameters (r : Renaming) (params : List Name) {vs vs' : List Value}
    (alike : List.Forall₂ (Value.Alpha p all) vs vs') :
    (Run.parameters params vs).Alpha p all r (Run.parameters (params.map r.param) vs') := by
  have fold : ∀ (params : List Name) {b b' : Bindings Value} {vs vs' : List Value},
      List.Forall₂ (Value.Alpha p all) vs vs' → b.Alpha p all r b' →
      (((params.map Name.text).zip vs).foldl (fun b e => b.insert e.1 e.2) b).Alpha p all r
        ((((params.map r.param).map Name.text).zip vs').foldl (fun b e => b.insert e.1 e.2) b') := by
    intro params
    induction params with
    | nil => exact fun _ h => h
    | cons x params ih =>
      intro b b' vs vs' alike h
      cases alike with
      | nil => exact h
      | cons head tail => exact ih tail (h.insert head x.text)
  exact fold params alike (empty r)

end Bindings.Alpha

/-! ## Operations -/

theorem Store.fieldsOf_setField (s : Store) (target : InstanceId) (name : String) (value : Value)
    (id : InstanceId) :
    (s.setField target name value).fieldsOf id =
      if id = target ∧ target < s.fields.size then (s.fieldsOf id).insert name value
      else s.fieldsOf id := by
  simp only [fieldsOf, setField, Array.getD_eq_getD_getElem?, Array.getElem?_modify]
  grind

namespace Store.Alpha

variable {s s' : Store} {v v' : Value}

theorem pushFrame (h : s.Alpha p all s') (r : Renaming) {b b' : Bindings Value}
    (alike : b.Alpha p all r b') :
    (s.pushFrame b).Alpha p (all ++ [r]) (s'.pushFrame b') := by
  have later : all <+: all ++ [r] := List.prefix_append _ _
  constructor
  · rw [size_pushFrame, ← h.renamed]
    exact List.length_append
  · rw [size_pushFrame, size_pushFrame, h.frames]
  · rw [List.getElem?_append_left]
    · exact h.globals
    · exact (List.getElem?_eq_some_iff.1 h.globals).1
  · intro id
    rw [frame_pushFrame, frame_pushFrame, Renaming.ofScope_concat, h.frames, h.renamed]
    split
    · exact alike.mono later
    · exact (h.bindings id).mono later
  · exact h.fields
  · exact fun id => (h.properties id).mono later
  · exact h.nextObject

theorem setVariable (h : s.Alpha p all s') (alike : v.Alpha p all v') (target : FrameId)
    (name : String) :
    (s.setVariable target name v).Alpha p all
      (s'.setVariable target ((ofScope all target).perm name) v') := by
  constructor
  · rw [size_setVariable, h.renamed]
  · rw [size_setVariable, size_setVariable, h.frames]
  · exact h.globals
  · intro id
    rw [frame_setVariable, frame_setVariable, h.frames]
    split
    · next here =>
      rw [here.1]
      exact (h.bindings target).insert alike name
    · exact h.bindings id
  · exact h.fields
  · exact h.properties
  · exact h.nextObject

theorem setField (h : s.Alpha p all s') (alike : v.Alpha p all v') (target : InstanceId)
    (name : String) : (s.setField target name v).Alpha p all (s'.setField target name v') := by
  have size (s : Store) (v : Value) : (s.setField target name v).fields.size = s.fields.size := by
    simp [Store.setField]
  constructor
  · exact h.renamed
  · exact h.frames
  · exact h.globals
  · exact h.bindings
  · rw [size, size, h.fields]
  · intro id
    rw [fieldsOf_setField, fieldsOf_setField, h.fields]
    split
    · exact (h.properties id).insert alike name
    · exact h.properties id
  · exact h.nextObject

theorem pushInstance (h : s.Alpha p all s') : s.pushInstance.Alpha p all s'.pushInstance := by
  have size (s : Store) : s.pushInstance.fields.size = s.fields.size + 1 := by
    simp [Store.pushInstance]
  constructor
  · exact h.renamed
  · exact h.frames
  · exact h.globals
  · exact h.bindings
  · rw [size, size, h.fields]
  · intro id
    rw [fieldsOf_pushInstance, fieldsOf_pushInstance]
    exact h.properties id
  · exact h.nextObject

theorem takeObject (h : s.Alpha p all s') : s.takeObject.Alpha p all s'.takeObject :=
  { h with nextObject := congrArg (· + 1) h.nextObject }

/-! ## Accesses -/

/-- The globals keep their names. -/
theorem ofScope_globals (h : s.Alpha p all s') : ofScope all Environment.globals.frame = identity := by
  have first := h.globals
  simp only [ofScope, Environment.globals, List.getD_eq_getElem?_getD, first, Option.getD_some]

end Store.Alpha

/-- The faults differ at most in the name of a variable that is missing. -/
inductive Fault.Alpha : Fault → Fault → Prop
  | same (f : Fault) : Fault.Alpha f f
  | missing (name name' : String) (hops : Nat) :
    Fault.Alpha (.mismatch (.missingVariable name hops)) (.mismatch (.missingVariable name' hops))

/-- Both sides give something alike, or both fail alike. -/
inductive Outcome.Alpha {α β : Type} (V : α → β → Prop) : Except Fault α → Except Fault β → Prop
  | ok {a : α} {b : β} : V a b → Outcome.Alpha V (.ok a) (.ok b)
  | error {f f' : Fault} : f.Alpha f' → Outcome.Alpha V (.error f) (.error f')

theorem Environment.getElem?_of_ancestor {e target : Environment} {hops : Nat}
    (h : e.ancestor hops = .ok target) : e.path[hops]? = some target.frame := by
  unfold ancestor at h
  split at h
  · next frame outer rest =>
    cases h
    have here : (e.path.drop hops)[0]? = e.path[hops + 0]? := List.getElem?_drop
    rw [rest] at here
    exact here.symm
  · cases h

namespace Store.Alpha

variable {s s' : Store} {v v' : Value}

/-- A read at a distance finds values that are alike, or nothing on both sides. -/
theorem getAt (h : s.Alpha p all s') (e : Environment) (hops : Nat) (name : String) :
    Outcome.Alpha (Value.Alpha p all) (s.getAt e hops name)
      (s'.getAt e hops (nameMap (along all e.path) (.scope hops) name)) := by
  unfold Store.getAt
  cases found : e.ancestor hops with
  | error f => exact .error (.same f)
  | ok target =>
    have here := Environment.getElem?_of_ancestor found
    simp only [bind, Except.bind, Renaming.nameMap_along all here]
    rcases (h.bindings target.frame name).none_or_some with
      ⟨unbound, unbound'⟩ | ⟨v, v', found, found', alike⟩
    · rw [unbound, unbound']
      exact .error (.missing _ _ _)
    · rw [found, found']
      exact .ok alike

/-- An assignment at a distance finds the same scope, or none on both sides. -/
theorem assignAt (h : s.Alpha p all s') (alike : v.Alpha p all v') (e : Environment) (hops : Nat)
    (name : String) :
    Outcome.Alpha (Store.Alpha p all) (s.assignAt e hops name v)
      (s'.assignAt e hops (nameMap (along all e.path) (.scope hops) name) v') := by
  unfold Store.assignAt Store.binderAt
  cases found : e.ancestor hops with
  | error f => exact .error (.same f)
  | ok target =>
    have here := Environment.getElem?_of_ancestor found
    simp only [bind, Except.bind, Renaming.nameMap_along all here,
      (h.bindings target.frame).contains_eq]
    cases (s.frame target.frame).contains name with
    | false => exact .error (.missing _ _ _)
    | true => exact .ok (h.setVariable alike target.frame name)

theorem getGlobal (h : s.Alpha p all s') (name : Name) :
    Outcome.Alpha (Value.Alpha p all) (s.get .globals name) (s'.get .globals name) := by
  have here := h.bindings Environment.globals.frame name.text
  rw [h.ofScope_globals, Renaming.perm_identity] at here
  have only (s : Store) : s.lookup? Environment.globals.path name.text =
      (s.frame Environment.globals.frame).get? name.text := by
    simp [Store.lookup?, Environment.path, Environment.globals]
  unfold Store.get
  rw [only, only]
  rcases here.none_or_some with ⟨unbound, unbound'⟩ | ⟨v, v', found, found', alike⟩
  · rw [unbound, unbound']
    exact .error (.same _)
  · rw [found, found']
    exact .ok alike

end Store.Alpha

theorem Store.assign_globals_of_not_contains {s : Store} {name : Name}
    (missing : (s.frame Environment.globals.frame).contains name.text = false) (v : Value) :
    s.assign .globals name v = .error (.runtime (.undefinedVariable name.text) name.line) := by
  have found : s.binder? Environment.globals.path name.text = none := by
    have missing : (s.frame 0).contains name.text = false := missing
    simp [Store.binder?, Environment.path, Environment.globals, missing]
  simp only [Store.assign, found]

namespace Store.Alpha

variable {s s' : Store} {v v' : Value}

/-- A name that keeps its name in the scope, which binds it, is assigned there on both sides. -/
theorem assignHere (h : s.Alpha p all s') (alike : v.Alpha p all v') {e : Environment} {name : Name}
    (stays : (ofScope all e.frame).perm name.text = name.text)
    (bound : (s.frame e.frame).contains name.text = true) :
    Outcome.Alpha (Store.Alpha p all) (s.assign e name v) (s'.assign e name v') := by
  have bound' := (h.bindings e.frame).contains_eq name.text
  have set := h.setVariable alike e.frame name.text
  rw [stays] at bound' set
  rw [assign_of_contains bound, assign_of_contains (bound'.trans bound)]
  exact .ok set

theorem assignGlobal (h : s.Alpha p all s') (alike : v.Alpha p all v') (name : Name) :
    Outcome.Alpha (Store.Alpha p all) (s.assign .globals name v) (s'.assign .globals name v') := by
  have stays : (ofScope all Environment.globals.frame).perm name.text = name.text := by
    rw [h.ofScope_globals, Renaming.perm_identity]
  by_cases bound : (s.frame Environment.globals.frame).contains name.text = true
  · exact h.assignHere alike stays bound
  · have missing := Bool.eq_false_iff.2 bound
    have missing' := (h.bindings Environment.globals.frame).contains_eq name.text
    rw [stays] at missing'
    rw [assign_globals_of_not_contains missing,
      assign_globals_of_not_contains (missing'.trans missing)]
    exact .error (.same _)

end Store.Alpha

end Lox
