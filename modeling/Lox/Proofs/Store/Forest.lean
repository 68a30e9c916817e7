import Lox.Eval.Machine
import Lox.Proofs.Store.Chains

/-!
# Forests of scopes

A forest is what comes of opening scopes, alone or inside of others, and of defining and assigning in
them. `Built` says how it is made, one operation after the other. Every scope of a forest has a number
of its own, and the scope around it is one of the forest and older (`Grown`).

The laws of access (`AccessLaws`) relate the two ways in which a variable is found, and say what an
assignment changes and who sees it.
-/

namespace Lox

/-- Scopes in the order in which they were opened, with the variables of all of them. -/
structure Forest where
  scopes : Array Environment
  store : Store

namespace Forest

/-- The forest with one more scope, which lies inside of those given. -/
def opened (f : Forest) (outer : List FrameId) : Forest :=
  ⟨f.scopes.push ⟨f.store.frames.size, outer⟩, f.store.pushFrame Bindings.empty⟩

/-- A forest that some sequence of operations makes. One that fails leaves it as it is. -/
inductive Built : Forest → Prop
  | empty : Built ⟨#[], Store.empty⟩
  | new {f : Forest} : Built f → Built (f.opened [])
  | within {f : Forest} {e : Environment} : Built f → e ∈ f.scopes → Built (f.opened e.path)
  | define {f : Forest} {e : Environment} (name : String) (value : Value) : Built f → e ∈ f.scopes →
    Built { f with store := f.store.define e name value }
  | assign {f : Forest} {e : Environment} {name : Name} {value : Value} {store : Store} :
    Built f → e ∈ f.scopes → f.store.assign e name value = .ok store → Built { f with store := store }
  | assignAt {f : Forest} {e : Environment} {hops : Nat} {name : String} {value : Value}
    {store : Store} : Built f → e ∈ f.scopes → f.store.assignAt e hops name value = .ok store →
    Built { f with store := store }

/-- The scopes are numbered in order, and the one around a scope is older. -/
structure Grown (f : Forest) : Prop where
  size : f.store.frames.size = f.scopes.size
  numbered : ∀ (i : Nat) (e : Environment), f.scopes[i]? = some e → e.frame = i
  older : ∀ e ∈ f.scopes, ∀ outer, e.enclosing? = some outer →
    outer ∈ f.scopes ∧ outer.frame < e.frame

/-- An assignment in the target has changed what is found there, through whichever scope it is found,
and nothing else. -/
structure Shows (f : Forest) (s : Store) (target : Environment) (name : String) (value : Value) :
    Prop where
  rebinds : f.store.Rebinds s target.frame name value
  getAt : ∀ e ∈ f.scopes, ∀ hops other, s.getAt e hops other =
    if e.up? hops = some target ∧ other = name then .ok value else f.store.getAt e hops other
  get : ∀ e ∈ f.scopes, ∀ (x : Name) hops, f.store.Nearest e x.text hops → s.get e x =
    if e.up? hops = some target ∧ x.text = name then .ok value else f.store.get e x
  unbound : ∀ e ∈ f.scopes, ∀ x : Name, (¬ ∃ hops, f.store.Nearest e x.text hops) →
    s.get e x = f.store.get e x

/-- How a variable of a scope is read and assigned. -/
structure AccessLaws (f : Forest) (e : Environment) (x : Name) : Prop where
  /-- By name, the variable is the one at the least distance. -/
  get : ∀ hops, f.store.Nearest e x.text hops →
    f.store.get e x = f.store.getAt e hops x.text ∧ ∃ v, f.store.get e x = .ok v
  get_fails : (∃ fault, f.store.get e x = .error fault) ↔ ¬ ∃ hops, f.store.Nearest e x.text hops
  get_fault : ∀ fault, f.store.get e x = .error fault →
    fault = .runtime (.undefinedVariable x.text) x.line
  assign : ∀ hops v, f.store.Nearest e x.text hops →
    f.store.assign e x v = f.store.assignAt e hops x.text v
  assign_ok : ∀ v s, f.store.assign e x v = .ok s →
    ∃ hops, f.store.Nearest e x.text hops ∧ f.store.assignAt e hops x.text v = .ok s
  assign_fails : ∀ v fault, f.store.assign e x v = .error fault ↔ f.store.get e x = .error fault
  /-- At a distance, the variable is that of the one scope reached. -/
  getAt : ∀ hops v, f.store.getAt e hops x.text = .ok v ↔ ∃ target ∈ f.scopes,
    e.up? hops = some target ∧ (f.store.frame target.frame).get? x.text = some v
  assignAt : ∀ hops v, (∃ s, f.store.assignAt e hops x.text v = .ok s) ↔ ∃ target ∈ f.scopes,
    e.up? hops = some target ∧ (f.store.frame target.frame).contains x.text = true
  missed : ∀ hops, ¬ f.store.BindsAt e x.text hops → ∃ cause,
    f.store.getAt e hops x.text = .error (.mismatch cause) ∧
    ∀ v, f.store.assignAt e hops x.text v = .error (.mismatch cause)
  /-- An assignment that succeeds is seen wherever its scope is. -/
  assigned : ∀ hops v s, f.store.assignAt e hops x.text v = .ok s →
    ∃ target ∈ f.scopes, e.up? hops = some target ∧ f.Shows s target x.text v
  /-- One that fails changes nothing. -/
  failed : ∀ v (m : Machine), m.store = f.store → m.current = e →
    (∀ stop m', Run.assign e x v m = .error stop m' → m' = m) ∧
    ∀ hops stop m', Run.assignAt hops x.text v m = .error stop m' → m' = m

/-! ## What an operation preserves -/

section

variable {f : Forest} {e target : Environment} {hops : Nat}

theorem Grown.lt (h : f.Grown) (mem : e ∈ f.scopes) : e.frame < f.scopes.size := by
  obtain ⟨i, found⟩ := Array.mem_iff_getElem?.1 mem
  rw [h.numbered i e found]
  exact (Array.getElem?_eq_some_iff.1 found).1

/-- No two scopes have one number. -/
theorem Grown.eq_of_frame (h : f.Grown) {e' : Environment} (mem : e ∈ f.scopes)
    (mem' : e' ∈ f.scopes) (same : e.frame = e'.frame) : e = e' := by
  obtain ⟨i, found⟩ := Array.mem_iff_getElem?.1 mem
  obtain ⟨j, found'⟩ := Array.mem_iff_getElem?.1 mem'
  have number : i = j := by
    rw [← h.numbered i e found, same, h.numbered j e' found']
  subst number
  exact Option.some.inj (found.symm.trans found')

theorem Grown.up?_mem (h : f.Grown) (mem : e ∈ f.scopes) (up : e.up? hops = some target) :
    target ∈ f.scopes := by
  induction hops generalizing e with
  | zero =>
    cases up
    exact mem
  | succ hops ih =>
    obtain ⟨outer, link, up⟩ := Option.bind_eq_some_iff.1 up
    exact ih (h.older e mem outer link).1 up

theorem Grown.opened (h : f.Grown) (outer : List FrameId)
    (around : ∀ id rest, outer = id :: rest → (⟨id, rest⟩ : Environment) ∈ f.scopes) :
    (f.opened outer).Grown where
  size := by
    simp only [Forest.opened, Store.size_pushFrame, Array.size_push, h.size]
  numbered i e found := by
    simp only [Forest.opened, Array.getElem?_push] at found
    split at found
    · next last =>
      cases found
      exact h.size.trans last.symm
    · exact h.numbered i e found
  older e mem link same := by
    simp only [Forest.opened, Array.mem_push] at mem ⊢
    rcases mem with old | rfl
    · obtain ⟨there, lt⟩ := h.older e old link same
      exact ⟨.inl there, lt⟩
    · cases outer with
      | nil => cases same
      | cons id rest =>
        cases same
        have there := around id rest rfl
        refine ⟨.inl there, ?_⟩
        dsimp only
        rw [h.size]
        exact h.lt there

theorem Grown.setVariable (h : f.Grown) (id : FrameId) (name : String) (value : Value) :
    Grown { f with store := f.store.setVariable id name value } where
  size := (Store.size_setVariable _ _ _ _).trans h.size
  numbered := h.numbered
  older := h.older

/-- Each operation gives a forest that has grown. -/
theorem Built.grown (h : f.Built) : f.Grown := by
  induction h with
  | empty =>
    refine ⟨rfl, fun i e found => ?_, fun e mem => ?_⟩
    · simp at found
    · simp at mem
  | new _ ih =>
    apply ih.opened
    intro id rest empty
    cases empty
  | within _ mem ih =>
    apply ih.opened
    intro id rest same
    cases same
    exact mem
  | define name value _ _ ih => exact ih.setVariable _ name value
  | assign _ _ ok ih =>
    unfold Store.assign at ok
    split at ok
    · cases ok
      exact ih.setVariable _ _ _
    · cases ok
  | assignAt _ _ ok ih =>
    obtain ⟨_, _, _, rfl⟩ := Store.assignAt_eq_ok.1 ok
    exact ih.setVariable _ _ _

/-! ## The laws -/

/-- What has changed is seen through each scope that leads to the target. -/
theorem Grown.shows (h : f.Grown) {s : Store} {name : String} {value : Value}
    (mem : target ∈ f.scopes) (rebinds : f.store.Rebinds s target.frame name value) :
    f.Shows s target name value := by
  have reaches {e : Environment} (inside : e ∈ f.scopes) (hops : Nat) :
      (∃ found, e.up? hops = some found ∧ found.frame = target.frame) ↔ e.up? hops = some target := by
    constructor
    · rintro ⟨found, up, same⟩
      rw [up, h.eq_of_frame (h.up?_mem inside up) mem same]
    · intro up
      exact ⟨target, up, rfl⟩
  have getAt (e : Environment) (inside : e ∈ f.scopes) (hops : Nat) (other : String) :
      s.getAt e hops other =
        if e.up? hops = some target ∧ other = name then .ok value else f.store.getAt e hops other := by
    rw [rebinds.getAt]
    simp only [reaches inside hops]
  refine ⟨rebinds, getAt, ?_, ?_⟩
  · intro e inside x hops nearest
    rw [Store.get_of_nearest (rebinds.nearest nearest), getAt e inside,
      Store.get_of_nearest nearest]
  · intro e inside x none
    have unbound (hops : Nat) : ¬ f.store.BindsAt e x.text hops :=
      fun binds => none (Store.exists_nearest binds)
    rw [Store.get_of_unbound unbound,
      Store.get_of_unbound fun hops binds => unbound hops (rebinds.bindsAt.1 binds)]

/-- **The laws of access to variables.** In every forest that operations on scopes make, a search by
name from a scope finds what an access at the least distance finds at which the name is bound, for
reading and for assigning, and fails exactly if there is no such distance. An access at a distance
succeeds exactly if the chain of scopes has so many links and the scope they lead to binds the name.
An assignment that succeeds changes one binding and the size of no scope, and each scope that leads to
the binding sees the change; one that fails changes nothing. -/
theorem Built.access_laws (h : f.Built) (mem : e ∈ f.scopes) (x : Name) : f.AccessLaws e x := by
  have grown := h.grown
  have unbound (none : ¬ ∃ hops, f.store.Nearest e x.text hops) (hops : Nat) :
      ¬ f.store.BindsAt e x.text hops := fun binds => none (Store.exists_nearest binds)
  have found (hops : Nat) (nearest : f.store.Nearest e x.text hops) :
      f.store.get e x = f.store.getAt e hops x.text ∧ ∃ v, f.store.get e x = .ok v := by
    obtain ⟨v, ok⟩ := Store.getAt_isOk.2 nearest.binds
    have same := Store.get_of_nearest nearest
    exact ⟨same, v, same.trans ok⟩
  have missing (fault : Fault) (failed : f.store.get e x = .error fault) :
      ¬ ∃ hops, f.store.Nearest e x.text hops := by
    rintro ⟨hops, nearest⟩
    obtain ⟨-, v, ok⟩ := found hops nearest
    rw [ok] at failed
    cases failed
  constructor
  case get => exact found
  case get_fails =>
    constructor
    · rintro ⟨fault, failed⟩
      exact missing fault failed
    · intro none
      exact ⟨_, Store.get_of_unbound (unbound none)⟩
  case get_fault =>
    intro fault failed
    have same := Store.get_of_unbound (unbound (missing fault failed))
    rw [same] at failed
    cases failed
    rfl
  case assign =>
    intro hops v nearest
    exact Store.assign_of_nearest nearest v
  case assign_ok =>
    intro v s ok
    by_cases bound : ∃ hops, f.store.Nearest e x.text hops
    · obtain ⟨hops, nearest⟩ := bound
      exact ⟨hops, nearest, (Store.assign_of_nearest nearest v).symm.trans ok⟩
    · rw [Store.assign_of_unbound (unbound bound)] at ok
      cases ok
  case assign_fails =>
    intro v fault
    by_cases bound : ∃ hops, f.store.Nearest e x.text hops
    · obtain ⟨hops, nearest⟩ := bound
      obtain ⟨s, ok⟩ := (Store.assignAt_isOk (v := v)).2 nearest.binds
      obtain ⟨-, value, read⟩ := found hops nearest
      rw [Store.assign_of_nearest nearest, ok, read]
      constructor <;> intro impossible <;> cases impossible
    · rw [Store.assign_of_unbound (unbound bound), Store.get_of_unbound (unbound bound)]
      constructor <;> intro same <;> cases same <;> rfl
  case getAt =>
    intro hops v
    rw [Store.getAt_eq_ok]
    constructor
    · rintro ⟨target, up, read⟩
      exact ⟨target, grown.up?_mem mem up, up, read⟩
    · rintro ⟨target, -, up, read⟩
      exact ⟨target, up, read⟩
  case assignAt =>
    intro hops v
    rw [Store.assignAt_isOk]
    constructor
    · rintro ⟨target, up, bound⟩
      exact ⟨target, grown.up?_mem mem up, up, bound⟩
    · rintro ⟨target, -, up, bound⟩
      exact ⟨target, up, bound⟩
  case missed =>
    intro hops none
    exact ⟨_, Store.getAt_eq_error none, Store.assignAt_eq_error none⟩
  case assigned =>
    intro hops v s ok
    obtain ⟨target, up, rebinds⟩ := Store.rebinds_of_assignAt ok
    have inside := grown.up?_mem mem up
    exact ⟨target, inside, up, grown.shows inside rebinds⟩
  case failed =>
    intro v m _ _
    constructor
    · intro stop m' failed
      unfold Run.assign at failed
      split at failed <;> cases failed
      rfl
    · intro hops stop m' failed
      unfold Run.assignAt at failed
      split at failed <;> cases failed
      rfl

end

theorem access_laws_inner :
    let outer : Environment := ⟨0, []⟩
    let inner : Environment := ⟨1, outer.path⟩
    let opened := ((⟨#[], Store.empty⟩ : Forest).opened []).opened outer.path
    let f : Forest := { opened with store := opened.store.define outer "a" .nil }
    f.Built ∧ inner ∈ f.scopes ∧ f.AccessLaws inner ⟨"a", 1⟩ := by
  intro outer inner opened f
  have first : outer ∈ ((⟨#[], Store.empty⟩ : Forest).opened []).scopes := Array.mem_push_self
  have alone : ((⟨#[], Store.empty⟩ : Forest).opened []).Built := .new .empty
  have two : opened.Built := alone.within first
  have built : f.Built := two.define "a" .nil (Array.mem_push_of_mem _ first)
  have mem : inner ∈ f.scopes := Array.mem_push_self
  exact ⟨built, mem, built.access_laws mem ⟨"a", 1⟩⟩

end Forest

end Lox
