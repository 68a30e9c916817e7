import Lox.Proofs.Scope.Scoped
import Lox.Proofs.Syntax.Names
import Mathlib.Logic.Equiv.Basic

/-!
# Code that differs in the names of variables

A *renaming* says what the variables of one scope are called in another program. Two pieces of code
are alpha-equivalent under the renamings of the scopes around them, innermost first, if each
reference is renamed as the scope says in which it finds its variable, and each scope that the code
opens renames its own variables in some way that is allowed. Functions, classes, properties and
methods keep their names.
-/

namespace Lox

/-- The other names of the variables of one scope. -/
structure Renaming where
  perm : Equiv.Perm String
  this : perm thisName = thisName
  super : perm superName = superName

namespace Renaming

/-- All names stay. -/
def identity : Renaming := ⟨Equiv.refl String, rfl, rfl⟩

@[simp] theorem perm_identity (name : String) : identity.perm name = name := rfl

/-- The parameter under its other name. -/
def param (r : Renaming) (p : Name) : Name := ⟨r.perm p.text, p.line⟩

/-- The other names of references, by the renamings of the scopes around them. -/
def nameMap (rs : List Renaming) : NameMap
  | .scope hops, name => (rs.getD hops identity).perm name
  | .global, name => name

/-- The other name of what is declared in the innermost scope. -/
def declared (rs : List Renaming) (name : String) : String := nameMap rs (.scope 0) name

/-- The renamings of the scopes around the methods of a class. -/
def enterClass (rs : List Renaming) (superclass : Option (Reference Place)) : List Renaming :=
  match superclass with
  | none => identity :: rs
  | some _ => identity :: identity :: rs

theorem nameMap_identity_cons (rs : List Renaming) :
    nameMap (identity :: rs) = (nameMap rs).enter := by
  funext place name
  cases place with
  | global => rfl
  | scope hops => cases hops <;> rfl

theorem getD_identity {rs : List Renaming} (same : ∀ r ∈ rs, r = identity) (n : Nat) :
    rs.getD n identity = identity := by
  rw [List.getD_eq_getElem?_getD]
  cases found : rs[n]? with
  | none => rfl
  | some r => exact same r (List.mem_of_getElem? found)

/-- If no scope has other names, no reference gets one. -/
theorem nameMap_eq_id {rs : List Renaming} (same : ∀ r ∈ rs, r = identity) :
    nameMap rs = fun _ name => name := by
  funext place name
  cases place with
  | global => rfl
  | scope hops => simp only [nameMap, getD_identity same, perm_identity]

theorem nameMap_this (rs : List Renaming) (place : Place) :
    nameMap rs place thisName = thisName := by
  cases place with
  | global => rfl
  | scope hops => exact (rs.getD hops identity).this

theorem nameMap_super (rs : List Renaming) (place : Place) :
    nameMap rs place superName = superName := by
  cases place with
  | global => rfl
  | scope hops => exact (rs.getD hops identity).super

end Renaming

open Renaming (nameMap declared)

variable {p : Renaming → Prop} {rs : List Renaming}

mutual

/-- The statements differ only in the names of variables, where the scopes around them have these
renamings and the scopes in them have allowed ones. -/
inductive Stmt.Alpha (p : Renaming → Prop) : List Renaming → Stmt Place → Stmt Place → Prop
  | expression {rs : List Renaming} {value : Expr Place} :
    Stmt.Alpha p rs (.expression value) (.expression (value.mapNames (nameMap rs)))
  | print {rs : List Renaming} {value : Expr Place} :
    Stmt.Alpha p rs (.print value) (.print (value.mapNames (nameMap rs)))
  | declare {rs : List Renaming} {name : Name} {initializer : Option (Expr Place)} :
    Stmt.Alpha p rs (.declare name initializer)
      (.declare ⟨declared rs name.text, name.line⟩ (initializer.map (·.mapNames (nameMap rs))))
  | block {rs : List Renaming} {body body' : List (Stmt Place)} (r : Renaming) :
    p r → Stmt.AlphaAll p (r :: rs) body body' → Stmt.Alpha p rs (.block body) (.block body')
  | ifThen {rs : List Renaming} {condition : Expr Place} {thenBranch thenBranch' : Stmt Place} :
    Stmt.Alpha p rs thenBranch thenBranch' →
    Stmt.Alpha p rs (.conditional condition thenBranch none)
      (.conditional (condition.mapNames (nameMap rs)) thenBranch' none)
  | ifElse {rs : List Renaming} {condition : Expr Place}
    {thenBranch thenBranch' elseBranch elseBranch' : Stmt Place} :
    Stmt.Alpha p rs thenBranch thenBranch' → Stmt.Alpha p rs elseBranch elseBranch' →
    Stmt.Alpha p rs (.conditional condition thenBranch (some elseBranch))
      (.conditional (condition.mapNames (nameMap rs)) thenBranch' (some elseBranch'))
  | loop {rs : List Renaming} {condition : Expr Place} {body body' : Stmt Place} :
    Stmt.Alpha p rs body body' →
    Stmt.Alpha p rs (.loop condition body) (.loop (condition.mapNames (nameMap rs)) body')
  | function {rs : List Renaming} {d d' : FunctionDecl Place} :
    declared rs d.name.text = d.name.text → FunctionDecl.Alpha p rs d d' →
    Stmt.Alpha p rs (.function d) (.function d')
  | ret {rs : List Renaming} {line : Nat} {value : Option (Expr Place)} :
    Stmt.Alpha p rs (.ret line value) (.ret line (value.map (·.mapNames (nameMap rs))))
  | classDecl {rs : List Renaming} {name : Name} {superclass : Option (Reference Place)}
    {methods methods' : List (FunctionDecl Place)} :
    declared rs name.text = name.text →
    FunctionDecl.AlphaAll p (Renaming.enterClass rs superclass) methods methods' →
    Stmt.Alpha p rs (.classDecl name superclass methods)
      (.classDecl name (superclass.map (·.mapName (nameMap rs))) methods')

/-- The functions differ only in the names of variables. -/
inductive FunctionDecl.Alpha (p : Renaming → Prop) :
    List Renaming → FunctionDecl Place → FunctionDecl Place → Prop
  | mk {rs : List Renaming} {name : Name} {params : List Name} {body body' : List (Stmt Place)}
    (r : Renaming) :
    p r → Stmt.AlphaAll p (r :: rs) body body' →
    FunctionDecl.Alpha p rs ⟨name, params, body⟩ ⟨name, params.map r.param, body'⟩

/-- Each statement differs from the one in its place only in the names of variables. -/
inductive Stmt.AlphaAll (p : Renaming → Prop) :
    List Renaming → List (Stmt Place) → List (Stmt Place) → Prop
  | nil {rs : List Renaming} : Stmt.AlphaAll p rs [] []
  | cons {rs : List Renaming} {s s' : Stmt Place} {ss ss' : List (Stmt Place)} :
    Stmt.Alpha p rs s s' → Stmt.AlphaAll p rs ss ss' → Stmt.AlphaAll p rs (s :: ss) (s' :: ss')

/-- Each function differs from the one in its place only in the names of variables. -/
inductive FunctionDecl.AlphaAll (p : Renaming → Prop) :
    List Renaming → List (FunctionDecl Place) → List (FunctionDecl Place) → Prop
  | nil {rs : List Renaming} : FunctionDecl.AlphaAll p rs [] []
  | cons {rs : List Renaming} {d d' : FunctionDecl Place} {ds ds' : List (FunctionDecl Place)} :
    FunctionDecl.Alpha p rs d d' → FunctionDecl.AlphaAll p rs ds ds' →
    FunctionDecl.AlphaAll p rs (d :: ds) (d' :: ds')

end

/-! ## Lists -/

theorem Stmt.AlphaAll.append {before before' after after' : List (Stmt Place)}
    (first : Stmt.AlphaAll p rs before before') (second : Stmt.AlphaAll p rs after after') :
    Stmt.AlphaAll p rs (before ++ after) (before' ++ after') := by
  induction before generalizing before' with
  | nil =>
    cases first
    exact second
  | cons s before ih =>
    cases first with
    | cons head tail => exact .cons head (ih tail)

theorem FunctionDecl.AlphaAll.append {before before' after after' : List (FunctionDecl Place)}
    (first : FunctionDecl.AlphaAll p rs before before')
    (second : FunctionDecl.AlphaAll p rs after after') :
    FunctionDecl.AlphaAll p rs (before ++ after) (before' ++ after') := by
  induction before generalizing before' with
  | nil =>
    cases first
    exact second
  | cons d before ih =>
    cases first with
    | cons head tail => exact .cons head (ih tail)

/-! ## Marks -/

mutual

/-- Alpha-equivalent code has the same places, in the same order. -/
theorem Stmt.Alpha.marks : ∀ {rs : List Renaming} {s s' : Stmt Place}, s.Alpha p rs s' →
    s'.marks = s.marks
  | _, _, _, .expression | _, _, _, .print => Expr.marks_mapNames _
  | _, _, _, .declare | _, _, _, .ret => Expr.marks?_mapNames _
  | _, _, _, .block _ _ body => body.marks
  | _, _, _, .ifThen thenBranch => by
    simp only [Stmt.marks, Expr.marks_mapNames, thenBranch.marks]
  | _, _, _, .ifElse thenBranch elseBranch => by
    simp only [Stmt.marks, Expr.marks_mapNames, thenBranch.marks, elseBranch.marks]
  | _, _, _, .loop body => by simp only [Stmt.marks, Expr.marks_mapNames, body.marks]
  | _, _, _, .function _ body => body.marks
  | _, .classDecl _ superclass _, _, .classDecl _ methods => by
    have same := methods.marks
    cases superclass with
    | none => exact same
    | some r => exact congrArg (List.cons r.mark) same

theorem FunctionDecl.Alpha.marks : ∀ {rs : List Renaming} {d d' : FunctionDecl Place},
    d.Alpha p rs d' → d'.marks = d.marks
  | _, _, _, .mk _ _ body => body.marks

theorem Stmt.AlphaAll.marks : ∀ {rs : List Renaming} {ss ss' : List (Stmt Place)},
    Stmt.AlphaAll p rs ss ss' → Stmt.marksAll ss' = Stmt.marksAll ss
  | _, _, _, .nil => rfl
  | _, _, _, .cons head tail => by simp only [Stmt.marksAll, head.marks, tail.marks]

theorem FunctionDecl.AlphaAll.marks : ∀ {rs : List Renaming} {ds ds' : List (FunctionDecl Place)},
    FunctionDecl.AlphaAll p rs ds ds' → FunctionDecl.marksAll ds' = FunctionDecl.marksAll ds
  | _, _, _, .nil => rfl
  | _, _, _, .cons head tail => by simp only [FunctionDecl.marksAll, head.marks, tail.marks]

end

/-! ## The same code -/

theorem Renaming.enterClass_identity (same : ∀ r ∈ rs, r = Renaming.identity)
    (superclass : Option (Reference Place)) :
    ∀ r ∈ Renaming.enterClass rs superclass, r = Renaming.identity := by
  cases superclass <;> simpa [Renaming.enterClass] using same

theorem Renaming.cons_identity (same : ∀ r ∈ rs, r = Renaming.identity) :
    ∀ r ∈ Renaming.identity :: rs, r = Renaming.identity := by
  simpa using same

mutual

/-- Where no names differ, code is alpha-equivalent to itself. -/
theorem Stmt.Alpha.same (allowed : p Renaming.identity) :
    ∀ {rs : List Renaming}, (∀ r ∈ rs, r = Renaming.identity) →
    ∀ s : Stmt Place, s.Alpha p rs s := by
  intro rs same s
  have unchanged : nameMap rs = fun _ name => name := Renaming.nameMap_eq_id same
  have values (e : Expr Place) : e.mapNames (nameMap rs) = e := by rw [unchanged, e.mapNames_id]
  have values? (e? : Option (Expr Place)) : e?.map (·.mapNames (nameMap rs)) = e? := by
    cases e? with
    | none => rfl
    | some e => exact congrArg some (values e)
  have names (name : String) : declared rs name = name := by rw [declared, unchanged]
  match s with
  | .expression value =>
    have alpha : Stmt.Alpha p rs (.expression value) _ := .expression
    rwa [values] at alpha
  | .print value =>
    have alpha : Stmt.Alpha p rs (.print value) _ := .print
    rwa [values] at alpha
  | .declare name initializer =>
    have alpha : Stmt.Alpha p rs (.declare name initializer) _ := .declare
    rwa [values?, names] at alpha
  | .block body =>
    exact .block .identity allowed (Stmt.AlphaAll.same allowed (Renaming.cons_identity same) body)
  | .conditional condition thenBranch none =>
    have alpha : Stmt.Alpha p rs (.conditional condition thenBranch none) _ :=
      .ifThen (Stmt.Alpha.same allowed same thenBranch)
    rwa [values] at alpha
  | .conditional condition thenBranch (some elseBranch) =>
    have alpha : Stmt.Alpha p rs (.conditional condition thenBranch (some elseBranch)) _ :=
      .ifElse (Stmt.Alpha.same allowed same thenBranch) (Stmt.Alpha.same allowed same elseBranch)
    rwa [values] at alpha
  | .loop condition body =>
    have alpha : Stmt.Alpha p rs (.loop condition body) _ :=
      .loop (Stmt.Alpha.same allowed same body)
    rwa [values] at alpha
  | .function declaration =>
    exact .function (names _) (FunctionDecl.Alpha.same allowed same declaration)
  | .ret line value =>
    have alpha : Stmt.Alpha p rs (.ret line value) _ := .ret
    rwa [values?] at alpha
  | .classDecl name superclass methods =>
    have alpha : Stmt.Alpha p rs (.classDecl name superclass methods) _ :=
      .classDecl (names _)
        (FunctionDecl.AlphaAll.same allowed (Renaming.enterClass_identity same superclass) methods)
    rw [unchanged] at alpha
    cases superclass <;> exact alpha

theorem FunctionDecl.Alpha.same (allowed : p Renaming.identity) :
    ∀ {rs : List Renaming}, (∀ r ∈ rs, r = Renaming.identity) →
    ∀ d : FunctionDecl Place, d.Alpha p rs d
  | rs, same, ⟨name, params, body⟩ => by
    have alpha : FunctionDecl.Alpha p rs ⟨name, params, body⟩ _ :=
      .mk .identity allowed (Stmt.AlphaAll.same allowed (Renaming.cons_identity same) body)
    have unchanged : params.map Renaming.identity.param = params := List.map_id params
    rwa [unchanged] at alpha

theorem Stmt.AlphaAll.same (allowed : p Renaming.identity) :
    ∀ {rs : List Renaming}, (∀ r ∈ rs, r = Renaming.identity) →
    ∀ ss : List (Stmt Place), Stmt.AlphaAll p rs ss ss
  | _, _, [] => .nil
  | _, same, s :: ss => .cons (Stmt.Alpha.same allowed same s) (Stmt.AlphaAll.same allowed same ss)

theorem FunctionDecl.AlphaAll.same (allowed : p Renaming.identity) :
    ∀ {rs : List Renaming}, (∀ r ∈ rs, r = Renaming.identity) →
    ∀ ds : List (FunctionDecl Place), FunctionDecl.AlphaAll p rs ds ds
  | _, _, [] => .nil
  | _, same, d :: ds =>
    .cons (FunctionDecl.Alpha.same allowed same d) (FunctionDecl.AlphaAll.same allowed same ds)

end

end Lox
