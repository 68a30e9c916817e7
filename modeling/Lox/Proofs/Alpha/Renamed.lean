import Lox.Proofs.Alpha.Resolution
import Lox.Proofs.Scope.Declarations

/-!
# Another name for one variable

`Renames old new` says of two pieces of code that one local variable or parameter `old` of the first
is called `new` in the second: its declaration has the other name, and so have the references that
find it, which are those whose place is the scope of the declaration. All else is the same. Code
without the name `new` is alpha-equivalent to what it becomes so.
-/

namespace Lox

open Renaming (nameMap declared identity)

/-! ## One declaration and its references -/

mutual

/-- A variable that is declared in the statement has the other name. -/
inductive Stmt.Renames (old new : String) : Stmt Place → Stmt Place → Prop
  | block {body body' : List (Stmt Place)} :
    Stmt.BodyRenames old new body body' → Stmt.Renames old new (.block body) (.block body')
  | thenBranch {condition : Expr Place} {s s' : Stmt Place} {elseBranch : Option (Stmt Place)} :
    Stmt.Renames old new s s' →
    Stmt.Renames old new (.conditional condition s elseBranch) (.conditional condition s' elseBranch)
  | elseBranch {condition : Expr Place} {thenBranch s s' : Stmt Place} :
    Stmt.Renames old new s s' →
    Stmt.Renames old new (.conditional condition thenBranch (some s))
      (.conditional condition thenBranch (some s'))
  | loop {condition : Expr Place} {s s' : Stmt Place} :
    Stmt.Renames old new s s' → Stmt.Renames old new (.loop condition s) (.loop condition s')
  | function {d d' : FunctionDecl Place} :
    FunctionDecl.Renames old new d d' → Stmt.Renames old new (.function d) (.function d')
  | method {name : Name} {superclass : Option (Reference Place)} {d d' : FunctionDecl Place}
    (before after : List (FunctionDecl Place)) :
    FunctionDecl.Renames old new d d' →
    Stmt.Renames old new (.classDecl name superclass (before ++ d :: after))
      (.classDecl name superclass (before ++ d' :: after))

/-- A parameter of the function or a variable that is declared in its body has the other name. -/
inductive FunctionDecl.Renames (old new : String) : FunctionDecl Place → FunctionDecl Place → Prop
  | parameter {name : Name} {line : Nat} {body : List (Stmt Place)} (before after : List Name) :
    FunctionDecl.Renames old new ⟨name, before ++ ⟨old, line⟩ :: after, body⟩
      ⟨name, before ++ ⟨new, line⟩ :: after, Stmt.mapNamesAll (.only (.scope 0) old new) body⟩
  | body {name : Name} {params : List Name} {body body' : List (Stmt Place)} :
    Stmt.BodyRenames old new body body' →
    FunctionDecl.Renames old new ⟨name, params, body⟩ ⟨name, params, body'⟩

/-- The statements stand in a scope of their own, and a variable of that scope, or of one inside it,
has the other name. -/
inductive Stmt.BodyRenames (old new : String) : List (Stmt Place) → List (Stmt Place) → Prop
  | variable {line : Nat} {initializer : Option (Expr Place)} (before after : List (Stmt Place)) :
    Stmt.BodyRenames old new (before ++ .declare ⟨old, line⟩ initializer :: after)
      (Stmt.mapNamesAll (.only (.scope 0) old new) before ++
        .declare ⟨new, line⟩ (initializer.map (·.mapNames (.only (.scope 0) old new))) ::
          Stmt.mapNamesAll (.only (.scope 0) old new) after)
  | inside {ss ss' : List (Stmt Place)} :
    Stmt.RenamesIn old new ss ss' → Stmt.BodyRenames old new ss ss'

/-- A variable that is declared in one of the statements has the other name. -/
inductive Stmt.RenamesIn (old new : String) : List (Stmt Place) → List (Stmt Place) → Prop
  | one {s s' : Stmt Place} (before after : List (Stmt Place)) :
    Stmt.Renames old new s s' → Stmt.RenamesIn old new (before ++ s :: after) (before ++ s' :: after)

end

/-! ## The names -/

section

variable {allowed : String → Prop} {old new : String}

mutual

/-- Both names stand in the code, the one before and the other behind the change. -/
theorem Stmt.Renames.names : ∀ {s s' : Stmt Place}, s.Renames old new s' →
    (s.Shaped allowed → allowed old) ∧ (s'.Shaped allowed → allowed new)
  | _, _, .block body => body.names
  | .conditional _ _ none, _, .thenBranch inner =>
    ⟨fun h => inner.names.1 h.2.2, fun h => inner.names.2 h.2.2⟩
  | .conditional _ _ (some _), _, .thenBranch inner =>
    ⟨fun h => inner.names.1 h.2.1.2, fun h => inner.names.2 h.2.1.2⟩
  | _, _, .elseBranch inner =>
    ⟨fun h => inner.names.1 h.2.2.2, fun h => inner.names.2 h.2.2.2⟩
  | _, _, .loop inner => ⟨fun h => inner.names.1 h.2.2, fun h => inner.names.2 h.2.2⟩
  | _, _, .function inner => inner.names
  | _, _, .method before after inner => by
    have here {d : FunctionDecl Place}
        (shaped : FunctionDecl.ShapedAll allowed (before ++ d :: after)) : d.Shaped allowed :=
      FunctionDecl.shapedAll_iff.1 shaped d (List.mem_append_right before List.mem_cons_self)
    exact ⟨fun h => inner.names.1 (here h.2.2), fun h => inner.names.2 (here h.2.2)⟩

theorem FunctionDecl.Renames.names : ∀ {d d' : FunctionDecl Place}, d.Renames old new d' →
    (d.Shaped allowed → allowed old) ∧ (d'.Shaped allowed → allowed new)
  | _, _, .parameter before _ =>
    ⟨fun h => h.2.1 _ (List.mem_append_right before List.mem_cons_self),
      fun h => h.2.1 _ (List.mem_append_right before List.mem_cons_self)⟩
  | _, _, .body inner => ⟨fun h => inner.names.1 h.2.2, fun h => inner.names.2 h.2.2⟩

theorem Stmt.BodyRenames.names : ∀ {ss ss' : List (Stmt Place)}, Stmt.BodyRenames old new ss ss' →
    (Stmt.ShapedAll allowed ss → allowed old) ∧ (Stmt.ShapedAll allowed ss' → allowed new)
  | _, _, .variable before _ =>
    ⟨fun h => (Stmt.shapedAll_iff.1 h _ (List.mem_append_right before List.mem_cons_self)).1,
      fun h => (Stmt.shapedAll_iff.1 h _ (List.mem_append_right _ List.mem_cons_self)).1⟩
  | _, _, .inside inner => inner.names

theorem Stmt.RenamesIn.names : ∀ {ss ss' : List (Stmt Place)}, Stmt.RenamesIn old new ss ss' →
    (Stmt.ShapedAll allowed ss → allowed old) ∧ (Stmt.ShapedAll allowed ss' → allowed new)
  | _, _, .one before _ inner =>
    ⟨fun h => inner.names.1
        (Stmt.shapedAll_iff.1 h _ (List.mem_append_right before List.mem_cons_self)),
      fun h => inner.names.2
        (Stmt.shapedAll_iff.1 h _ (List.mem_append_right before List.mem_cons_self))⟩

end

end

/-! ## The names that are exchanged -/

namespace Renaming

/-- The two names are exchanged. -/
def exchange {old new : String} (named : IsVariable old) (named' : IsVariable new) : Renaming where
  perm := Equiv.swap old new
  this := Equiv.swap_apply_of_ne_of_ne named.1.symm named'.1.symm
  super := Equiv.swap_apply_of_ne_of_ne named.2.symm named'.2.symm

variable {old new : String} {named : IsVariable old} {named' : IsVariable new}

theorem exchange_old (named : IsVariable old) (named' : IsVariable new) :
    (exchange named named').perm old = new :=
  Equiv.swap_apply_left _ _

theorem exchange_other (named : IsVariable old) (named' : IsVariable new) {name : String}
    (ne : name ≠ old) (ne' : name ≠ new) : (exchange named named').perm name = name :=
  Equiv.swap_apply_of_ne_of_ne ne ne'

/-- All names stay, or the two are exchanged. -/
def Exchanges (named : IsVariable old) (named' : IsVariable new) (r : Renaming) : Prop :=
  r = identity ∨ r = exchange named named'

/-- Names other than the new one are kept apart. -/
theorem exchanges_apart (named : IsVariable old) (named' : IsVariable new) :
    Apart (Exchanges named named') (· ≠ new) where
  identity := .inl rfl
  this := named'.1.symm
  super := named'.2.symm
  apart := by
    -- a name that the exchange changes becomes the new one, which no other name does
    have other {a b : String} (hb : b ≠ new) (same : (exchange named named').perm a = b)
        (ha : a ≠ new) : a = b := by
      by_cases isOld : a = old
      · rw [isOld, exchange_old] at same
        exact absurd same.symm hb
      · rwa [exchange_other named named' isOld ha] at same
    intro r r' hr hr' a b ha hb same
    rcases hr with rfl | rfl <;> rcases hr' with rfl | rfl
    · exact same
    · exact (other ha same.symm hb).symm
    · exact other hb same ha
    · exact (exchange named named').perm.injective same

end Renaming

/-! ## Names given by a map -/

/-- The map gives allowed names what the renamings give them. -/
def NameMap.Agrees (f : NameMap) (allowed : String → Prop) (rs : List Renaming) : Prop :=
  ∀ place name, allowed name → f place name = nameMap rs place name

section

variable {p : Renaming → Prop} {allowed : String → Prop} {f : NameMap} {rs : List Renaming}

theorem NameMap.Agrees.enter (agrees : f.Agrees allowed rs) :
    f.enter.Agrees allowed (identity :: rs) := by
  intro place name ha
  rw [Renaming.nameMap_identity_cons]
  match place with
  | .global => exact agrees .global name ha
  | .scope 0 => rfl
  | .scope (hops + 1) => exact agrees (.scope hops) name ha

theorem NameMap.Agrees.enterClass (agrees : f.Agrees allowed rs) :
    ∀ superclass : Option (Reference Place),
      (f.enterClass superclass).Agrees allowed (Renaming.enterClass rs superclass)
  | none => agrees.enter
  | some _ => agrees.enter.enter

/-- A statement that is not a declaration declares no name that does not stay. -/
theorem Stmt.stays_of_not_isDeclaration {s : Stmt Place} (noName : s.isDeclaration = false) :
    ∀ name ∈ s.declared?, declared rs name = name := by
  rw [Stmt.declared?_of_not_isDeclaration noName]
  exact fun _ mem => nomatch mem

mutual

/-- A map that agrees with the renamings makes code that is alpha-equivalent, if the names that are
declared stay. -/
theorem Stmt.alpha_mapNames (isIdentity : p identity) :
    ∀ (s : Stmt Place) {f : NameMap} {rs : List Renaming}, f.Agrees allowed rs →
      s.Shaped allowed → (∀ name ∈ s.declared?, declared rs name = name) →
        s.Alpha p rs (s.mapNames f)
  | .expression value, f, rs, agrees, shaped, _ => by
    rw [Stmt.mapNames, Expr.mapNames_congr agrees value shaped]
    exact .expression
  | .print value, f, rs, agrees, shaped, _ => by
    rw [Stmt.mapNames, Expr.mapNames_congr agrees value shaped]
    exact .print
  | .declare name initializer, f, rs, agrees, shaped, stays => by
    have alpha : Stmt.Alpha p rs (.declare name initializer) _ := .declare
    rw [stays name.text rfl, ← Expr.mapNames?_congr agrees shaped.2] at alpha
    exact alpha
  | .block body, f, rs, agrees, shaped, _ =>
    .block identity isIdentity (Stmt.alpha_mapNamesInside isIdentity body agrees shaped)
  | .conditional condition thenBranch none, f, rs, agrees, shaped, _ => by
    rw [Stmt.mapNames, Expr.mapNames_congr agrees condition shaped.1]
    exact .ifThen (Stmt.alpha_mapNames isIdentity thenBranch agrees shaped.2.2
      (Stmt.stays_of_not_isDeclaration shaped.2.1))
  | .conditional condition thenBranch (some elseBranch), f, rs, agrees, shaped, _ => by
    rw [Stmt.mapNames, Expr.mapNames_congr agrees condition shaped.1]
    apply Stmt.Alpha.ifElse
    · exact Stmt.alpha_mapNames isIdentity thenBranch agrees shaped.2.1.2
        (Stmt.stays_of_not_isDeclaration shaped.2.1.1)
    · exact Stmt.alpha_mapNames isIdentity elseBranch agrees shaped.2.2.2
        (Stmt.stays_of_not_isDeclaration shaped.2.2.1)
  | .loop condition body, f, rs, agrees, shaped, _ => by
    rw [Stmt.mapNames, Expr.mapNames_congr agrees condition shaped.1]
    exact .loop (Stmt.alpha_mapNames isIdentity body agrees shaped.2.2
      (Stmt.stays_of_not_isDeclaration shaped.2.1))
  | .function ⟨name, params, body⟩, f, rs, agrees, shaped, stays =>
    .function (stays name.text rfl)
      (FunctionDecl.alpha_mapNames isIdentity ⟨name, params, body⟩ agrees shaped)
  | .ret line value, f, rs, agrees, shaped, _ => by
    have alpha : Stmt.Alpha p rs (.ret line value) _ := .ret
    rw [← Expr.mapNames?_congr agrees shaped] at alpha
    exact alpha
  | .classDecl name superclass methods, f, rs, agrees, shaped, stays => by
    have above : superclass.map (·.mapName f) = superclass.map (·.mapName (nameMap rs)) := by
      cases superclass with
      | none => rfl
      | some r => simp only [Option.map_some, Reference.mapName, agrees _ _ (shaped.2.1 r rfl)]
    rw [Stmt.mapNames, above]
    exact .classDecl (stays name.text rfl)
      (FunctionDecl.alphaAll_mapNames isIdentity methods (agrees.enterClass superclass) shaped.2.2)

theorem FunctionDecl.alpha_mapNames (isIdentity : p identity) :
    ∀ (d : FunctionDecl Place) {f : NameMap} {rs : List Renaming}, f.Agrees allowed rs →
      d.Shaped allowed → d.Alpha p rs (d.mapNames f)
  | ⟨name, params, body⟩, f, rs, agrees, shaped => by
    have alpha : FunctionDecl.Alpha p rs ⟨name, params, body⟩ _ :=
      .mk identity isIdentity (Stmt.alpha_mapNamesInside isIdentity body agrees shaped.2.2)
    have unchanged : params.map identity.param = params := List.map_id params
    rwa [unchanged] at alpha

theorem FunctionDecl.alphaAll_mapNames (isIdentity : p identity) :
    ∀ (ds : List (FunctionDecl Place)) {f : NameMap} {rs : List Renaming}, f.Agrees allowed rs →
      FunctionDecl.ShapedAll allowed ds →
        FunctionDecl.AlphaAll p rs ds (FunctionDecl.mapNamesAll f ds)
  | [], _, _, _, _ => .nil
  | d :: ds, _, _, agrees, shaped =>
    .cons (FunctionDecl.alpha_mapNames isIdentity d agrees shaped.1)
      (FunctionDecl.alphaAll_mapNames isIdentity ds agrees shaped.2)

/-- In a scope of their own, the names that statements declare stay. -/
theorem Stmt.alpha_mapNamesInside (isIdentity : p identity) :
    ∀ (ss : List (Stmt Place)) {f : NameMap} {rs : List Renaming}, f.Agrees allowed rs →
      Stmt.ShapedAll allowed ss →
        Stmt.AlphaAll p (identity :: rs) ss (Stmt.mapNamesAll f.enter ss)
  | [], _, _, _, _ => .nil
  | s :: ss, _, _, agrees, shaped =>
    .cons (Stmt.alpha_mapNames isIdentity s agrees.enter shaped.1 fun _ _ => rfl)
      (Stmt.alpha_mapNamesInside isIdentity ss agrees shaped.2)

end

/-- Statements that follow each other, if the names that they declare stay. -/
theorem Stmt.alphaAll_mapNames (isIdentity : p identity) (ss : List (Stmt Place))
    (agrees : f.Agrees allowed rs) (shaped : Stmt.ShapedAll allowed ss)
    (stays : ∀ s ∈ ss, ∀ name ∈ s.declared?, declared rs name = name) :
    Stmt.AlphaAll p rs ss (Stmt.mapNamesAll f ss) := by
  induction ss with
  | nil => exact .nil
  | cons s ss ih =>
    apply Stmt.AlphaAll.cons
    · exact Stmt.alpha_mapNames isIdentity s agrees shaped.1 (stays s List.mem_cons_self)
    · exact ih shaped.2 fun s mem => stays s (List.mem_cons_of_mem _ mem)

end

/-! ## Renamed code is alpha-equivalent -/

section

variable {old new : String} (named : IsVariable old) (named' : IsVariable new)

/-- In the scope of the variable, a map that gives the variable its new name agrees with the exchange
on other names than the new one. -/
theorem Renaming.agrees_exchange {rs : List Renaming} (same : ∀ r ∈ rs, r = identity) :
    (NameMap.only (.scope 0) old new).Agrees (· ≠ new) (exchange named named' :: rs) := by
  intro place name ne
  cases place with
  | global => rfl
  | scope hops =>
    cases hops with
    | zero =>
      by_cases isOld : name = old
      · rw [isOld]
        simp only [NameMap.only, and_self, if_true]
        exact (exchange_old named named').symm
      · simp only [NameMap.only, isOld, and_false, if_false]
        exact (exchange_other named named' isOld ne).symm
    | succ hops =>
      have outside : nameMap rs (.scope hops) name = name := by rw [nameMap_eq_id same]
      simp only [NameMap.only, Place.scope.injEq, Nat.add_one_ne_zero, false_and, if_false]
      exact outside.symm

theorem Renaming.map_param_exchange {params : List Name} (ne : ∀ x ∈ params, x.text ≠ old)
    (ne' : ∀ x ∈ params, x.text ≠ new) :
    params.map (exchange named named').param = params := by
  apply (List.map_congr_left fun x mem => ?_).trans (List.map_id params)
  simp only [Renaming.param, exchange_other named named' (ne x mem) (ne' x mem), id]

/-- The statements are in the scope of the variable and do not declare it. -/
theorem Stmt.alphaAll_only {rs : List Renaming} (same : ∀ r ∈ rs, r = identity)
    {ss : List (Stmt Place)} (shaped : Stmt.ShapedAll (· ≠ new) ss)
    (once : ∀ s ∈ ss, s.declared? ≠ some old) :
    Stmt.AlphaAll (Renaming.Exchanges named named') (Renaming.exchange named named' :: rs) ss
      (Stmt.mapNamesAll (.only (.scope 0) old new) ss) := by
  apply Stmt.alphaAll_mapNames (.inl rfl) ss (Renaming.agrees_exchange named named' same) shaped
  intro s mem name isName
  have ne' := (Stmt.shapedAll_iff.1 shaped s mem).declared?_allowed name isName
  have ne : name ≠ old := by
    intro isOld
    exact once s mem (isOld ▸ isName)
  exact Renaming.exchange_other named named' ne ne'

mutual

/-- **Code with another name for one variable is alpha-equivalent.** -/
theorem Stmt.Renames.alpha : ∀ {s s' : Stmt Place}, s.Renames old new s' →
    ∀ {c : Context} {rs : List Renaming}, (∀ r ∈ rs, r = identity) → s.Shaped (· ≠ new) →
      s.violations c = [] → s.Alpha (Renaming.Exchanges named named') rs s'
  | _, _, .block body, _, _, same, shaped, ok => by
    obtain ⟨r, isAllowed, -, alpha⟩ := body.alpha same (List.cons_ne_nil _ _) shaped ok
    exact .block r isAllowed alpha
  | .conditional condition s none, _, .thenBranch inner, _, rs, same, shaped, ok => by
    have alpha := inner.alpha same shaped.2.2 (List.append_eq_nil_iff.1 ok).2
    have whole : Stmt.Alpha _ rs (.conditional condition s none) _ := .ifThen alpha
    rwa [Renaming.nameMap_eq_id same, Expr.mapNames_id] at whole
  | .conditional condition s (some other), _, .thenBranch inner, _, rs, same, shaped, ok => by
    obtain ⟨okBefore, -⟩ := List.append_eq_nil_iff.1 ok
    have alpha := inner.alpha same shaped.2.1.2 (List.append_eq_nil_iff.1 okBefore).2
    have whole : Stmt.Alpha _ rs (.conditional condition s (some other)) _ :=
      .ifElse alpha (Stmt.Alpha.same (.inl rfl) same other)
    rwa [Renaming.nameMap_eq_id same, Expr.mapNames_id] at whole
  | .conditional condition other (some s), _, .elseBranch inner, _, rs, same, shaped, ok => by
    have alpha := inner.alpha same shaped.2.2.2 (List.append_eq_nil_iff.1 ok).2
    have whole : Stmt.Alpha _ rs (.conditional condition other (some s)) _ :=
      .ifElse (Stmt.Alpha.same (.inl rfl) same other) alpha
    rwa [Renaming.nameMap_eq_id same, Expr.mapNames_id] at whole
  | .loop condition s, _, .loop inner, _, rs, same, shaped, ok => by
    have alpha := inner.alpha same shaped.2.2 (List.append_eq_nil_iff.1 ok).2
    have whole : Stmt.Alpha _ rs (.loop condition s) _ := .loop alpha
    rwa [Renaming.nameMap_eq_id same, Expr.mapNames_id] at whole
  | .function ⟨name, params, body⟩, _, .function inner, _, rs, same, shaped, ok => by
    obtain ⟨okBefore, okBody⟩ := List.append_eq_nil_iff.1 ok
    have okParams := (List.append_eq_nil_iff.1 okBefore).2
    have stays : declared rs name.text = name.text := by
      rw [declared, Renaming.nameMap_eq_id same]
    exact .function stays (inner.alpha same shaped okParams rfl okBody)
  | .classDecl name superclass _, _, @Stmt.Renames.method _ _ _ _ ⟨_, _, _⟩ _ before after inner,
      _, rs, same, shaped, ok => by
    obtain ⟨-, okMethods⟩ := List.append_eq_nil_iff.1 ok
    obtain ⟨okParams, okBody⟩ :=
      List.append_eq_nil_iff.1 (FunctionDecl.violations_of_mem okMethods)
    have shaped := FunctionDecl.shapedAll_iff.1 shaped.2.2 _
      (List.mem_append_right before List.mem_cons_self)
    have inClass := Renaming.enterClass_identity same superclass
    have alpha := inner.alpha inClass shaped okParams rfl okBody
    have methods := (FunctionDecl.AlphaAll.same (.inl rfl) inClass before).append
      (.cons alpha (FunctionDecl.AlphaAll.same (.inl rfl) inClass after))
    have stays : declared rs name.text = name.text := by
      rw [declared, Renaming.nameMap_eq_id same]
    have whole : Stmt.Alpha _ rs (.classDecl name superclass _) _ := .classDecl stays methods
    rw [Renaming.nameMap_eq_id same] at whole
    cases superclass <;> exact whole

theorem FunctionDecl.Renames.alpha : ∀ {d d' : FunctionDecl Place}, d.Renames old new d' →
    ∀ {c : Context} {scopes : Scopes} {rs : List Renaming}, (∀ r ∈ rs, r = identity) →
      d.Shaped (· ≠ new) → paramViolations scopes.enter d.params = [] →
      c.scopes = scopes.enterFunction d.params → Stmt.violationsAll c d.body = [] →
        d.Alpha (Renaming.Exchanges named named') rs d'
  | ⟨name, _, body⟩, _, @FunctionDecl.Renames.parameter _ _ _ line _ before after, c, scopes, rs,
      same, shaped, okParams, entered, okBody => by
    have once := params_once (List.cons_ne_nil _ _) okParams
    have isParam : ⟨old, line⟩ ∈ before ++ ⟨old, line⟩ :: after :=
      List.mem_append_right before List.mem_cons_self
    have isDeclared : c.scopes.isDeclared old = true := by
      rw [entered]
      exact Scopes.isDeclared_enterFunction scopes isParam
    have alpha := Stmt.alphaAll_only named named' same shaped.2.2
      (Stmt.none_redeclared shaped.2.2 okBody isDeclared)
    have whole : FunctionDecl.Alpha _ rs ⟨name, before ++ ⟨old, line⟩ :: after, body⟩ _ :=
      .mk (Renaming.exchange named named') (.inr rfl) alpha
    have others : ∀ ps : List Name, ps ⊆ before ++ after →
        ps.map (Renaming.exchange named named').param = ps := by
      intro ps inside
      apply Renaming.map_param_exchange
      · exact fun x mem => once x (inside mem)
      · intro x mem
        apply shaped.2.1 x
        rcases List.mem_append.1 (inside mem) with first | second
        · exact List.mem_append_left _ first
        · exact List.mem_append_right _ (List.mem_cons_of_mem _ second)
    rw [List.map_append, List.map_cons, others before (List.subset_append_left _ _),
      others after (List.subset_append_right _ _), Renaming.param, Renaming.exchange_old] at whole
    exact whole
  | ⟨name, params, _⟩, _, .body inner, c, scopes, rs, same, shaped, _, entered, okBody => by
    have inside : c.scopes ≠ [] := by
      rw [entered, Scopes.enterFunction_eq]
      exact List.cons_ne_nil _ _
    obtain ⟨r, isAllowed, stays, alpha⟩ := inner.alpha same inside shaped.2.2 okBody
    have whole : FunctionDecl.Alpha _ rs ⟨name, params, _⟩ _ := .mk r isAllowed alpha
    have unchanged : params.map r.param = params := by
      apply (List.map_congr_left fun x mem => ?_).trans (List.map_id params)
      have isDeclared : c.scopes.isDeclared x.text = true := by
        rw [entered]
        exact Scopes.isDeclared_enterFunction scopes mem
      simp only [Renaming.param, stays x.text isDeclared (shaped.2.1 x mem), id]
    rwa [unchanged] at whole

theorem Stmt.BodyRenames.alpha : ∀ {ss ss' : List (Stmt Place)}, Stmt.BodyRenames old new ss ss' →
    ∀ {c : Context} {rs : List Renaming}, (∀ r ∈ rs, r = identity) → c.scopes ≠ [] →
      Stmt.ShapedAll (· ≠ new) ss → Stmt.violationsAll c ss = [] →
        ∃ r, Renaming.Exchanges named named' r ∧
          (∀ name, c.scopes.isDeclared name = true → name ≠ new → r.perm name = name) ∧
            Stmt.AlphaAll (Renaming.Exchanges named named') (r :: rs) ss ss'
  | _, _, @Stmt.BodyRenames.variable _ _ line initializer before after, c, rs, same, inside, shaped,
      ok => by
    have once := Stmt.declared_once inside shaped ok rfl
    have shapedOf := Stmt.shapedAll_iff.1 shaped
    have ofBefore := Stmt.alphaAll_only named named' same
      (Stmt.shapedAll_iff.2 fun s mem => shapedOf s (List.mem_append_left _ mem))
      (fun s mem => once s (List.mem_append_left _ mem))
    have ofAfter := Stmt.alphaAll_only named named' same
      (Stmt.shapedAll_iff.2 fun s mem =>
        shapedOf s (List.mem_append_right _ (List.mem_cons_of_mem _ mem)))
      (fun s mem => once s (List.mem_append_right _ mem))
    have ofDeclaration : Stmt.Alpha (Renaming.Exchanges named named')
        (Renaming.exchange named named' :: rs) (.declare ⟨old, line⟩ initializer) _ := .declare
    have shapedDeclaration := shapedOf _ (List.mem_append_right before List.mem_cons_self)
    have agrees := Renaming.agrees_exchange named named' same
    have newName : declared (Renaming.exchange named named' :: rs) old = new :=
      Renaming.exchange_old named named'
    rw [newName, ← Expr.mapNames?_congr agrees shapedDeclaration.2] at ofDeclaration
    have alpha := ofBefore.append (.cons ofDeclaration ofAfter)
    refine ⟨Renaming.exchange named named', .inr rfl, ?_, alpha⟩
    intro name isDeclared ne'
    apply Renaming.exchange_other named named' _ ne'
    intro isOld
    rw [isOld] at isDeclared
    exact Stmt.none_redeclared shaped ok isDeclared _
      (List.mem_append_right before List.mem_cons_self) rfl
  | _, _, .inside inner, _, _, same, _, shaped, ok =>
    ⟨identity, .inl rfl, fun _ _ _ => rfl, inner.alpha (Renaming.cons_identity same) shaped ok⟩

theorem Stmt.RenamesIn.alpha : ∀ {ss ss' : List (Stmt Place)}, Stmt.RenamesIn old new ss ss' →
    ∀ {c : Context} {rs : List Renaming}, (∀ r ∈ rs, r = identity) → Stmt.ShapedAll (· ≠ new) ss →
      Stmt.violationsAll c ss = [] → Stmt.AlphaAll (Renaming.Exchanges named named') rs ss ss'
  | _, _, .one before after inner, _, _, same, shaped, ok => by
    obtain ⟨c, ok⟩ := Stmt.violations_of_mem ok
    have shaped := Stmt.shapedAll_iff.1 shaped _ (List.mem_append_right _ List.mem_cons_self)
    exact (Stmt.AlphaAll.same (.inl rfl) same before).append
      (.cons (inner.alpha same shaped ok) (Stmt.AlphaAll.same (.inl rfl) same after))

end

end

end Lox
