import Lox.Proofs.Outline.Distances
import Lox.Proofs.Parser.Numbers
import Lox.Proofs.Session.Expressions
import Lox.Proofs.Session.Scopes

/-!
# References of one process

All texts that a process reads draw the numbers of their references from one counter, whichever session
they are for and whether or not they are in error. A session that loads a text adds its distances to a
table, by the numbers as words; the table is what a reference is looked up in when it is evaluated, also
long after. As long as the words last, no two references have the same one. So what is loaded later
leaves all entries as they are, and a function that an earlier text has declared still reads them.
-/

open scoped List

namespace Lox

/-- Numbers that have been taken from the counter one after the other are all different. -/
theorem nodup_of_taken {ids : List RefId} {first last : RefId}
    (taken : ids <+~ List.Ico first last) : ids.Nodup := by
  obtain ⟨ids', perm, sublist⟩ := taken
  exact perm.nodup_iff.1 (sublist.nodup (List.Ico.nodup first last))

/-! ## Tables of distances -/

/-- The number of a reference as a word. -/
def RefId.word (id : RefId) : UInt64 := UInt64.ofNat id

theorem RefId.word_injective {id id' : RefId} (h : id < UInt64.size) (h' : id' < UInt64.size)
    (same : id.word = id'.word) : id = id' := by
  have numbers := congrArg UInt64.toNat same
  simp only [word, UInt64.toNat_ofNat'] at numbers
  rwa [Nat.mod_eq_of_lt h, Nat.mod_eq_of_lt h'] at numbers

/-- The distances that have been loaded, by the words of the references. -/
abbrev DistanceTable := UInt64 → Option Nat

namespace DistanceTable

/-- The table before anything is loaded. -/
def empty : DistanceTable := fun _ => none

/-- The table with further entries. An entry takes the place of one that has the same word. -/
def load (t : DistanceTable) (entries : List (RefId × Nat)) : DistanceTable :=
  entries.foldl (fun t entry => Function.update t entry.1.word (some entry.2)) t

/-- Where a reference is looked up: at its distance, and without one among the globals. -/
def place (t : DistanceTable) (id : RefId) : Place :=
  match t id.word with
  | some hops => .scope hops
  | none => .global

theorem load_of_new {t : DistanceTable} {entries : List (RefId × Nat)} {w : UInt64}
    (new : ∀ entry ∈ entries, entry.1.word ≠ w) : t.load entries w = t w := by
  induction entries generalizing t with
  | nil => rfl
  | cons entry rest ih =>
    rw [load, List.foldl_cons, ← load, ih fun e mem => new e (List.mem_cons_of_mem _ mem)]
    exact Function.update_of_ne (new entry List.mem_cons_self).symm _ _

theorem load_of_agree {t : DistanceTable} {entries : List (RefId × Nat)} {w : UInt64} {hops : Nat}
    (agree : ∀ entry ∈ entries, entry.1.word = w → entry.2 = hops)
    (some_entry : t w = some hops ∨ ∃ entry ∈ entries, entry.1.word = w) :
    t.load entries w = some hops := by
  induction entries generalizing t with
  | nil => simpa [load] using some_entry
  | cons entry rest ih =>
    rw [load, List.foldl_cons, ← load]
    apply ih fun e mem => agree e (List.mem_cons_of_mem _ mem)
    by_cases here : entry.1.word = w
    · left
      rw [here, Function.update_self, agree entry List.mem_cons_self here]
    · rw [Function.update_of_ne (Ne.symm here)]
      rcases some_entry with there | ⟨e, mem, found⟩
      · exact .inl there
      · rcases List.mem_cons.1 mem with rfl | later
        · exact absurd found here
        · exact .inr ⟨e, later, found⟩

/-- Loaded marks whose words are new and all different are found at their places. -/
theorem place_load {t : DistanceTable} {marks : List (RefId × Place)} {mark : RefId × Place}
    (distinct : (marks.map fun mark => mark.1.word).Nodup) (mem : mark ∈ marks)
    (new : t mark.1.word = none) : (t.load (distances marks)).place mark.1 = mark.2 := by
  obtain ⟨id, place⟩ := mark
  have only {id' : RefId} {hops : Nat} (entry : (id', hops) ∈ distances marks)
      (same : id'.word = id.word) : place = .scope hops := by
    have both := List.inj_on_of_nodup_map distinct (mem_distances.1 entry) mem same
    cases both
    rfl
  cases place with
  | global =>
    have absent : ∀ entry ∈ distances marks, entry.1.word ≠ id.word :=
      fun entry mem same => Place.noConfusion (only mem same)
    simp only [DistanceTable.place, load_of_new absent, new]
  | scope hops =>
    have agree : ∀ entry ∈ distances marks, entry.1.word = id.word → entry.2 = hops :=
      fun entry mem same => (Place.scope.inj (only mem same)).symm
    have found := load_of_agree agree (.inr ⟨(id, hops), mem_distances.2 mem, rfl⟩ : t _ = _ ∨ _)
    simp only [DistanceTable.place, found]

end DistanceTable

/-! ## Texts that are loaded -/

/-- What an accepted program is resolved to. -/
theorem located_of_checkProgram {r : SourceReading (List (Stmt RefId))}
    {located : List (Stmt (RefId × Place))} (accepted : checkProgram r = .ok located) :
    located = Stmt.locateAll [] r.result := by
  obtain ⟨-, resolved⟩ := checkProgram_eq_ok.1 accepted
  exact (resolve_eq_ok.1 resolved).2

/-- What an accepted expression is resolved to. -/
theorem located_of_checkExpression {r : SourceReading (Option (Expr RefId))}
    {located : Expr (RefId × Place)} (accepted : checkExpression r = .ok located) :
    ∃ e, r.result = some e ∧ located = e.locate [] := by
  obtain ⟨-, e, result, resolved⟩ := checkExpression_eq_ok.1 accepted
  exact ⟨e, result, (resolveExpression_eq_ok.1 resolved).2⟩

/-- A text that has been accepted, with the numbers of its references. -/
inductive Loaded where
  | program (statements : List (Stmt (RefId × Place)))
  | expression (e : Expr (RefId × Place))

namespace Loaded

/-- The references, with the places that resolution has given them. -/
def marks : Loaded → List (RefId × Place)
  | program statements => Stmt.marksAll statements
  | expression e => e.marks

/-- The text as it runs where each reference is looked up by its number. -/
def lookedUp (place : RefId → Place) : Loaded → Node
  | program statements => .statements (Stmt.mapMarksAll (fun _ mark => place mark.1) statements)
  | expression e => .expression (e.mapMarks fun _ mark => place mark.1)

/-- The text as it runs. -/
def node : Loaded → Node
  | program statements => .statements (runnable statements)
  | expression e => .expression (runnableExpr e)

/-- The text runs as it is if each reference is found at the place that it has been given. -/
theorem lookedUp_eq_node {place : RefId → Place} {l : Loaded}
    (found : ∀ mark ∈ l.marks, place mark.1 = mark.2) : l.lookedUp place = l.node := by
  cases l with
  | program statements =>
    exact congrArg Node.statements (Stmt.mapMarksAll_congr statements fun mark mem _ => found mark mem)
  | expression e =>
    exact congrArg Node.expression (e.mapMarks_congr fun mark mem _ => found mark mem)

end Loaded

namespace Request

/-- The references in the tree that the text is parsed to, if the request has a text. -/
def references (r : Request) (firstRef : RefId) : List RefId :=
  match r with
  | .run _ source | .check source => Stmt.marksAll (readProgram source firstRef).result
  | .evaluate _ source => Expr.marks? (readExpression source firstRef).result
  | .takeOutput | .setClock _ => []

/-- What is loaded for the request, if its text is accepted. -/
def loads? (r : Request) (firstRef : RefId) : Option Loaded :=
  match r with
  | .run _ source =>
    match checkProgram (readProgram source firstRef) with
    | .ok located => some (.program located)
    | .error _ => none
  | .evaluate _ source =>
    match checkExpression (readExpression source firstRef) with
    | .ok located => some (.expression located)
    | .error _ => none
  | .check _ | .takeOutput | .setClock _ => none

/-- The references of what is loaded for the request. -/
def marks (r : Request) (firstRef : RefId) : List (RefId × Place) :=
  match r.loads? firstRef with
  | some l => l.marks
  | none => []

variable {r : Request} {firstRef : RefId} {l : Loaded}

/-- The references of what is loaded are those of the tree. -/
theorem marks_of_loads? (loaded : r.loads? firstRef = some l) :
    l.marks.map Prod.fst = r.references firstRef := by
  cases r with
  | check source | takeOutput | setClock clock => cases loaded
  | run fuel source =>
    unfold loads? at loaded
    dsimp only at loaded
    split at loaded
    · next located accepted =>
      cases loaded
      rw [located_of_checkProgram accepted]
      exact Stmt.marksAll_locateAll [] _
    · cases loaded
  | evaluate fuel source =>
    unfold loads? at loaded
    dsimp only at loaded
    split at loaded
    · next located accepted =>
      cases loaded
      obtain ⟨e, result, rfl⟩ := located_of_checkExpression accepted
      rw [references, result]
      exact e.marks_locate []
    · cases loaded

theorem marks_subperm (r : Request) (firstRef : RefId) :
    (r.marks firstRef).map Prod.fst <+~ r.references firstRef := by
  unfold marks
  split
  · next l loaded => rw [marks_of_loads? loaded]
  · exact List.nil_subperm

/-- What the request runs is what it loads, whatever its references are numbered from. -/
theorem Reads.loads? {n : Node} (reads : r.Reads n) (firstRef : RefId) :
    ∃ l, r.loads? firstRef = some l ∧ l.node = n := by
  cases r with
  | check source | takeOutput | setClock clock => exact reads.elim
  | run fuel source =>
    obtain ⟨other, located, accepted, rfl⟩ := reads
    obtain ⟨located', accepted', same⟩ := checkProgram_renumbered accepted firstRef
    refine ⟨.program located', ?_, congrArg Node.statements same⟩
    simp [Request.loads?, accepted']
  | evaluate fuel source =>
    obtain ⟨other, located, accepted, rfl⟩ := reads
    obtain ⟨located', accepted', same⟩ := checkExpression_renumbered accepted firstRef
    refine ⟨.expression located', ?_, congrArg Node.expression same⟩
    simp [Request.loads?, accepted']

end Request

theorem WatchedSession.nextRef_perform {α : Type} (s : WatchedSession) (act : Watched α) :
    (s.perform act).2.nextRef = s.nextRef := by
  unfold perform
  cases act s.watch <;> rfl

/-- The references of what a request parses have numbers that it takes from the counter. -/
theorem WatchedSession.references_taken (s : WatchedSession) (r : Request) :
    s.nextRef ≤ (s.serve r).2.nextRef ∧
      r.references s.nextRef <+~ List.Ico s.nextRef (s.serve r).2.nextRef := by
  cases r with
  | run fuel source =>
    have after : (s.serve (.run fuel source)).2.nextRef = (readProgram source s.nextRef).nextRef := by
      simp only [serve]
      cases checkProgram (readProgram source s.nextRef) with
      | error reports => rfl
      | ok statements => exact nextRef_perform _ _
    rw [after]
    exact parseProgram_numbers _ _
  | evaluate fuel source =>
    have after : (s.serve (.evaluate fuel source)).2.nextRef =
        (readExpression source s.nextRef).nextRef := by
      simp only [serve]
      cases checkExpression (readExpression source s.nextRef) with
      | error reports => rfl
      | ok e => exact nextRef_perform _ _
    rw [after]
    exact parseExpression_numbers _ _
  | check source => exact parseProgram_numbers _ _
  | takeOutput | setClock clock => exact ⟨Nat.le_refl _, List.nil_subperm⟩

/-! ## Processes -/

/-- A process: the counter, all references that are left of what has been parsed, and for each
session its watch, what it has loaded and its table. -/
structure Process where
  nextRef : RefId
  references : List RefId
  watch : Nat → Watch
  loaded : Nat → List Loaded
  table : Nat → DistanceTable

namespace Process

/-- A process that has read nothing. -/
def start (sinks : Nat → Sink) (clocks : Nat → Clock) : Process where
  nextRef := 0
  references := []
  watch i := (WatchedSession.start (sinks i) (clocks i)).watch
  loaded _ := []
  table _ := .empty

/-- A session of the process, with the counter that all of them have. -/
def session (p : Process) (i : Nat) : WatchedSession := ⟨p.watch i, p.nextRef⟩

/-- The process after one of its sessions has served a request. -/
def serve (p : Process) (i : Nat) (r : Request) : Process :=
  let served := ((p.session i).serve r).2
  { nextRef := served.nextRef
    references := p.references ++ r.references p.nextRef
    watch := Function.update p.watch i served.watch
    loaded := Function.update p.loaded i ((r.loads? p.nextRef).toList ++ p.loaded i)
    table := Function.update p.table i ((p.table i).load (distances (r.marks p.nextRef))) }

/-- The process after requests to its sessions. -/
def after (p : Process) (steps : List (Nat × Request)) : Process :=
  steps.foldl (fun p step => p.serve step.1 step.2) p

variable {p : Process} {i : Nat}

/-! ### The numbers of a process -/

theorem references_taken (p : Process) (i : Nat) (r : Request) :
    p.nextRef ≤ (p.serve i r).nextRef ∧
      r.references p.nextRef <+~ List.Ico p.nextRef (p.serve i r).nextRef :=
  (p.session i).references_taken r

theorem nextRef_le_after (p : Process) (steps : List (Nat × Request)) :
    p.nextRef ≤ (p.after steps).nextRef := by
  induction steps generalizing p with
  | nil => exact Nat.le_refl _
  | cons step rest ih => exact Nat.le_trans (p.references_taken step.1 step.2).1 (ih _)

/-- What holds of the numbers of a process whose words have not run out. -/
structure Numbered (p : Process) : Prop where
  /-- All references have numbers of their own. -/
  distinct : p.references <+~ List.Ico 0 p.nextRef
  /-- The entries of the tables are for numbers that have been taken. -/
  entries : ∀ i w hops, p.table i w = some hops → ∃ id < p.nextRef, id.word = w
  /-- What has been loaded is found at its places. -/
  found : ∀ i, ∀ l ∈ p.loaded i, ∀ mark ∈ l.marks,
    mark.1 < p.nextRef ∧ (p.table i).place mark.1 = mark.2

/-- No entry of `p` is changed. -/
def Keeps (p q : Process) : Prop :=
  ∀ i id, id < p.nextRef → q.table i id.word = p.table i id.word

theorem numbered_start (sinks : Nat → Sink) (clocks : Nat → Clock) :
    (start sinks clocks).Numbered where
  distinct := List.nil_subperm
  entries _ _ _ entry := nomatch entry
  found _ _ mem := nomatch mem

theorem Keeps.refl (p : Process) : p.Keeps p := fun _ _ _ => rfl

theorem Keeps.trans {q q' : Process} (first : p.Keeps q) (second : q.Keeps q')
    (onward : p.nextRef ≤ q.nextRef) : p.Keeps q' :=
  fun i id taken => (second i id (Nat.lt_of_lt_of_le taken onward)).trans (first i id taken)

theorem Keeps.place {q : Process} (h : p.Keeps q) {id : RefId} (taken : id < p.nextRef) :
    (q.table i).place id = (p.table i).place id := by
  rw [DistanceTable.place, DistanceTable.place, h i id taken]

section

variable {r : Request}

/-- The numbers of what is loaded have just been taken. -/
theorem mem_marks {mark : RefId × Place} (mem : mark ∈ r.marks p.nextRef) :
    p.nextRef ≤ mark.1 ∧ mark.1 < (p.serve i r).nextRef := by
  have mem' : mark.1 ∈ (r.marks p.nextRef).map Prod.fst := List.mem_map_of_mem mem
  have taken := (p.references_taken i r).2.subset ((r.marks_subperm p.nextRef).subset mem')
  exact List.Ico.mem.1 taken

variable (few : (p.serve i r).nextRef ≤ UInt64.size)
include few

/-- Their words are new. -/
theorem word_ne {mark : RefId × Place} (mem : mark ∈ r.marks p.nextRef) {id : RefId}
    (taken : id < p.nextRef) : mark.1.word ≠ id.word := by
  intro same
  obtain ⟨new, bound⟩ := mem_marks (i := i) mem
  have before : id < mark.1 := Nat.lt_of_lt_of_le taken new
  have small : mark.1 < UInt64.size := Nat.lt_of_lt_of_le bound few
  have equal := RefId.word_injective small (Nat.lt_trans before small) same
  exact Nat.ne_of_gt before equal

/-- Their words are all different. -/
theorem words_nodup : ((r.marks p.nextRef).map fun mark => mark.1.word).Nodup := by
  have numbers : ((r.marks p.nextRef).map Prod.fst).Nodup := by
    exact nodup_of_taken ((r.marks_subperm p.nextRef).trans (p.references_taken i r).2)
  have small {mark : RefId × Place} (mem : mark ∈ r.marks p.nextRef) : mark.1 < UInt64.size :=
    Nat.lt_of_lt_of_le (mem_marks (i := i) mem).2 few
  rw [List.nodup_map_iff_inj_on (List.Nodup.of_map _ numbers)]
  intro mark mem mark' mem' same
  have equal := RefId.word_injective (small mem) (small mem') same
  exact List.inj_on_of_nodup_map numbers mem mem' equal

/-- A session that serves a request keeps all entries of the process. -/
theorem keeps_serve : p.Keeps (p.serve i r) := by
  intro j id taken
  by_cases here : j = i
  · subst here
    have new : ∀ entry ∈ distances (r.marks p.nextRef), entry.1.word ≠ id.word :=
      fun entry mem => word_ne few (mem_distances.1 mem) taken
    simp only [serve, Function.update_self]
    exact DistanceTable.load_of_new new
  · simp only [serve, Function.update_of_ne here]

theorem Numbered.serve (h : p.Numbered) : (p.serve i r).Numbered := by
  obtain ⟨onward, taken⟩ := p.references_taken i r
  have later {id : RefId} (before : id < p.nextRef) : id < (p.serve i r).nextRef :=
    Nat.lt_of_lt_of_le before onward
  refine ⟨?distinct, ?entries, ?found⟩
  case distinct =>
    have both := h.distinct.append taken
    rwa [List.Ico.append_consecutive (Nat.zero_le _) onward] at both
  case entries =>
    intro j w hops entry
    by_cases here : j = i
    · subst here
      simp only [Process.serve, Function.update_self] at entry
      by_cases new : ∃ mark ∈ distances (r.marks p.nextRef), mark.1.word = w
      · obtain ⟨mark, mem, same⟩ := new
        exact ⟨mark.1, (mem_marks (mem_distances.1 mem)).2, same⟩
      · have old : ∀ mark ∈ distances (r.marks p.nextRef), mark.1.word ≠ w :=
          fun mark mem same => new ⟨mark, mem, same⟩
        rw [DistanceTable.load_of_new old] at entry
        obtain ⟨id, before, same⟩ := h.entries _ _ _ entry
        exact ⟨id, later before, same⟩
    · simp only [Process.serve, Function.update_of_ne here] at entry
      obtain ⟨id, before, same⟩ := h.entries _ _ _ entry
      exact ⟨id, later before, same⟩
  case found =>
    intro j l mem mark marked
    have old (loaded : l ∈ p.loaded j) :
        mark.1 < (p.serve i r).nextRef ∧ ((p.serve i r).table j).place mark.1 = mark.2 := by
      obtain ⟨before, place⟩ := h.found j l loaded mark marked
      exact ⟨later before, ((keeps_serve few).place before).trans place⟩
    by_cases here : j = i
    · subst here
      simp only [Process.serve, Function.update_self] at mem
      rcases List.mem_append.1 mem with new | loaded
      · have same : r.marks p.nextRef = l.marks := by
          simp only [Request.marks, Option.mem_toList.1 new]
        rw [← same] at marked
        refine ⟨(mem_marks marked).2, ?_⟩
        have unused : p.table j mark.1.word = none := by
          cases entry : p.table j mark.1.word with
          | none => rfl
          | some hops =>
            obtain ⟨id, before, equal⟩ := h.entries _ _ _ entry
            exact absurd equal.symm (word_ne few marked before)
        simp only [Process.serve, Function.update_self]
        exact DistanceTable.place_load (words_nodup few) marked unused
      · exact old loaded
    · simp only [Process.serve, Function.update_of_ne here] at mem
      exact old mem

end

theorem after_append (p : Process) (steps later : List (Nat × Request)) :
    p.after (steps ++ later) = (p.after steps).after later :=
  List.foldl_append

/-- What is done in a process keeps its numbers distinct and all entries of its tables. -/
theorem Numbered.after (h : p.Numbered) {steps : List (Nat × Request)}
    (few : (p.after steps).nextRef ≤ UInt64.size) :
    (p.after steps).Numbered ∧ p.Keeps (p.after steps) := by
  induction steps generalizing p with
  | nil => exact ⟨h, .refl p⟩
  | cons step rest ih =>
    have onward := (p.references_taken step.1 step.2).1
    have fewer : (p.serve step.1 step.2).nextRef ≤ UInt64.size :=
      Nat.le_trans (nextRef_le_after _ rest) few
    obtain ⟨numbered, keeps⟩ := ih (h.serve fewer) few
    exact ⟨numbered, (keeps_serve fewer).trans keeps onward⟩

/-! ### The code of a process -/

/-- The texts that a session has loaded, as they run where references are looked up in the table. -/
def code (p : Process) (i : Nat) (t : DistanceTable) (n : Node) : Prop :=
  ∃ l ∈ p.loaded i, l.lookedUp t.place = n

/-- The requests to one of the sessions. -/
def requestsTo (i : Nat) (steps : List (Nat × Request)) : List Request :=
  (steps.filter (·.1 = i)).map Prod.snd

theorem mem_requestsTo {steps : List (Nat × Request)} {r : Request} :
    r ∈ requestsTo i steps ↔ (i, r) ∈ steps := by
  simp [requestsTo]

theorem loaded_serve (p : Process) (j : Nat) (r : Request) {l : Loaded} (loaded : l ∈ p.loaded i) :
    l ∈ (p.serve j r).loaded i := by
  by_cases here : i = j
  · subst here
    simp only [serve, Function.update_self]
    exact List.mem_append_right _ loaded
  · simpa only [serve, Function.update_of_ne here] using loaded

theorem loaded_after {steps : List (Nat × Request)} {l : Loaded} (loaded : l ∈ p.loaded i) :
    l ∈ (p.after steps).loaded i := by
  induction steps generalizing p with
  | nil => exact loaded
  | cons step rest ih => exact ih (p.loaded_serve step.1 step.2 loaded)

/-- What runs for the requests to a session is what it has loaded. -/
theorem loaded_of_reads {steps : List (Nat × Request)} {r : Request} {n : Node}
    (mem : (i, r) ∈ steps) (reads : r.Reads n) : ∃ l ∈ (p.after steps).loaded i, l.node = n := by
  induction steps generalizing p with
  | nil => simp at mem
  | cons step rest ih =>
    rcases List.mem_cons.1 mem with rfl | later
    · obtain ⟨l, loads, same⟩ := reads.loads? p.nextRef
      have loaded : l ∈ (p.serve i r).loaded i := by
        simp [serve, loads]
      have still : l ∈ ((p.serve i r).after rest).loaded i := loaded_after loaded
      exact ⟨l, still, same⟩
    · exact ih later

/-- A session of the process is good whatever else the process does. -/
theorem good_serve {code : Node → Prop} (rooted : ∀ n, code n → n.Scoped .top)
    (h : (p.session i).Good code) (j : Nat) (r : Request)
    (reads : j = i → ∀ n, r.Reads n → code n) : ((p.serve j r).session i).Good code := by
  by_cases here : j = i
  · subst here
    have served := (h.serve rooted r (reads rfl)).1
    have same : (p.serve j r).session j = ((p.session j).serve r).2 := by
      simp only [session, serve, Function.update_self]
    rw [same]
    exact served
  · have same : (p.serve j r).watch i = p.watch i := by
      simp only [serve, Function.update_of_ne (Ne.symm here)]
    constructor
    · rw [session, same]
      exact h.watch
    · rw [session, same]
      exact h.current

theorem good_after {code : Node → Prop} (rooted : ∀ n, code n → n.Scoped .top)
    (steps : List (Nat × Request)) (h : (p.session i).Good code)
    (reads : ∀ r, (i, r) ∈ steps → ∀ n, r.Reads n → code n) :
    ((p.after steps).session i).Good code := by
  induction steps generalizing p with
  | nil => exact h
  | cons step rest ih =>
    apply ih
    · apply good_serve rooted h
      rintro rfl n
      exact reads step.2 List.mem_cons_self n
    · exact fun r mem => reads r (List.mem_cons_of_mem _ mem)

end Process

/-! ## The distances of references -/

/-- **References keep their own distances.** Take any requests to any sessions of a process, whether
their texts are accepted or in error, and any further ones, with no more references in all than there
are words. The references of all trees that have been parsed have words of their own. In the table of
each session, no further request changes an entry. So each text that has been loaded is, where its
references are looked up in the table as it is later, what it was when it first ran; all that has been
evaluated or run in the session is part of such a text, and so is the body of each function that one of
its variables holds. -/
theorem references_keep_distances (sinks : Nat → Sink) (clocks : Nat → Clock)
    (steps later : List (Nat × Request))
    (few : ((Process.start sinks clocks).after (steps ++ later)).nextRef ≤ UInt64.size) :
    let p := (Process.start sinks clocks).after steps
    let q := p.after later
    (p.references.map RefId.word).Nodup ∧
      (∀ i w hops, p.table i w = some hops → q.table i w = some hops) ∧
      (∀ i, ∀ l ∈ p.loaded i, l.lookedUp (q.table i).place = l.node) ∧
      (∀ i, ∀ m ∈ (p.watch i).moments, m.event.StandsAt (p.code i (q.table i)) m.spot.context) ∧
      (∀ i id name object f,
        ((p.watch i).machine.store.frame id).get? name = some (.callable (.function object f)) →
          ∃ c, Stands (p.code i (q.table i)) c (.statements f.declaration.body)) ∧
      ∀ i r, ((p.session i).serve r).2.forget = ((p.session i).forget.serve r).2 := by
  intro p q
  rw [Process.after_append] at few
  have fewer : p.nextRef ≤ UInt64.size := Nat.le_trans (p.nextRef_le_after later) few
  have numbered := ((Process.numbered_start sinks clocks).after fewer).1
  have keeps := (numbered.after few).2
  have looked (i : Nat) (l : Loaded) (mem : l ∈ p.loaded i) :
      l.lookedUp (q.table i).place = l.node := by
    apply Loaded.lookedUp_eq_node
    intro mark marked
    obtain ⟨taken, found⟩ := numbered.found i l mem mark marked
    exact (keeps.place taken).trans found
  have good (i : Nat) : (p.session i).Good (codeOf (Process.requestsTo i steps)) :=
    Process.good_after (codeOf_scoped _) steps (WatchedSession.good_start _ _ _)
      fun r mem n reads => ⟨r, Process.mem_requestsTo.2 mem, reads⟩
  have loads (i : Nat) (n : Node) (isCode : codeOf (Process.requestsTo i steps) n) :
      p.code i (q.table i) n := by
    obtain ⟨r, mem, reads⟩ := isCode
    obtain ⟨l, loaded, same⟩ := Process.loaded_of_reads (Process.mem_requestsTo.1 mem) reads
    exact ⟨l, loaded, (looked i l loaded).trans same⟩
  refine ⟨?distinct, ?entries, looked, ?moments, ?functions,
    fun i r => ((p.session i).serve_forget r).2⟩
  case distinct =>
    have small : ∀ id ∈ p.references, id < UInt64.size := fun id mem =>
      Nat.lt_of_lt_of_le (List.Ico.mem.1 (numbered.distinct.subset mem)).2 fewer
    exact (nodup_of_taken numbered.distinct).map_on fun id mem id' mem' =>
      RefId.word_injective (small id mem) (small id' mem')
  case entries =>
    intro i w hops entry
    obtain ⟨id, taken, rfl⟩ := numbered.entries i w hops entry
    exact (keeps i id taken).trans entry
  case moments =>
    intro i m mem
    obtain ⟨after, before, split⟩ := List.append_of_mem mem
    exact ((good i).watch.moments.sound split).stands.mono (loads i)
  case functions =>
    intro i id name object f found
    have hosts := ((good i).watch.values id name _ found).admits.2
    exact ⟨_, hosts.stands.mono (loads i)⟩

-- the text in error takes numbers for what it drops, and the first function keeps its distance
theorem references_keep_distances_textInError :
    let steps : List (Nat × Request) :=
      [(0, .run 9 "fun f(a) \x7b fun g() \x7b return a; \x7d return g; \x7d var h = f(nil);"),
        (1, .check "a = b + c = d; f(;")]
    let later : List (Nat × Request) := [(0, .run 9 "\x7b var b = h(); print b; \x7d")]
    let p := (Process.start (fun _ => .reliable) fun _ => .ticking 0).after steps
    let q := p.after later
    ((Process.start (fun _ => .reliable) fun _ => .ticking 0).after
        (steps ++ later)).nextRef ≤ UInt64.size ∧
      (p.references.map RefId.word).Nodup ∧ p.references = [0, 1, 2, 3, 4, 5] ∧ p.nextRef = 8 ∧
        p.table 0 (RefId.word 0) = some 1 ∧ q.table 0 (RefId.word 0) = some 1 := by
  intro steps later p q
  have few : ((Process.start (fun _ => .reliable) fun _ => .ticking 0).after
      (steps ++ later)).nextRef ≤ UInt64.size := by decide +kernel
  obtain ⟨distinct, entries, -⟩ := references_keep_distances _ _ steps later few
  have entry : p.table 0 (RefId.word 0) = some 1 := by decide +kernel
  exact ⟨few, distinct, by decide +kernel, by decide +kernel, entry, entries _ _ _ entry⟩

end Lox
