import Lox.Proofs.Run.Accesses
import Lox.Proofs.Session.Requests

/-!
# Scopes all along a session

The watch of a session stays good from request to request. So whatever has been asked of a session,
its scopes have at each moment been those of the program, each access at a distance but an early
store has found its variable, and no other than an early store has stopped a run with a mismatch.
-/

namespace Lox

variable {code : Node → Prop}

/-! ## Programs -/

/-- An early store was the last thing that was done between `w` and `w'`. -/
def Watch.StoredEarly (w w' : Watch) (target : Reference Place) : Prop :=
  ∃ m, m.event = .store target ∧ w'.earlyStores = m :: w.earlyStores

/-- How a request may stop that begins at `w` and leaves `w'`: as a part of a run may, or because the
sink cannot be flushed behind an early store. -/
def Watch.EndsWith (w w' : Watch) (stop : Stop) : Prop :=
  w.StopsWith w' stop ∨
    ∃ message target, stop = .fault (.io message) ∧ w.StoredEarly w' target

/-- The sink may refuse to be flushed, and nothing else comes of it. -/
theorem Watched.flush_cases {w : Watch} (good : w.Good code) (changing : FrameId → Prop) :
    ∃ w', w.Reaches code changing w' ∧ w'.earlyStores = w.earlyStores ∧
      (Watched.plain Run.flush w = .ok () w' ∨
        ∃ message, Watched.plain Run.flush w = .error (.fault (.io message)) w') := by
  refine ⟨w.on { w.machine with sink := w.machine.sink.asked }, .sameStore good rfl rfl, rfl, ?_⟩
  cases refused : w.machine.sink.refusal .flush w.machine.sink.requests with
  | some message => exact .inr ⟨message, by simp [Watched.plain, Run.flush, refused, Watch.on]⟩
  | none => exact .inl (by simp [Watched.plain, Run.flush, refused, Watch.on])

/-- What a request asks for keeps the watch good. -/
def Serves {α : Type} (code : Node → Prop) (w : Watch) (t : Watched α) : Prop :=
  match t w with
  | .ok _ w' => w.Reaches code w.active w' ∧ w'.earlyStores = w.earlyStores
  | .error stop w' => w.Reaches code w.active w' ∧ w.EndsWith w' stop

theorem Keeps.serves {α : Type} {w : Watch} {t : Watched α} {Q : α → Watch → Prop}
    (h : Keeps code w.active w t Q) : Serves code w t := by
  unfold Keeps at h
  unfold Serves
  cases result : t w with
  | ok a w' =>
    rw [result] at h
    exact ⟨h.1, h.2.1⟩
  | error stop w' =>
    rw [result] at h
    exact ⟨h.1, .inl h.2⟩

/-- A program that is run, and its sink flushed, keeps a watch good. -/
theorem Watched.interpret_serves {w : Watch} (rooted : ∀ n, code n → n.Scoped .top)
    (good : w.Good code) (current : w.machine.current = .globals) {ss : List (Stmt Place)}
    (isCode : code (.statements ss)) (fuel : Nat) :
    Serves code w (Watched.interpret fuel ss) := by
  have ran := Keeps.program (watcher_keeps rooted fuel) good (Spot.top_fits current _)
    (.root isCode) rfl
  unfold Keeps at ran
  unfold Serves Watched.interpret
  cases result : Watched.program (watcher fuel) .top ss w with
  | ok _ w' =>
    rw [result] at ran
    obtain ⟨reach, stores, -⟩ := ran
    obtain ⟨w'', reach', same, flushed | ⟨message, flushed⟩⟩ :=
      flush_cases reach.good w.active
    · simp only [flushed]
      exact ⟨reach.trans reach', same.trans stores⟩
    · simp only [flushed]
      exact ⟨reach.trans reach', .inl (same.trans stores)⟩
  | error stop w' =>
    rw [result] at ran
    obtain ⟨reach, stops⟩ := ran
    cases stop with
    | outOfFuel => exact ⟨reach, .inl stops⟩
    | fault f =>
      obtain ⟨w'', reach', same, flushed | ⟨message, flushed⟩⟩ :=
        flush_cases reach.good w.active
      · simp only [flushed]
        refine ⟨reach.trans reach', .inl ?_⟩
        cases f with
        | mismatch cause =>
          obtain ⟨m, target, event, stores, cause⟩ := stops
          exact ⟨m, target, event, same.trans stores, cause⟩
        | runtime cause line => exact same.trans stops
        | io message => exact same.trans stops
      · simp only [flushed]
        refine ⟨reach.trans reach', ?_⟩
        cases f with
        | mismatch cause =>
          obtain ⟨m, target, event, stores, -⟩ := stops
          exact .inr ⟨message, target, rfl, m, event, same.trans stores⟩
        | runtime cause line => exact .inl (same.trans stops)
        | io message => exact .inl (same.trans stops)

/-! ## Requests -/

namespace WatchedSession

/-- The watch is good, and the globals are the scope that is active. -/
structure Good (code : Node → Prop) (s : WatchedSession) : Prop where
  watch : s.watch.Good code
  current : s.watch.machine.current = .globals

/-- How the answer to a request comes about that is served on `w` and leaves `w'`: no store was
early, and the scopes are not blamed, or an early store was the last thing done, and the answer
blames the scopes for it or says that the sink could not be flushed behind it. -/
def Explains (w w' : Watch) (answer : Answer) : Prop :=
  (w'.earlyStores = w.earlyStores ∧ ∀ cause, answer ≠ .error (.stopped (.mismatch cause))) ∨
    ∃ target, w.StoredEarly w' target ∧
      (answer = .error (.stopped (.mismatch (.missingVariable target.name.text 0))) ∨
        ∃ message, answer = .error (.stopped (.io message)))

/-- A stop explains the answer that it leads to. -/
theorem explains_of_ends {w w' : Watch} {stop : Stop} (ends : w.EndsWith w' stop) :
    Explains w w' (.error (.ofStop stop)) := by
  rcases ends with stops | ⟨message, target, rfl, stored⟩
  · match stop with
    | .fault (.mismatch cause) =>
      obtain ⟨m, target, event, stores, rfl⟩ := stops
      exact .inr ⟨target, ⟨m, event, stores⟩, .inl rfl⟩
    | .fault (.runtime _ _) | .fault (.io _) | .outOfFuel =>
      exact .inl ⟨stops, fun cause => by simp [RunError.ofStop]⟩
  · exact .inr ⟨target, stored, .inr ⟨message, rfl⟩⟩

theorem Good.perform {α : Type} {s : WatchedSession} (h : s.Good code) {t : Watched α}
    (serves : Serves code s.watch t) (answer : α → Option Value) :
    (s.perform t).2.Good code ∧
      Explains s.watch (s.perform t).2.watch ((s.perform t).1.map answer) := by
  unfold Serves at serves
  unfold WatchedSession.perform
  cases result : t s.watch with
  | ok a w' =>
    rw [result] at serves
    exact ⟨⟨serves.1.good, serves.1.current.trans h.current⟩, .inl ⟨serves.2, by simp [Except.map]⟩⟩
  | error stop w' =>
    rw [result] at serves
    exact ⟨⟨serves.1.good, serves.1.current.trans h.current⟩, explains_of_ends serves.2⟩

/-- A machine with the same store is as good. -/
theorem Good.on {s : WatchedSession} (h : s.Good code) {m : Machine}
    (store : m.store = s.watch.machine.store) (current : m.current = s.watch.machine.current) :
    (s.on m).Good code := by
  have same : s.watch.Reaches code noFrame (s.watch.on m) := .sameStore h.watch store current
  exact ⟨same.good, current.trans h.current⟩

/-- Each request leaves a good session good, and its answer is explained. -/
theorem Good.serve {s : WatchedSession} (h : s.Good code) (rooted : ∀ n, code n → n.Scoped .top)
    (r : Request) (reads : ∀ n, r.Reads n → code n) :
    (s.serve r).2.Good code ∧ Explains s.watch (s.serve r).2.watch (s.serve r).1 := by
  cases r with
  | run fuel source =>
    simp only [WatchedSession.serve]
    cases accepted : checkProgram (readProgram source s.nextRef) with
    | error reports => exact ⟨⟨h.watch, h.current⟩, .inl ⟨rfl, by simp⟩⟩
    | ok located =>
      exact Good.perform (s := { s with nextRef := (readProgram source s.nextRef).nextRef })
        ⟨h.watch, h.current⟩ (Watched.interpret_serves rooted h.watch h.current
          (reads _ ⟨s.nextRef, located, accepted, rfl⟩) fuel) _
  | evaluate fuel source =>
    simp only [WatchedSession.serve]
    cases accepted : checkExpression (readExpression source s.nextRef) with
    | error reports => exact ⟨⟨h.watch, h.current⟩, .inl ⟨rfl, by simp⟩⟩
    | ok located =>
      have stands : Stands code .top (.expression (runnableExpr located)) :=
        .root (reads _ ⟨s.nextRef, located, accepted, rfl⟩)
      have keeps := (watcher_keeps rooted fuel).eval h.watch (Spot.top_fits h.current _) stands
      exact Good.perform (s := { s with nextRef := (readExpression source s.nextRef).nextRef })
        ⟨h.watch, h.current⟩ keeps.still.serves _
  | check source =>
    refine ⟨⟨h.watch, h.current⟩, .inl ⟨rfl, fun cause => ?_⟩⟩
    simp only [WatchedSession.serve]
    cases checkProgram (readProgram source s.nextRef) <;> simp [Except.map, Except.mapError]
  | takeOutput => exact ⟨h.on rfl rfl, .inl ⟨rfl, by simp [WatchedSession.serve]⟩⟩
  | setClock clock => exact ⟨h.on rfl rfl, .inl ⟨rfl, by simp [WatchedSession.serve]⟩⟩

/-- A session in which nothing has run is good. -/
theorem good_start (code : Node → Prop) (sink : Sink) (clock : Clock) :
    (start sink clock).Good code := by
  refine ⟨⟨Nat.zero_lt_one, fun id name v found => ?_, fun id name v found => ?_, trivial⟩, rfl⟩
  · simp only [start, Machine.start, Store.frame_pushFrame] at found
    split at found
    · obtain ⟨isClock, rfl⟩ := Bindings.get?_insert_empty.1 found
      refine .of_variable trivial ?_
      rw [isClock]
      exact ⟨by decide, by decide⟩
    · simp [Store.frame, Store.empty] at found
  · simp [start, Machine.start, Store.fieldsOf, Store.pushFrame, Store.empty] at found

/-- A good session stays good whatever is asked of it. -/
theorem Good.after {s : WatchedSession} (h : s.Good code) (rooted : ∀ n, code n → n.Scoped .top)
    (requests : List Request) (reads : ∀ r ∈ requests, ∀ n, r.Reads n → code n) :
    (s.after requests).Good code := by
  induction requests generalizing s with
  | nil => exact h
  | cons r rest ih =>
    exact ih (h.serve rooted r (reads r List.mem_cons_self)).1
      fun r' mem => reads r' (List.mem_cons_of_mem _ mem)

/-- Whatever is asked of a session, it is good. -/
theorem good_after (sink : Sink) (clock : Clock) (requests : List Request) :
    ((start sink clock).after requests).Good (codeOf requests) :=
  (good_start _ sink clock).after (codeOf_scoped requests) requests
    fun r mem _ reads => ⟨r, mem, reads⟩

end WatchedSession

/-- Each moment on record is sound with respect to those before it. -/
theorem Recorded.sound {moments later earlier : List Moment} {m : Moment}
    (h : Recorded code moments) (split : moments = later ++ m :: earlier) :
    m.Sound code earlier := by
  induction later generalizing moments with
  | nil => exact (split ▸ h).1
  | cons first later ih =>
    subst split
    exact ih h.2 rfl

theorem Recorded.before {moments later earlier : List Moment} {m : Moment}
    (h : Recorded code moments) (split : moments = later ++ m :: earlier) :
    Recorded code earlier := by
  induction later generalizing moments with
  | nil => exact (split ▸ h).2
  | cons first later ih =>
    subst split
    exact ih h.2 rfl

/-! ## Accesses at a distance -/

/-- How the accesses at a distance end that are made at a moment. -/
structure Moment.Accesses (code : Node → Prop) (m : Moment) : Prop where
  stands : m.event.StandsAt code m.spot.context
  /-- A variable, `this`, `super` or a superclass name finds what it names. -/
  read : ∀ hops name, m.event.Reads (.scope hops) name →
    ∃ v, m.machine.store.getAt m.machine.current hops name = .ok v
  /-- A `super` expression finds its instance too. -/
  receiver : ∀ line hops method, m.event = .evaluate (.super line (.scope hops) method) →
    ∃ inner v, hops = inner + 1 ∧
      m.machine.store.getAt m.machine.current inner thisName = .ok v
  /-- An assignment finds its target. -/
  store : ∀ target hops, m.event = .store target → target.mark = .scope hops →
    m.isEarlyStore = false →
      ∀ v, ∃ s, m.machine.store.assignAt m.machine.current hops target.name.text v = .ok s
  /-- An assignment to a variable in its own initializer does not. -/
  earlyStore : ∀ target, m.event = .store target → m.isEarlyStore = true →
    target.mark = .scope 0 ∧ ∀ v,
      m.machine.store.assignAt m.machine.current 0 target.name.text v =
        .error (.mismatch (.missingVariable target.name.text 0))

theorem Moment.Sound.accesses {m : Moment} {earlier : List Moment} (h : m.Sound code earlier)
    (rooted : ∀ n, code n → n.Scoped .top) : m.Accesses code where
  stands := h.stands
  read _ _ reads := h.read_succeeds rooted reads
  receiver _ _ _ event := h.receiver_succeeds rooted event
  store _ _ event mark late v := h.store_succeeds rooted event mark late v
  earlyStore _ event early :=
    ⟨(h.early_store_fails rooted event early .nil).1,
      fun v => (h.early_store_fails rooted event early v).2⟩

/-- **An access at a distance fails if and only if it is an early store.** Whatever has been asked of
a session, at each moment of its runs all accesses at a distance find their variables, save the
assignments to variables whose own initializers have not ended: these fail. The answer to any
further request blames the scopes only for such an assignment, which was then the last thing done. -/
theorem access_fails_iff_store_early (sink : Sink) (clock : Clock) (requests : List Request) :
    let s := (WatchedSession.start sink clock).after requests
    s.forget = (Session.start sink clock).after requests ∧
      (∀ m ∈ s.watch.moments, m.Accesses (codeOf requests)) ∧
        ∀ r, (s.serve r).2.forget = (s.forget.serve r).2 ∧
          WatchedSession.Explains s.watch (s.serve r).2.watch (s.forget.serve r).1 := by
  intro s
  refine ⟨WatchedSession.after_forget _ requests, fun m mem => ?_, fun r => ?_⟩
  · obtain ⟨later, earlier, split⟩ := List.append_of_mem mem
    have sound := (WatchedSession.good_after sink clock requests).watch.moments.sound split
    exact sound.accesses (codeOf_scoped requests)
  · obtain ⟨answer, session⟩ := s.serve_forget r
    refine ⟨session, ?_⟩
    rw [← answer]
    -- the further request brings code of its own
    have good : s.Good (codeOf (r :: requests)) :=
      (WatchedSession.good_start _ sink clock).after (codeOf_scoped _) requests
        fun r' mem _ reads => ⟨r', List.mem_cons_of_mem _ mem, reads⟩
    exact (good.serve (codeOf_scoped _) r fun _ reads => ⟨r, List.mem_cons_self, reads⟩).2

-- the target of the assignment is the variable that is being declared
example : ((Session.start .reliable (.ticking 0)).serve (.run 9 "\x7b var a = (a = nil); \x7d")).1 =
    .error (.stopped (.mismatch (.missingVariable "a" 0))) := by
  rfl

/-! ## Scopes of runs and scopes of programs -/

/-- The scopes of a moment are those that resolution had at the same point of the code. -/
structure Moment.Mirrored (code : Node → Prop) (m : Moment) (earlier : List Moment) : Prop where
  stands : m.event.StandsAt code m.spot.context
  /-- There are as many scopes inside the globals as resolution had. -/
  chain : ∃ chain : List FrameId,
    m.machine.current.path = chain ++ [Environment.globals.frame] ∧
      chain.length = m.spot.context.scopes.length ∧ Environment.globals.frame ∉ chain
  /-- Each binds the names that are ready in the one that resolution had at its position. -/
  binds : ∀ (k : Nat) (id : FrameId) (scope : Bindings Bool),
    m.machine.current.path[k]? = some id → m.spot.context.scopes[k]? = some scope →
      ∀ name, scope.get? name = some true → (m.machine.store.frame id).contains name = true
  /-- A read finds its variable at the position of the innermost scope that declares the name. -/
  read : ∀ hops name, m.event.Reads (.scope hops) name →
    m.spot.context.scopes.DeclaredAt hops name ∧
      ∃ id, m.machine.current.path[hops]? = some id ∧
        (m.machine.store.frame id).contains name = true
  /-- Some scopes further out are those around the declaration that the code is part of. -/
  activation : ∃ k, m.machine.current.path.drop k = m.spot.home.environment.path ∧
    m.spot.context.scopes.drop k = m.spot.home.scopes
  /-- The scopes around that declaration are the ones that were active when it ran. -/
  known : m.spot.home.Known earlier

theorem Moment.Sound.mirrored {m : Moment} {earlier : List Moment} (h : m.Sound code earlier)
    (rooted : ∀ n, code n → n.Scoped .top) : m.Mirrored code earlier where
  stands := h.stands
  chain := h.fits.mirrors.chain
  binds k id scope here found name ready := by
    obtain ⟨id', here', binds⟩ := h.fits.mirrors.at_position found
    rw [here] at here'
    cases here'
    exact binds name ready
  read _ _ reads := h.read_found rooted reads
  activation := by
    obtain ⟨k, out, around, -⟩ := h.fits.activation
    exact ⟨k, out, around⟩
  known := h.fits.known

/-- **The scopes of a run mirror those of the program.** Whatever has been asked of a session, its
watched runs are its runs, and at each moment of them the scopes that are active are those that
resolution had at the same point of the code. -/
theorem run_mirrors_program (sink : Sink) (clock : Clock) (requests : List Request) :
    let s := (WatchedSession.start sink clock).after requests
    s.forget = (Session.start sink clock).after requests ∧
      ∀ later m earlier, s.watch.moments = later ++ m :: earlier →
        m.Mirrored (codeOf requests) earlier := by
  intro s
  refine ⟨WatchedSession.after_forget _ requests, fun later m earlier split => ?_⟩
  have sound := (WatchedSession.good_after sink clock requests).watch.moments.sound split
  exact sound.mirrored (codeOf_scoped requests)

-- a function of an earlier text runs in the scope of the call that made it
example : (((WatchedSession.start .reliable (.ticking 0)).after
      [.run 9 "fun f(a) \x7b fun g() \x7b return a; \x7d return g; \x7d var h = f(nil);",
        .run 9 "h();"]).watch.moments.take 2).map
      (fun m => (m.machine.current.path, m.spot.context.scopes.map Bindings.names)) =
    [([2, 1, 0], [[], ["a", "g"]]), ([2, 1, 0], [[], ["a", "g"]])] := by
  decide +kernel

end Lox
