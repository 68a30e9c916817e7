import Lox.Proofs.History.Agreement
import Lox.Proofs.History.Rules

/-!
# The chronicle of a session

The chronicle of a session stays sound from request to request. `Chronicle.Passed` says of a
chronicle that it was that of the run at an earlier point: all of these were sound too.
-/

namespace Lox

variable {code : Node → Prop}

/-! ## Earlier states -/

/-- The other chronicle is this one, or was when something happened that this one tells of. -/
def Chronicle.Passed (w w' : Chronicle) : Prop :=
  w' = w ∨ ∃ later deed, w.past = later ++ ⟨deed, w'.machine⟩ :: w'.past

theorem Chronicle.Sound.passed {w w' : Chronicle} (sound : w.Sound code) (passed : w.Passed w') :
    w'.Sound code := by
  rcases passed with rfl | ⟨later, deed, split⟩
  · exact sound
  · exact (sound.fit.happening split).2

/-! ## Results -/

/-- What ends well that is put together of two parts ends well in both. -/
theorem Run.of_bind_ok {α β : Type} {act : Run α} {next : α → Run β} {b : β} {m m' : Machine}
    (ended : (act >>= next) m = .ok b m') : ∃ a m₁, act m = .ok a m₁ ∧ next a m₁ = .ok b m' := by
  simp only [Bind.bind, EStateM.bind] at ended
  split at ended
  · next a m₁ first => exact ⟨a, m₁, first, ended⟩
  · cases ended

/-- What holds of a chronicled run that ends well holds of the plain run. -/
theorem Recounts.result {α : Type} {w : Chronicle} {t : Chronicled α} {r : Run α}
    {Q : α → Chronicle → Prop} (h : Recounts code w t Q) (tells : t.Tells r) {a : α} {m : Machine}
    (result : r w.machine = .ok a m) : ∃ w', w'.machine = m ∧ w.Leads code w' ∧ Q a w' := by
  have same := tells w
  rw [result] at same
  unfold Recounts at h
  cases ended : t w with
  | ok b w' =>
    rw [ended] at same h
    cases same
    exact ⟨w', rfl, h⟩
  | error stop w' =>
    rw [ended] at same
    cases same

/-! ## Requests -/

/-- The chronicle that a part of a run leaves, however it ends. -/
def Chronicle.left {α : Type} : EStateM.Result Stop Chronicle α → Chronicle
  | .ok _ w => w
  | .error _ w => w

theorem Recounts.left {α : Type} {w : Chronicle} {t : Chronicled α} {Q : α → Chronicle → Prop}
    (h : Recounts code w t Q) : w.Leads code (Chronicle.left (t w)) := by
  unfold Recounts at h
  cases result : t w with
  | ok a w' =>
    rw [result] at h
    exact h.1
  | error stop w' =>
    rw [result] at h
    exact h

theorem Recounts.flush {w : Chronicle} (sound : w.Sound code) :
    Recounts code w (Chronicled.plain Run.flush) fun _ _ => True := by
  cases refused : w.machine.sink.refusal .flush w.machine.sink.requests with
  | some message =>
    apply plain_error (m := { w.machine with sink := w.machine.sink.asked })
    · simp only [Run.flush, refused]
      rfl
    · exact .of_store sound rfl
  | none =>
    apply plain_ok (a := ()) (m := { w.machine with sink := w.machine.sink.asked })
    · simp only [Run.flush, refused]
    · exact .of_store sound rfl
    · trivial

/-- Behind a program that has not run out of fuel the sink is flushed. -/
theorem Chronicled.left_interpret (fuel : Nat) (ss : List (Stmt Place)) (w : Chronicle) :
    let ran := Chronicle.left (program (chronicler fuel) ss w)
    Chronicle.left (interpret fuel ss w) = ran ∨
      Chronicle.left (interpret fuel ss w) = Chronicle.left (plain Run.flush ran) := by
  unfold interpret
  cases program (chronicler fuel) ss w with
  | ok _ w' => exact .inr rfl
  | error stop w' =>
    cases stop with
    | outOfFuel => exact .inl rfl
    | fault f =>
      right
      dsimp only [Chronicle.left]
      cases plain Run.flush w' <;> rfl

/-- A program that is run, and its sink flushed, keeps a chronicle sound. -/
theorem Chronicled.interpret_leads (rooted : ∀ n, code n → n.Scoped .top) {w : Chronicle}
    (sound : w.Sound code) {ss : List (Stmt Place)} (inCode : InCode code (.statements ss))
    (fuel : Nat) : w.Leads code (Chronicle.left (interpret fuel ss w)) := by
  have ran := (Recounts.program (chronicler_recounts rooted fuel) sound inCode).left
  rcases left_interpret fuel ss w with same | flushed
  · rw [same]
    exact ran
  · rw [flushed]
    exact ran.trans (Recounts.flush ran.sound).left

namespace ChronicledSession

theorem perform_sound {α : Type} {s : ChronicledSession} {t : Chronicled α}
    (leads : s.chronicle.Leads code (Chronicle.left (t s.chronicle))) :
    (s.perform t).2.chronicle.Sound code := by
  unfold perform
  cases result : t s.chronicle with
  | ok a w | error stop w =>
    rw [result] at leads
    exact leads.sound

theorem on_sound {s : ChronicledSession} (sound : s.chronicle.Sound code) {m : Machine}
    (same : m.store = s.chronicle.machine.store) : (s.on m).chronicle.Sound code :=
  (Chronicle.Leads.of_store sound same).sound

/-- Each request keeps the chronicle sound. -/
theorem serve_sound {s : ChronicledSession} (sound : s.chronicle.Sound code)
    (rooted : ∀ n, code n → n.Scoped .top) (r : Request) (reads : ∀ n, r.Reads n → code n) :
    (s.serve r).2.chronicle.Sound code := by
  cases r with
  | run fuel source =>
    simp only [serve]
    cases accepted : checkProgram (readProgram source s.nextRef) with
    | error reports => exact sound
    | ok located =>
      have isCode := reads _ ⟨s.nextRef, located, accepted, rfl⟩
      exact perform_sound (s := { s with nextRef := (readProgram source s.nextRef).nextRef })
        (Chronicled.interpret_leads rooted sound ⟨.top, .root isCode⟩ fuel)
  | evaluate fuel source =>
    simp only [serve]
    cases accepted : checkExpression (readExpression source s.nextRef) with
    | error reports => exact sound
    | ok located =>
      have isCode := reads _ ⟨s.nextRef, located, accepted, rfl⟩
      have recounts := (chronicler_recounts rooted fuel).eval sound ⟨.top, .root isCode⟩
      exact perform_sound (s := { s with nextRef := (readExpression source s.nextRef).nextRef })
        recounts.left
  | check source => exact sound
  | takeOutput => exact on_sound sound rfl
  | setClock clock => exact on_sound sound rfl

/-- Nothing has happened before a session, and there are only functions of the language. -/
theorem start_sound (code : Node → Prop) (sink : Sink) (clock : Clock) :
    (start sink clock).chronicle.Sound code := by
  have never {deed : Deed} (did : Did [] deed) : False := by
    obtain ⟨m, mem⟩ := did
    cases mem
  refine ⟨?_, trivial⟩
  constructor
  · intro id name v found
    simp only [start, Machine.start, Store.frame_pushFrame] at found
    split at found
    · obtain ⟨-, rfl⟩ := Bindings.get?_insert_empty.1 found
      trivial
    · simp [Store.frame, Store.empty] at found
  · intro id name
    simp [start, Machine.start, Store.fieldsOf, Store.pushFrame, Store.empty, lastStored]
  · exact fun did => (never did).elim
  · exact fun did => (never did).elim
  · exact fun did => (never did).elim

/-- **The chronicle of a session is sound.** -/
theorem after_sound (sink : Sink) (clock : Clock) (requests : List Request) :
    ((start sink clock).after requests).chronicle.Sound (codeOf requests) := by
  have served {s : ChronicledSession} (sound : s.chronicle.Sound (codeOf requests)) :
      ∀ rest ⊆ requests, (s.after rest).chronicle.Sound (codeOf requests) := by
    intro rest
    induction rest generalizing s with
    | nil => exact fun _ => sound
    | cons r rest ih =>
      intro subset
      obtain ⟨mem, subset⟩ := List.cons_subset.1 subset
      exact ih (serve_sound sound (codeOf_scoped requests) r fun n reads => ⟨r, mem, reads⟩) subset
  exact served (start_sound _ sink clock) requests (List.Subset.refl _)

end ChronicledSession

end Lox
