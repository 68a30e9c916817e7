import Lox.Proofs.Session.Expressions
import Lox.Proofs.Session.Requests

/-!
# Requests that leave nothing behind

A request to check a text, and one whose text is rejected, change nothing but the number that the next
reference gets; and which numbers references get has no part in what a text does. So a session that
never gets such a request answers all others alike.
-/

namespace Lox

/-- The text of the request was in error, and nothing of it has run. -/
def Answer.isRejection : Answer → Bool
  | .error e => e.isStatic
  | .ok _ => false

/-- A request with the answer to it and the machine that it leaves. -/
structure Served where
  request : Request
  answer : Answer
  machine : Machine

/-- Nothing was to be run, or nothing has been. -/
def Served.isSilent (r : Served) : Bool :=
  match r.request with
  | .check _ => true
  | _ => r.answer.isRejection

/-- The requests one after the other, with their answers and what they leave. -/
def Session.record (s : Session) : List Request → List Served
  | [] => []
  | r :: rest => ⟨r, (s.serve r).1, (s.serve r).2.machine⟩ :: (s.serve r).2.record rest

namespace Session

variable {s s' : Session}

/-- What a part of a run does is up to the machine. -/
theorem perform_congr {α : Type} (same : s.machine = s'.machine) (act : Run α) :
    (s.perform act).1 = (s'.perform act).1 ∧
      (s.perform act).2.machine = (s'.perform act).2.machine := by
  unfold perform
  rw [same]
  cases act s'.machine <;> exact ⟨rfl, rfl⟩

/-- A part of a run is not rejected. -/
theorem perform_not_rejection {α : Type} (s : Session) (act : Run α) (f : α → Option Value) :
    Answer.isRejection ((s.perform act).1.map f) = false := by
  unfold perform
  cases act s.machine with
  | ok a m => rfl
  | error stop m => cases stop <;> rfl

theorem run_congr (same : s.machine = s'.machine) {fuel : Nat} {source : String}
    (accepted : Answer.isRejection (s.serve (.run fuel source)).1 = false) :
    (s.serve (.run fuel source)).1 = (s'.serve (.run fuel source)).1 ∧
      (s.serve (.run fuel source)).2.machine = (s'.serve (.run fuel source)).2.machine := by
  simp only [serve, run] at accepted ⊢
  cases checked : checkProgram (readProgram source s.nextRef) with
  | error reports =>
    rw [checked] at accepted
    cases accepted
  | ok located =>
    obtain ⟨located', checked', runs⟩ := checkProgram_renumbered checked s'.nextRef
    rw [checked']
    dsimp only
    rw [runs]
    have still : ({ s with nextRef := (readProgram source s.nextRef).nextRef } : Session).machine =
        ({ s' with nextRef := (readProgram source s'.nextRef).nextRef } : Session).machine := same
    have alike := perform_congr still (Run.interpret fuel (runnable located))
    exact ⟨congrArg _ alike.1, alike.2⟩

theorem evaluate_congr (same : s.machine = s'.machine) {fuel : Nat} {source : String}
    (accepted : Answer.isRejection (s.serve (.evaluate fuel source)).1 = false) :
    (s.serve (.evaluate fuel source)).1 = (s'.serve (.evaluate fuel source)).1 ∧
      (s.serve (.evaluate fuel source)).2.machine = (s'.serve (.evaluate fuel source)).2.machine := by
  simp only [serve, evaluate] at accepted ⊢
  cases checked : checkExpression (readExpression source s.nextRef) with
  | error reports =>
    rw [checked] at accepted
    cases accepted
  | ok located =>
    obtain ⟨located', checked', evaluates⟩ := checkExpression_renumbered checked s'.nextRef
    rw [checked']
    dsimp only
    rw [evaluates]
    have still : ({ s with nextRef := (readExpression source s.nextRef).nextRef } : Session).machine =
        ({ s' with nextRef := (readExpression source s'.nextRef).nextRef } : Session).machine := same
    have alike := perform_congr still ((evaluator fuel).eval (runnableExpr located))
    exact ⟨congrArg _ alike.1, alike.2⟩

/-- Sessions with the same machine serve a request alike, unless it is silent. -/
theorem serve_congr (same : s.machine = s'.machine) {r : Request}
    (heard : Served.isSilent ⟨r, (s.serve r).1, (s.serve r).2.machine⟩ = false) :
    (s.serve r).1 = (s'.serve r).1 ∧ (s.serve r).2.machine = (s'.serve r).2.machine := by
  cases r with
  | run fuel source => exact run_congr same heard
  | evaluate fuel source => exact evaluate_congr same heard
  | check source => cases heard
  | takeOutput => exact ⟨rfl, congrArg Machine.emptied same⟩
  | setClock clock =>
    exact ⟨rfl, congrArg (fun m : Machine => { m with clock := clock }) same⟩

/-- A silent request leaves the machine as it is. -/
theorem serve_silent {r : Request}
    (silent : Served.isSilent ⟨r, (s.serve r).1, (s.serve r).2.machine⟩ = true) :
    (s.serve r).2.machine = s.machine := by
  cases r with
  | run fuel source =>
    simp only [Served.isSilent, serve, run] at silent ⊢
    cases checked : checkProgram (readProgram source s.nextRef) with
    | error reports => rfl
    | ok located =>
      rw [checked] at silent
      exact absurd silent (by simp [perform_not_rejection])
  | evaluate fuel source =>
    simp only [Served.isSilent, serve, evaluate] at silent ⊢
    cases checked : checkExpression (readExpression source s.nextRef) with
    | error reports => rfl
    | ok located =>
      rw [checked] at silent
      exact absurd silent (by simp [perform_not_rejection])
  | check source => rfl
  | takeOutput | setClock clock => cases silent

/-- Without the silent requests, a session with the same machine gives the same answers to the others,
and each of these leaves the same machine. -/
theorem record_heard (same : s.machine = s'.machine) (requests : List Request) :
    let heard := (s.record requests).filter (!·.isSilent)
    s'.record (heard.map Served.request) = heard ∧
      (s'.after (heard.map Served.request)).machine = (s.after requests).machine := by
  induction requests generalizing s s' with
  | nil => exact ⟨rfl, same.symm⟩
  | cons r rest ih =>
    cases silent : Served.isSilent ⟨r, (s.serve r).1, (s.serve r).2.machine⟩ with
    | true =>
      have later := ih ((serve_silent silent).trans same)
      simp only [record, List.filter_cons, silent, Bool.not_true, Bool.false_eq_true, if_false]
      exact later
    | false =>
      obtain ⟨answer, machine⟩ := serve_congr same silent
      obtain ⟨records, left⟩ := ih machine
      simp only [record, List.filter_cons, silent, Bool.not_false, if_true, List.map_cons]
      rw [records, ← answer, ← machine]
      exact ⟨rfl, left⟩

end Session

/-- **What is rejected leaves nothing behind.** Take from any requests to any session those that only
check a text and those whose text is rejected. The session gives the same answers to all that are left,
each of them leaves the same machine, with all that has been printed, all variables and all instances,
and so does the last. -/
theorem rejections_invisible (s : Session) (requests : List Request) :
    let heard := (s.record requests).filter (!·.isSilent)
    s.record (heard.map Served.request) = heard ∧
      (s.after (heard.map Served.request)).machine = (s.after requests).machine :=
  Session.record_heard rfl requests

end Lox
