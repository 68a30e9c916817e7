import Lox.Store.Variables

/-!
# The machine

What a run reads and changes: the store, the scope that is active, the text that has been printed
and the clock. Printing and flushing may be refused, and `Sink.refusal` says which requests are.
A run that does not come to its end within the steps it is given stops with `Stop.outOfFuel`.
-/

namespace Lox

/-- What a program asks of its sink. -/
inductive SinkRequest where
  | write
  | flush
  deriving DecidableEq, Repr

/-- Where printed text goes. -/
structure Sink where
  /-- What has been written. -/
  written : String
  /-- The number of requests so far. -/
  requests : Nat
  /-- The message with which the sink refuses a request, given the number of requests before. -/
  refusal : SinkRequest → Nat → Option String

/-- A sink that refuses nothing. -/
def Sink.reliable : Sink := ⟨"", 0, fun _ _ => none⟩

/-- The sink after one more request. -/
def Sink.asked (s : Sink) : Sink := { s with requests := s.requests + 1 }

/-- The sink after it has written a text. -/
def Sink.take (s : Sink) (text : String) : Sink :=
  { s with written := s.written ++ text, requests := s.requests + 1 }

/-- What the clock shows, in seconds, at each reading. -/
structure Clock where
  reading : Nat → Float
  /-- The number of readings so far. -/
  readings : Nat

/-- A clock that moves on by a microsecond from one reading to the next. It begins at this number of
microseconds. -/
def Clock.ticking (start : Nat) : Clock := ⟨fun n => (start + n).toFloat / 1000000, 0⟩

/-- What a run reads and changes. -/
structure Machine where
  store : Store
  /-- The scope that is active. -/
  current : Environment
  sink : Sink
  clock : Clock

/-- The machine after what has been written is taken away. -/
def Machine.emptied (m : Machine) : Machine := { m with sink := { m.sink with written := "" } }

/-- Why a run stops before its end. -/
inductive Stop where
  | fault (fault : Fault)
  | outOfFuel
  deriving DecidableEq, Repr

/-- A part of a run. -/
abbrev Run := EStateM Stop Machine

/-- How a statement ends. -/
inductive Completion where
  | normal
  | returned (value : Value)

/-- What a call gives whose body ends so. -/
def Completion.value : Completion → Value
  | normal => .nil
  | returned value => value

/-- The globals. -/
def Environment.globals : Environment := ⟨0, []⟩

/-- The variables that are there before a program runs. -/
def builtins : Bindings Value :=
  Bindings.empty.insert Native.clock.name (.callable (.native .clock))

/-- The machine before a program runs. -/
def Machine.start (sink : Sink) (clock : Clock) : Machine :=
  ⟨Store.empty.pushFrame builtins, .globals, sink, clock⟩

namespace Run

/-- Stops with a fault. -/
def fault {α : Type} (f : Fault) : Run α := fun m => .error (.fault f) m

/-- Stops because the program does something that has no meaning. -/
def failWith {α : Type} (cause : RuntimeCause) (line : Nat) : Run α := fault (.runtime cause line)

/-- Stops because the scopes are not those that the program was resolved for. -/
def mismatch {α : Type} (cause : ScopeMismatch) : Run α := fault (.mismatch cause)

/-- Stops because the run takes more steps than it was given. -/
def outOfFuel {α : Type} : Run α := fun m => .error .outOfFuel m

/-- Reads the machine. -/
def read {α : Type} (f : Machine → Except Fault α) : Run α := fun m =>
  match f m with
  | .ok a => .ok a m
  | .error e => .error (.fault e) m

/-- The scope that is active. -/
def current : Run Environment := fun m => .ok m.current m

/-- Runs something in another scope. The scope that is active now is active again afterwards,
however that ends. -/
def withEnvironment {α : Type} (e : Environment) (act : Run α) : Run α := fun m =>
  let previous := m.current
  match act { m with current := e } with
  | .ok a m => .ok a { m with current := previous }
  | .error stop m => .error stop { m with current := previous }

/-- Opens a scope with the given names bound inside `outer`. -/
def newFrame (outer : Environment) (bound : Bindings Value) : Run Environment := fun m =>
  let id := m.store.frames.size
  .ok ⟨id, outer.path⟩ { m with store := m.store.pushFrame bound }

/-- Makes an instance without fields. -/
def newInstance (c : Class) : Run Instance := fun m =>
  let id := m.store.fields.size
  .ok ⟨id, c⟩ { m with store := m.store.pushInstance }

/-- A number for a function or a class. -/
def newObject : Run ObjectId := fun m =>
  let id := m.store.nextObject
  .ok id { m with store := m.store.takeObject }

/-- A function with an identity of its own. -/
def newFunction (c : Closure) : Run Value := do
  return .callable (.function (← newObject) c)

/-- Binds a name in the active scope. -/
def define (name : String) (value : Value) : Run Unit := fun m =>
  .ok () { m with store := m.store.define m.current name value }

/-- Gives a variable, found by its name from a scope outward, a new value. -/
def assign (e : Environment) (name : Name) (value : Value) : Run Unit := fun m =>
  match m.store.assign e name value with
  | .ok store => .ok () { m with store := store }
  | .error f => .error (.fault f) m

/-- Gives a variable at a distance from the active scope a new value. -/
def assignAt (hops : Nat) (name : String) (value : Value) : Run Unit := fun m =>
  match m.store.assignAt m.current hops name value with
  | .ok store => .ok () { m with store := store }
  | .error f => .error (.fault f) m

/-- Gives a field of an instance a value. -/
def setField (i : Instance) (name : String) (value : Value) : Run Unit := fun m =>
  .ok () { m with store := m.store.setField i.id name value }

/-- Asks the sink to write a text. -/
def write (text : String) : Run Unit := fun m =>
  match m.sink.refusal .write m.sink.requests with
  | some message => .error (.fault (.io message)) { m with sink := m.sink.asked }
  | none => .ok () { m with sink := m.sink.take text }

/-- Asks the sink to pass on what has been written. -/
def flush : Run Unit := fun m =>
  match m.sink.refusal .flush m.sink.requests with
  | some message => .error (.fault (.io message)) { m with sink := m.sink.asked }
  | none => .ok () { m with sink := m.sink.asked }

/-- Reads the clock. -/
def readClock : Run Float := fun m =>
  .ok (m.clock.reading m.clock.readings)
    { m with clock := { m.clock with readings := m.clock.readings + 1 } }

end Run

end Lox
