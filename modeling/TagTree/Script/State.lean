import TagTree.Script.Answer

/-!
# The state of a script

Variables and builder names are shared by all blocks of a script. The trace holds the
entries of the steps that finished.
-/

namespace TagTree

structure State where
  world : World
  bindings : List (String × Value)
  builders : List (String × BuilderRef)
  trace : List Entry

namespace State

def initial (host : Host) : State := ⟨.empty host, [], [], []⟩

def onWorld (s : State) (f : World → World) : State := { s with world := f s.world }

def assign (s : State) (name : String) (v : Value) : State :=
  { s with bindings := Table.insert (· == ·) name v s.bindings }

def keep (s : State) (name : Option String) (v : Value) : State :=
  match name with
  | some name => s.assign name v
  | none => s

def nameBuilder (s : State) (name : String) (b : BuilderRef) : State :=
  { s with builders := Table.insert (· == ·) name b s.builders }

def record (s : State) (e : Entry) : State := { s with trace := s.trace ++ [e] }

def valueOf? (s : State) (name : String) : Except Fault Value :=
  match Table.find? (· == ·) name s.bindings with
  | some v => .ok v
  | none => .error (.unknownName name)

def builder? (s : State) (name : String) : Except Fault BuilderRef :=
  match Table.find? (· == ·) name s.builders with
  | some b => .ok b
  | none => .error (.unknownName name)

end State

def World.inState {α : Type} (p : Proc World α) : Proc State α :=
  Proc.onPart State.world (fun w s => { s with world := w }) p

/-- How callables are called: with positional and named arguments. -/
abbrev Caller := Callable Value → List Value → List (String × Value) → Proc State Value

end TagTree
