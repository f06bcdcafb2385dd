import TagTree.Build

/-!
# Programs

A program is what code does when it runs: it makes tag calls, runs builds, calls other
callables, attaches content to elements by hand, and in between acts on the state without
any of these. Each deed is followed by a program that is given its value or its fault, so
faults can be swallowed. Code gives every callable its program; fuel bounds how many
callables are open at once.
-/

namespace TagTree

/-- What code does when it runs. -/
inductive Program (α : Type) : Type 1 where
  | done (ending : Outcome α)
  | act {β : Type} (p : Proc State β) (next : Except Fault β → Program α)
  | attach (e : ElementRef) (change : Element → Except Fault Element)
      (next : Except Fault Unit → Program α)
  | tag (b : BuilderRef) (name : Value) (args : List Value) (named : List (String × Value))
      (next : Except Fault ElementRef → Program α)
  | build (b : BuilderRef) (block : Value) (next : Except Fault ElementRef → Program α)
  | apply (c : Callable Value) (args : List Value) (named : List (String × Value))
      (next : Except Fault Value → Program α)

/-- The programs of all callables, by their positional and named arguments. -/
abbrev Code := Callable Value → List Value → List (String × Value) → Program Value

namespace Program

variable {α β : Type}

/-! ### Sequences -/

/-- A program that ends at once, as a deed ended. -/
def answer : Except Fault α → Program α
  | .ok a => done (.value a)
  | .error f => done (.fault f)

def bind (p : Program α) (k : α → Program β) : Program β :=
  match p with
  | done (.value a) => k a
  | done (.fault f) => done (.fault f)
  | done .exhausted => done .exhausted
  | act p next => act p fun r => (next r).bind k
  | attach e change next => attach e change fun r => (next r).bind k
  | tag b name args named next => tag b name args named fun r => (next r).bind k
  | build b block next => build b block fun r => (next r).bind k
  | apply c args named next => apply c args named fun r => (next r).bind k

instance : Monad Program where
  pure a := done (.value a)
  bind := bind

/-- The fault of a program as a value. -/
def observe : Program α → Program (Except Fault α)
  | done (.value a) => done (.value (.ok a))
  | done (.fault f) => done (.value (.error f))
  | done .exhausted => done .exhausted
  | act p next => act p fun r => (next r).observe
  | attach e change next => attach e change fun r => (next r).observe
  | tag b name args named next => tag b name args named fun r => (next r).observe
  | build b block next => build b block fun r => (next r).observe
  | apply c args named next => apply c args named fun r => (next r).observe

/-! ### Single deeds -/

def inState (p : Proc State α) : Program α := act p answer

def inWorld (p : Proc World α) : Program α := inState (World.inState p)

instance : MonadLift (Proc State) Program := ⟨inState⟩

instance : MonadLift (Proc World) Program := ⟨inWorld⟩

def fail (f : Fault) : Program α := done (.fault f)

def attachTo (e : ElementRef) (change : Element → Except Fault Element) : Program Unit :=
  attach e change answer

def call (b : BuilderRef) (name : Value) (args : List Value)
    (named : List (String × Value)) : Program ElementRef := tag b name args named answer

def runBuild (b : BuilderRef) (block : Value) : Program ElementRef := build b block answer

def invoke (c : Callable Value) (args : List Value) (named : List (String × Value)) :
    Program Value := apply c args named answer

def callByName (h : Handle) (name : String) (args : List Value)
    (named : List (String × Value)) : Program ElementRef := do
  let s ← (Proc.get : Proc State State)
  match s.world.lookupTag h.builder name with
  | .ok spelled => call h.builder (.text spelled) args named
  | .error f => fail f

/-! ### Running -/

def attachContent (e : ElementRef) (change : Element → Except Fault Element) :
    Proc State Unit := World.inState fun w => w.changeElement e change

/-- A program run, given how callables are called. -/
def run (caller : Caller) : Program α → Proc State α
  | done x => Proc.ofOutcome x
  | act p next => Proc.observe p >>= fun r => (next r).run caller
  | attach e change next =>
    Proc.observe (attachContent e change) >>= fun r => (next r).run caller
  | tag b name args named next =>
    Proc.observe (tagCall caller b name args named) >>= fun r => (next r).run caller
  | build b block next =>
    Proc.observe (TagTree.build caller b block) >>= fun r => (next r).run caller
  | apply c args named next =>
    Proc.observe (caller c args named) >>= fun r => (next r).run caller

theorem run_bind (caller : Caller) (p : Program α) (k : α → Program β) :
    (p >>= k).run caller = p.run caller >>= fun a => (k a).run caller := by
  show (p.bind k).run caller = _
  induction p with
  | done x => cases x <;> rfl
  | act d next ih => simp only [bind, run, bind_assoc, ih]
  | attach e change next ih => simp only [bind, run, bind_assoc, ih]
  | tag b name args named next ih => simp only [bind, run, bind_assoc, ih]
  | build b block next ih => simp only [bind, run, bind_assoc, ih]
  | apply c args named next ih => simp only [bind, run, bind_assoc, ih]

theorem run_observe (caller : Caller) (p : Program α) :
    p.observe.run caller = Proc.observe (p.run caller) := by
  induction p with
  | done x => cases x <;> rfl
  | act d next ih => simp only [observe, run, Proc.observe_bind, ih]
  | attach e change next ih => simp only [observe, run, Proc.observe_bind, ih]
  | tag b name args named next ih => simp only [observe, run, Proc.observe_bind, ih]
  | build b block next ih => simp only [observe, run, Proc.observe_bind, ih]
  | apply c args named next ih => simp only [observe, run, Proc.observe_bind, ih]

theorem run_answer (caller : Caller) (p : Proc State α) :
    (Proc.observe p >>= fun r => (answer r).run caller) = p := by
  funext s
  rw [Proc.bind_apply]
  unfold Proc.observe
  rcases p s with ⟨x, t⟩
  cases x <;> rfl

theorem run_inState (caller : Caller) (p : Proc State α) : (inState p).run caller = p :=
  run_answer caller p

theorem run_runBuild (caller : Caller) (b : BuilderRef) (block : Value) :
    (runBuild b block).run caller = TagTree.build caller b block := run_answer caller _

end Program

/-- Calls by code, with fuel for the callables that are open at once. -/
def callWithin (code : Code) : Nat → Caller
  | 0 => fun _ _ _ s => (.exhausted, s)
  | n + 1 => fun c args named => (code c args named).run (callWithin code n)

end TagTree
