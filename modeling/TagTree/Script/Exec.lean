import TagTree.Samples
import TagTree.Script.Action
import TagTree.Script.Member
import TagTree.Script.Question

/-!
# Running scripts

Steps run in order; each leaves one entry when it finishes. A fault ends the block it
arises in, unless an attempt around it catches it; at the top of a script the next step
follows. Steps and callables are programs, so a script runs as programs do.
-/

namespace TagTree

namespace Expr

def run (current : Value) (x : Expr) : Proc State Value := fun s =>
  World.inState (World.inStore (x.eval ⟨s, current⟩)) s

def runOption (current : Value) : Option Expr → Proc State Value
  | none => pure .none
  | some x => x.run current

end Expr

/-! ### Runs -/

namespace Run

def answering {α : Type} (f : World → α) : Program α := Program.inWorld (Proc.gets f)

/-- A new builder, which builds at once if it is given a block. -/
def construct (settings correlation block : Value) : Program BuilderRef := do
  let b ← Program.inWorld (TagTree.newBuilder settings correlation)
  if !block.isNone then
    let _ ← Program.runBuild b block
  pure b

def buildFresh (settings correlation block : Value) : Program (BuilderRef × ElementRef) := do
  let b ← Program.inWorld (TagTree.newBuilder settings correlation)
  let root ← Program.runBuild b block
  pure (b, root)

def rendering (b : BuilderRef) : Program String :=
  Program.inWorld (Proc.reads fun w => w.renderBuilder b)

/-- The text of what a new builder builds. -/
def textFresh (settings correlation block : Value) : Program String := do
  let (b, _) ← buildFresh settings correlation block
  rendering b

/-- A block, settings and a correlation, evaluated in this order. -/
def given (current : Value) (block : Expr) (settings correlation : Option Expr) :
    Program (Value × Value × Value) := do
  let block ← block.run current
  let settings ← Expr.runOption current settings
  let correlation ← Expr.runOption current correlation
  pure (block, settings, correlation)

def reporting (b : BuilderRef) : Program BuilderReport :=
  Program.inWorld (Proc.reads fun w => w.builderReport b)

/-- A value applied to arguments, which are evaluated before the value has to be a
function. -/
def applied (current function : Value) (args : List Expr)
    (named : List (String × Expr)) : Program Result := do
  let args ← evalArguments (·.run current) args
  let named ← evalNamed (·.run current) named
  match function with
  | .callable c => do
    let v ← Program.invoke c args named
    answering fun w => Result.ofValue w v
  | v => Program.fail (.notCallable v.typeName)

def exec (current : Value) : Run Expr → Program Result
  | .newBuilder name block settings correlation => do
    let block ← Expr.runOption current block
    let settings ← Expr.runOption current settings
    let correlation ← Expr.runOption current correlation
    let b ← construct settings correlation block
    Program.inState (Proc.modify (·.nameBuilder name b))
    let report ← reporting b
    pure ⟨.builder b, .builder report⟩
  | .build name block => do
    let b ← Program.inState (Proc.reads fun s => .ofExcept (s.builder? name))
    let block ← block.run current
    let root ← Program.runBuild b block
    let report ← reporting b
    let shown ← answering fun w => w.readElement root
    pure ⟨.element root, .built shown report⟩
  | .buildTree block settings correlation => do
    let (block, settings, correlation) ← given current block settings correlation
    let (_, root) ← buildFresh settings correlation block
    let text ← Program.inWorld (Proc.reads fun w => w.renderAlone root)
    let shown ← answering fun w => w.readElement root
    pure ⟨.element root, .rendered shown text⟩
  | .buildText block settings correlation => do
    let (block, settings, correlation) ← given current block settings correlation
    let text ← textFresh settings correlation block
    pure (Result.ofText text)
  | .call h name args named => do
    let s ← (Proc.get : Proc State State)
    let v ← Program.inState (Proc.ofExcept (Action.handleOf ⟨s, current⟩ h))
    let function ← Program.inWorld (World.inStore (Surroundings.lookup s.world v name))
    applied current function args named
  | .invoke name args named => do
    let function ← Program.inState (Proc.reads fun s => .ofExcept (s.valueOf? name))
    applied current function args named
  | .sample which => do
    let before ← (Proc.get : Proc State State)
    let (block, settings, correlation) ← given .none which.blockOf none none
    let text ← textFresh settings correlation block
    Program.inState (Proc.modify fun s => { s with trace := before.trace })
    pure (Result.ofText text)

def operation {ε : Type} : Run ε → String
  | .newBuilder .. => "new"
  | .build .. => "build"
  | .buildTree .. => "build_fn"
  | .buildText .. => "build_string"
  | .call .. => "call"
  | .invoke .. => "invoke"
  | .sample _ => "example"

def shownBuilder? {ε : Type} (s : State) : Run ε → Option BuilderRef
  | .build name _ => Table.find? (· == ·) name s.builders
  | _ => none

end Run

def Action.operation {ε : Type} : Action ε → String
  | .keep _ => "let"
  | .putEntry .. => "dict_set"
  | .equal .. => "eq"
  | .display _ => "show"
  | .raise .. => "raise"
  | .fail .. => "error"
  | .state _ => "state"
  | .render _ => "render"
  | .builderText _ => "str"
  | .session _ => "session"
  | .handle _ => "handle"
  | .lookup .. => "lookup"
  | .element .. => "element"
  | .attachText .. | .attachChildren .. => "attach"
  | .property .. => "get"
  | .attributeOf .. => "attribute"
  | .find .. => "find"
  | .findAll .. => "find_all"
  | .nodes _ => "iter"
  | .toTable _ => "to_dict"
  | .renderElement .. => "render_el"
  | .settings _ | .override .. | .settingsOfTable _ | .settingsOfJson _ | .strictSettings
  | .lenientSettings => "config"
  | .settingsJson .. => "to_json"
  | .assignSetting .. => "config_set"
  | .diagnostic .. => "diagnostic"
  | .counters _ => "metrics"
  | .journal _ => "logs"
  | .logger .. => "logger"
  | .convert .. => "convert"
  | .exportTree _ => "to_etree"
  | .exportStrict .. => "to_lxml"
  | .adapter .. => "get_adapter"
  | .adapters _ => "adapters"
  | .package => "package"

def Action.evaluated (current : Value) (a : Action Expr) : Proc State (Action Value) :=
  a.evalWith (·.run current) fun v name =>
    Proc.bind Proc.get fun s => Proc.ofExcept (s.world.ask v name)

def Action.exec (current : Value) (a : Action Expr) : Program Result := do
  let a ← a.evaluated current
  match a.question? with
  | some q => q.put
  | none => do
    let s ← (Proc.get : Proc State State)
    a.perform ⟨s, current⟩

/-! ### Steps -/

/-- The report of a builder with a fault, where one is to be shown. -/
def faultBuilder (s : State) (b : Option BuilderRef) : Outcome (Option BuilderReport) :=
  match b with
  | none => .value none
  | some b => some <$> s.world.builderReport b

def faultEntry (operation : String) (s : State) (b : Option BuilderRef) (f : Fault) :
    Outcome Entry := do
  let report ← s.world.faultReport f
  let details := s.world.readDetails f
  if details.all fun d => d.2.whole then
    let builder ← faultBuilder s b
    if builder.all BuilderReport.whole then pure (.failed operation report details builder)
    else .fault .endless
  else .fault .endless

/-- The entry of a fault, which goes on. A fault that cannot be worded, or the values of which
cannot be told, leaves no entry and gives way to the fault of telling it. -/
def recordFault (operation : String) (shown : State → Option BuilderRef) (f : Fault) :
    Proc State Unit := fun s =>
  match faultEntry operation s (shown s) f with
  | .value entry => (.fault f, s.record entry)
  | .fault g => (.fault g, s)
  | .exhausted => (.exhausted, s)

/-- A step with its entry: the answer, whose value the step's variable keeps, or the
fault. An answer that cannot be told is a fault. -/
def recorded (operation : String) (keep : Option String)
    (shown : State → Option BuilderRef) (p : Program Result) : Program Unit := do
  match ← p.observe with
  | .ok r =>
    if r.answer.whole then
      Program.inState <| Proc.modify fun s =>
        (s.keep keep r.value).record (.done operation r.answer)
    else Program.inState (recordFault operation shown .endless)
  | .error f => Program.inState (recordFault operation shown f)

def countUp (counter : String) (body : Program Unit) : Nat → Nat → Program Unit
  | 0, _ => pure ()
  | n + 1, i => do
    Program.inState (Proc.modify (·.assign counter (.int i)))
    body
    countUp counter body n (i + 1)

def untraced {α : Type} (p : Program α) : Program α := do
  let before ← (Proc.get : Proc State State)
  let ending ← p.observe
  Program.inState (Proc.modify fun s => { s with trace := before.trace })
  Program.answer ending

def attemptAnswer (caught : List FaultKind) : Except Fault Unit → Program Result
  | .ok () => pure ⟨.none, .completed⟩
  | .error f =>
    if caught.any f.kind.isA then pure ⟨.none, .caught f.kind⟩ else Program.fail f

mutual

def Step.exec (current : Value) : Step → Program Unit
  | .attempt steps caught keep =>
    recorded "try" keep (fun _ => none) do
      let ending ← (execAll current steps).observe
      attemptAnswer caught ending
  | .loop count counter steps =>
    recorded "repeat" (some counter) (fun _ => none) do
      untraced (countUp counter (execAll current steps) count.toNat 0)
      pure ⟨.int count, .count count⟩
  | .run r keep =>
    recorded r.operation keep (fun s => r.shownBuilder? s) (r.exec current)
  | .act a keep => recorded a.operation keep (fun _ => none) (a.exec current)

def execAll (current : Value) : List Step → Program Unit
  | [] => pure ()
  | step :: rest => do
    step.exec current
    execAll current rest

end

/-! ### Callables -/

def callValue (function : Value) (args : List Value) : Program Value :=
  match function with
  | .callable c => Program.invoke c args []
  | v => Program.fail (.notCallable v.typeName)

def lookupIn (v : Value) (name : String) : Proc State Value := fun s =>
  World.inState (World.inStore (Surroundings.lookup s.world v name)) s

/-- The program of a callable. A block takes one positional argument, the handle; a tag's
function passes its arguments on to the tag call. -/
def Script.code : Code := fun c args named =>
  match c, args, named with
  | .block _ steps result, [current], [] => do
    execAll current steps
    result.run current
  | .chain id tag inner leaf, [v], [] => do
    let block := match inner with
      | [] => leaf
      | tag :: inner => .callable (.chain id tag inner leaf)
    match v with
    | .handle h => do
      let e ← Program.call h.builder (.text tag) [block] []
      pure (.element e)
    | v => do
      let function ← lookupIn v "tag"
      callValue function [.text tag, block]
  | .block .., args, _ => Program.fail (.argumentCount "block" 1 args.length)
  | .chain .., args, _ => Program.fail (.argumentCount "block" 1 args.length)
  | .factory _ b tag, args, named => do
    let e ← Program.call b (.text tag) args named
    pure (.element e)
  | .verbatim _, [], _ => Program.fail (.missingArgument "TagHandle.tag" "name")
  | .verbatim h, name :: args, named => do
    let e ← Program.call h.builder name args named
    pure (.element e)
  | .member h name, args, named => Program.inState fun s =>
    World.inState (World.inStore (h.call s.world name args named)) s
  | .handleKind, args, named => Program.inWorld <| World.inStore do
    match ← Proc.ofExcept (onlyArgument "TagHandle.__init__" "builder" args named) with
    | .builder b => do
      let id ← Store.newId
      pure (.handle ⟨id, b⟩)
    | _ => Proc.fail (.missingArgument "TagHandle.__init__" "builder")

/-! ### Scripts -/

namespace Script

def runWithin (fuel : Nat) (host : Host) (steps : List Step) : State :=
  steps.foldl (fun s step => ((step.exec .none).run (callWithin code fuel) s).2)
    (.initial host)

def nestingBound : Nat := 4000

def trace (host : Host) (steps : List Step) : List Entry :=
  (runWithin nestingBound host steps).trace

end Script

end TagTree
