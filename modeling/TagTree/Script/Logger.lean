import TagTree.Script.Program
import TagTree.Script.Report
import TagTree.Value.Order

/-!
# Loggers

A logger writes under its name with a component and a correlation, which further
particulars may replace; the fields that every record has may not be replaced. Its
records are answered and stay out of the journal.
-/

namespace TagTree

structure Logger where
  name : String
  component : Value
  correlation : Value

namespace Logger

def lastPart (name : String) : String :=
  String.ofList (name.toList.reverse.takeWhile (· != '.')).reverse

/-- The logger of a name (`get_logger`); without a component, the last part of the name is one. -/
def make (w : World) (name : String) (component correlation : Value) : Logger :=
  ⟨name, if w.truthy component then component else .text (lastPart name), correlation⟩

/-! ### Particulars -/

def recordFields : List String :=
  ["message", "asctime", "name", "msg", "args", "levelname", "levelno", "pathname", "filename",
    "module", "exc_info", "exc_text", "stack_info", "lineno", "funcName", "created", "msecs",
    "relativeCreated", "thread", "threadName", "processName", "process"]

def timeKeys : List String := ["processing_time_ms", "conversion_time_ms", "timestamp"]

/-- Particulars with one more in its place by key; keys without an order stay as they
come. -/
def insertSorted (x : Value × Value) : Dict → Dict
  | [] => [x]
  | y :: rest =>
    match x.1.less y.1 with
    | .ok true => x :: y :: rest
    | _ => y :: insertSorted x rest

def sorted (xs : Dict) : Dict := xs.foldl (fun sorted x => insertSorted x sorted) []

/-- Whether a key is that of a particular that a record shows: the component and the
correlation stand apart, and durations are left out. -/
def isShown (key : Value) : Bool :=
  !(timeKeys ++ ["component", "correlation_id"]).any fun name => key.sameKey (.text name)

def taken (name : String) (other : Value) (extra : Dict) : Value :=
  (Table.find? Value.sameKey (.text name) extra).getD other

/-- Whether a logger is above that of builders, which then does not reach the journal
through it. -/
def coversBuilders (l : Logger) : Bool :=
  l.name == Record.builderLogger || Record.builderLogger.startsWith (l.name ++ ".")

/-- The keys of a handle that stands for particulars: there are none. A handle takes the
question for its keys for a tag call, whose element has no members; where it cannot look
up the name at all, it has none itself. -/
def keysOf (l : Logger) (h : Handle) : Program Dict := do
  let before ← (Proc.get : Proc World World)
  if let .error _ := before.lookupTag h.builder "keys" then
    Program.fail (.notIterable "TagHandle")
  let _ ← Program.callByName h "keys" [] []
  if l.coversBuilders then
    Program.inWorld (Proc.modify fun w => { w with journal := before.journal })
  Program.fail (.notIterableResult "TagHandle.keys" "XMLElement")

/-- The entries that a value spells; one that counts as false has none. -/
def entriesOf (extra : Value) : Proc World Dict := fun w =>
  if w.truthy extra then (.ofExcept (w.store.dictOf extra), w) else (.value [], w)

def particulars (l : Logger) (extra : Value) : Program Dict :=
  match extra with
  | .handle h => l.keysOf h
  | v => Program.inWorld (entriesOf v)

/-! ### Calls -/

def overwritten? (extra : Dict) : Option String :=
  extra.findSome? fun x =>
    match x.1 with
    | .text s => if recordFields.contains s then some s else none
    | _ => none

def recordOf (w : World) (l : Logger) (c : LogCall Value) (extra : Dict) : RecordReport :=
  let withFault := c.method == .exception || c.withFault.getD false
  { level := c.method.level
    logger := if l.name.isEmpty then "root" else l.name
    message := c.message
    component := w.read (taken "component" l.component extra)
    correlation := w.read (taken "correlation_id" l.correlation extra)
    extra := (sorted (extra.filter fun x => isShown x.1)).map fun x =>
      (w.read x.1, w.read x.2)
    cause := if withFault then c.during else none }

/-- A call on a logger. The method that records the fault being handled takes no word on
whether to do so. -/
def record (l : Logger) (c : LogCall Value) : Program RecordReport := do
  if c.method == .exception && c.withFault.isSome then
    Program.fail (.unexpectedArgument "CorrelationLogger.exception" "exc_info")
  let extra ← l.particulars (c.extra.getD .none)
  match overwritten? extra with
  | some key => Program.fail (.overwrittenRecordField key)
  | none => Program.inWorld (Proc.gets fun w => recordOf w l c extra)

def call (l : Logger) (c : LogCall Value) :
    Program (Except FaultReport RecordReport) := do
  match ← (l.record c).observe with
  | .ok r => pure (.ok r)
  | .error f => do
    let report ← Program.inWorld (Proc.reads fun w => w.faultReport f)
    pure (.error report)

def callAll (l : Logger) :
    List (LogCall Value) → Program (List (Except FaultReport RecordReport))
  | [] => pure []
  | c :: rest => do
    let report ← l.call c
    let reports ← callAll l rest
    pure (report :: reports)

end Logger

end TagTree
