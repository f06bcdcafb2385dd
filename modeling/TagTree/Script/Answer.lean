import TagTree.Markup
import TagTree.Rendering

/-!
# Answers

What finished steps answer. An answer is read out when its step finishes, so it shows
the state at that moment.
-/

namespace TagTree

structure FaultReport where
  kind : FaultKind
  message : String
  deriving DecidableEq, Repr

def World.faultReport (w : World) (f : Fault) : Outcome FaultReport := do
  let message ← w.word f.wording
  pure ⟨f.kind, message⟩

structure DiagnosticReport where
  severity : Level
  message : Datum
  component : Datum
  details : Datum
  correlation : Datum

def DiagnosticReport.whole (r : DiagnosticReport) : Bool :=
  r.message.whole && r.component.whole && r.details.whole && r.correlation.whole

structure CountersReport where
  elementsCreated : Datum
  blocksEntered : Datum
  scalarBlocks : Datum
  maxDepthReached : Datum
  elementsPerBlock : Datum

def CountersReport.whole (r : CountersReport) : Bool :=
  r.elementsCreated.whole && r.blocksEntered.whole && r.scalarBlocks.whole &&
    r.maxDepthReached.whole && r.elementsPerBlock.whole

structure BuilderReport where
  shown : String
  root : Datum
  building : Bool
  correlation : Datum
  render : Except FaultReport String
  diagnostics : List DiagnosticReport
  counters : CountersReport

def BuilderReport.whole (r : BuilderReport) : Bool :=
  r.root.whole && r.correlation.whole && r.diagnostics.all DiagnosticReport.whole &&
    r.counters.whole

structure SessionReport where
  depth : Nat
  root : Datum
  log : List (Nat × String)

structure RecordReport where
  level : Level
  logger : String
  message : String
  component : Datum
  correlation : Datum
  extra : List (Datum × Datum)
  cause : Option FaultKind

def RecordReport.whole (r : RecordReport) : Bool :=
  r.component.whole && r.correlation.whole && r.extra.all fun x => x.1.whole && x.2.whole

structure ConversionReport where
  errors : List String
  metadata : List (String × Datum)
  data : Option Markup

structure TargetReport where
  target : Target
  correlation : Datum
  available : Bool

inductive Answer where
  | datum (d : Datum)
  | text (s : String)
  | truth (b : Bool)
  | count (n : Int)
  | completed
  | caught (kind : FaultKind)
  | shown (text form : String)
  | builder (report : BuilderReport)
  | built (root : Datum) (report : BuilderReport)
  | rendered (root : Datum) (text : String)
  | session (report : Option SessionReport)
  | names (names : List String)
  | settings (shown : String) (table : Datum)
  | diagnostic (report : DiagnosticReport)
  | counters (report : CountersReport)
  | records (reports : List RecordReport)
  | logger (component correlation : Datum) (records : List (Except FaultReport RecordReport))
  | conversion (report : ConversionReport)
  | tree (t : Markup)
  | target (report : Option TargetReport)
  | package (version author : String) (names : List String) (indentation : Nat)

/-- Whether an answer can be told: all that it shows comes to an end. -/
def Answer.whole : Answer → Bool
  | .datum d | .settings _ d => d.whole
  | .builder r => r.whole
  | .built root r => root.whole && r.whole
  | .rendered root _ => root.whole
  | .session (some r) => r.root.whole
  | .diagnostic r => r.whole
  | .counters r => r.whole
  | .records rs => rs.all RecordReport.whole
  | .logger component correlation rs => component.whole && correlation.whole &&
    rs.all fun r => match r with
      | .ok r => r.whole
      | .error _ => true
  | .conversion r => r.metadata.all fun x => x.2.whole
  | .target (some r) => r.correlation.whole
  | _ => true

/-- The trace of a step that finished: its operation, and its answer or its fault
with the values that the fault carries and the builder it left. -/
inductive Entry where
  | done (operation : String) (answer : Answer)
  | failed (operation : String) (report : FaultReport) (details : List (String × Datum))
      (builder : Option BuilderReport)

end TagTree
