import TagTree.Export
import TagTree.Script.State

/-!
# Reading answers out

What answers show of builders, sessions, counters, records and faults at one moment.
-/

namespace TagTree

def Remark.details : Remark → Datum
  | discardedValue tag shown =>
    .dict [(.text "tag", .text tag), (.text "discarded_value", .text shown)]
  | orphans _ tags => .dict [(.text "orphan_tags", .list (tags.map Datum.text))]

def Counters.report (c : Counters) : CountersReport where
  elementsCreated := .ofNat c.elementsCreated
  blocksEntered := .ofNat c.blocksEntered
  scalarBlocks := .ofNat c.scalarBlocks
  maxDepthReached := .ofNat c.maxDepthReached
  elementsPerBlock :=
    match elementsPerBlock (.int c.elementsCreated) (.int c.blocksEntered) with
    | .ok x => .atom x
    | .error _ => .none

/-! ### Records -/

namespace Record

def rootLogger : String := "simple_xml_builder"

def builderLogger : String := rootLogger ++ ".tree.builder"

def exportLogger : String := rootLogger ++ ".api.adapters"

def report : Record → RecordReport
  | .notice _ correlation n =>
    { level := n.level
      logger := builderLogger
      message := n.message
      component := .text builderComponent
      correlation := correlation
      extra := n.particulars.map fun p => (.text p.1, .atom p.2)
      cause := n.cause }
  | .conversion t correlation cause =>
    { level := if cause.isSome then .error else .debug
      logger := exportLogger
      message := if cause.isSome then "Conversion failed" else "Conversion completed"
      component := .text t.component
      correlation := correlation
      extra := [(.text "adapter", .text t.name)]
      cause := cause }

end Record

def takeJournal (levels : Option (List Level)) : Proc World (List RecordReport) := fun w =>
  let reports := w.journal.map Record.report
  let shown := match levels with
    | none => reports
    | some levels => reports.filter fun r => levels.contains r.level
  (.value shown, { w with journal := [] })

namespace World

/-! ### Builders and sessions -/

def readElement (w : World) (e : ElementRef) : Datum := w.read (.element e)

def readElement? (w : World) (e : Option ElementRef) : Datum :=
  (e.map w.readElement).getD .none

def remarkReport (w : World) (correlation : Value) (r : Remark) : DiagnosticReport where
  severity := .warning
  message := .text r.message
  component := .text builderComponent
  details := r.details
  correlation := w.read correlation

def builderReport (w : World) (b : BuilderRef) : Outcome BuilderReport :=
  match w.builder? b with
  | none => .exhausted
  | some x =>
    let report (render : Except FaultReport String) : BuilderReport :=
      { shown := w.shownBuilder b
        root := w.readElement? x.root
        building := x.isBuilding
        correlation := w.read x.correlation
        render := render
        diagnostics := x.remarks.map (w.remarkReport x.correlation)
        counters := x.counters.report }
    match w.renderBuilder b with
    | .value s => .value (report (.ok s))
    | .fault f => do
      let failure ← w.faultReport f
      pure (report (.error failure))
    | .exhausted => .exhausted

def sessionReport (w : World) (s : Session) : SessionReport where
  depth := s.depth
  root := w.readElement? s.root
  log := s.log.map fun x => (x.1, w.tagOf x.2)

/-! ### Faults -/

def readDetail (w : World) : Detail → Datum
  | .value v => w.read v
  | .arguments args => .tuple (args.map w.read)
  | .texts items => .list (items.map Datum.text)

def readDetails (w : World) (f : Fault) : List (String × Datum) :=
  f.details.map fun d => (d.1, w.readDetail d.2)

end World

end TagTree
