import TagTree.TagCall

/-!
# Builds

A build is refused while another runs on the same builder, or without a block to run.
Otherwise it begins a session, runs the block on the builder's handle, and ends the
session however the block ends. The first element created becomes the root; a build
without elements fails.
-/

namespace TagTree

namespace World

/-! ### Beginning -/

/-- A build admitted or refused, as `XMLTreeBuilder.build` begins. -/
def admitBuild (w : World) (b : BuilderRef) (block : Value) : Outcome (Callable Value) :=
  match w.builder? b with
  | none => .exhausted
  | some x =>
    if x.isBuilding then .fault .buildInProgress
    else match block with
      | .callable c => .value c
      | _ => .fault .notABlock

def startBuild (w : World) (b : BuilderRef) : World :=
  (w.updateBuilder b Builder.start).notice b .started

/-! ### Ending -/

/-- The top-level elements beside the root (`_check_orphaned_top_level`). -/
def orphansOf (s : Session) : List ElementRef :=
  (directly 0 s.log).filter fun e => s.root != some e

def reportOrphans (w : World) (b : BuilderRef) (s : Session) (root : ElementRef) : World :=
  let tags := (orphansOf s).map w.tagOf
  if tags.isEmpty then w
  else (w.notice b (.orphaned (w.tagOf root) tags.length)).remark b
    (.orphans (w.tagOf root) tags)

def countersOf (w : World) (b : BuilderRef) : Counters :=
  ((w.builder? b).map Builder.counters).getD .zero

/-- The world after a build that failed. Only ordinary exceptions are noted. -/
def failBuild (w : World) (b : BuilderRef) (f : Fault) : World :=
  let noted :=
    if f.isException then w.notice b (.failed (w.countersOf b).elementsCreated f.kind) else w
  noted.updateBuilder b (Builder.finish · none)

def completeBuild (w : World) (b : BuilderRef) (s : Session) (root : ElementRef) : World :=
  let reported := w.reportOrphans b s root
  let counters := reported.countersOf b
  (reported.updateBuilder b (Builder.finish · (some root))).notice b
    (.completed (reported.tagOf root) counters.elementsCreated counters.maxDepthReached)

def concludeBuild (w : World) (b : BuilderRef) : Outcome ElementRef × World :=
  match w.session? b with
  | none => (.exhausted, w)
  | some s =>
    match s.root with
    | none => (.fault .noRoot, w.failBuild b .noRoot)
    | some root => (.value root, w.completeBuild b s root)

end World

/-! ### The build -/

/-- The end of `XMLTreeBuilder.build`, whose session ends however its block ended. -/
def endBuild (b : BuilderRef) (ending : Outcome Value) : Proc State ElementRef := fun s =>
  match ending with
  | .value _ =>
    let (concluded, w) := s.world.concludeBuild b
    (concluded, { s with world := w })
  | .fault f => (.fault f, s.onWorld (·.failBuild b f))
  | .exhausted => (.exhausted, s.onWorld (·.updateBuilder b (Builder.finish · none)))

/-- A build (`XMLTreeBuilder.build`). -/
def build (call : Caller) (b : BuilderRef) (block : Value) : Proc State ElementRef := fun s =>
  match s.world.admitBuild b block with
  | .fault f => (.fault f, s)
  | .exhausted => (.exhausted, s)
  | .value c =>
    let started := s.onWorld (·.startBuild b)
    let (ending, after) := call c [.handle (started.world.handle b)] [] started
    endBuild b ending after

/-! ### Builders -/

/-- What a builder takes its settings from: the standard ones for a value that counts as
false. -/
def World.configurationFor (w : World) (v : Value) : Configuration :=
  match v with
  | .settings _ s => .settings s
  | v => if w.truthy v then .other v else .settings .standard

/-- A fresh builder (`XMLTreeBuilder.__init__`); its correlation is its own or else that of its
configuration. -/
def newBuilder (configuration correlation : Value) : Proc World BuilderRef := fun w =>
  let c := w.configurationFor configuration
  match if w.truthy correlation then .ok correlation else w.settingOf c .correlation with
  | .error f => (.fault f, w)
  | .ok correlation =>
    let b : BuilderRef := ⟨w.builders.size⟩
    (.value b,
      { w with
        store := { w.store with nextId := w.store.nextId + 1 }
        builders := w.builders.push (.idle c correlation w.store.nextId) })

end TagTree
