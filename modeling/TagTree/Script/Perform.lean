import TagTree.Element.Property
import TagTree.Fault.Construct
import TagTree.Package
import TagTree.Plain
import TagTree.Script.Logger
import TagTree.Script.Member
import TagTree.Settings.Table
import TagTree.Text.Search

/-!
# Performing actions

An action reads the world, makes objects, changes lists, dictionaries and elements, or
writes into the journal. It runs no block; a handle that it asks for something may take
the question for a tag call without arguments.
-/

namespace TagTree

structure Result where
  value : Value
  answer : Answer

namespace Result

def ofValue (w : World) (v : Value) : Result := ⟨v, .datum (w.read v)⟩

def ofText (s : String) : Result := ⟨.text s, .text s⟩

end Result

namespace World

/-! ### Elements -/

/-- The fault of a value that is asked for what it has not; a handle keeps private names
to itself. -/
def lacking (v : Value) (asked : String) : Fault :=
  match v with
  | .handle _ =>
    if asked.toList.head? = some '_' then .privateName asked else .lacking v asked
  | v => .lacking v asked

def elementOf (w : World) (v : Value) (asked : String) :
    Except Fault (ElementRef × Element) :=
  match v with
  | .element e =>
    match w.store.element? e with
    | some x => .ok (e, x)
    | none => .error (lacking v asked)
  | v => .error (lacking v asked)

def asked (v : Value) (name : String) : Proc World ElementRef :=
  Proc.reads fun w => .ofExcept ((w.elementOf v name).map Prod.fst)

def treeOf (w : World) (e : ElementRef) : Outcome ElementTree :=
  Outcome.ofOption (w.store.tree? e)

def hasTag (tag : Value) (n : Node) : Bool := Value.sameKey (.text n.tag) tag

def topmost (t : ElementTree) : Value := .element t.head.ref

/-- The position of a part in a text or in bytes. A whole number stands for one byte. -/
def positionIn? (whole part : Value) : Option (Except Fault Int) :=
  match whole, part with
  | .text s, .text t => some (.ok (Text.positionOf t.toList s.toList))
  | .text _, v => some (.error (.notAText v.typeName))
  | .atom (.bytes b), .atom (.bytes c) => some (.ok (Text.positionOf c b))
  | .atom (.bytes b), v =>
    match v.int? with
    | none => some (.error (.notBytes v.typeName))
    | some n =>
      if 0 ≤ n ∧ n < 256 then some (.ok (Text.positionOf [UInt8.ofNat n.toNat] b))
      else some (.error .notAByte)
  | _, _ => none

/-! ### Settings -/

def settingsResult (s : Settings Value) : Proc World Result := do
  let w ← Proc.get
  let table ← Proc.ofExcept (s.table w)
  let id ← World.inStore Store.newId
  pure ⟨.settings id s, .settings (w.shown (.settings id s)) table⟩

def settingsOf (v : Value) (asked : String) : Except Fault (Settings Value) :=
  match v with
  | .settings _ s => .ok s
  | v => .error (lacking v asked)

def elementFunctions : List String :=
  ["iter", "find", "find_all", "get_attribute", "to_dict", "render", "_seal",
    "_attach_children", "_attach_text", "_opening_tag", "_closing_tag"]

def settingsFunctions : List String := ["override", "to_dict", "to_json"]

/-- The check that a value has a function that it is asked for. A handle has those of all
tags. -/
def ask (w : World) (v : Value) (name : String) : Except Fault Unit :=
  let has (names : List String) : Except Fault Unit :=
    if names.contains name then .ok () else .error (lacking v name)
  match v with
  | .handle h => (w.lookupTag h.builder name).map fun _ => ()
  | .element _ => has elementFunctions
  | .settings .. => has settingsFunctions
  | .text _ | .atom (.bytes _) => has ["find"]
  | _ => has []

def elementProperties : List String :=
  [Property.tag, .attributes, .content, .children, .text, .selfClosing, .hasChildren].map
    Property.name

/-- Why a name cannot be set on a value. Policies, builders and functions take any. -/
def refusedAssignment? (v : Value) (name : String) : Option Fault :=
  match v with
  | .settings .. => some (.frozenField name)
  | .handle h => some (h.assigning (.text name))
  | .element _ =>
    if elementProperties.contains name then some (.noSetter "XMLElement" name)
    else if elementFunctions.contains name then some (.readOnly "XMLElement" name)
    else some (.noAttribute "XMLElement" name)
  | .atom (.policy _) | .builder _ => none
  | .callable (.block ..) | .callable (.chain ..) | .callable (.factory ..) => none
  | v => some (.noAttribute v.typeName name)

/-! ### Reports -/

def diagnosticReport (w : World) (severity : Level) (message component details
    correlation : Value) : Except Fault DiagnosticReport := do
  if !w.truthy message then throw .emptyDiagnosticMessage
  if !w.truthy component then throw .emptyDiagnosticComponent
  pure ⟨severity, w.read message, w.read component, w.read details, w.read correlation⟩

def counterNames : List String :=
  ["processing_time_ms", "elements_created", "blocks_entered", "scalar_blocks",
    "max_depth_reached"]

def countersReport (w : World) (fields : List (String × Value)) :
    Except Fault CountersReport := do
  match fields.find? fun field => !counterNames.contains field.1 with
  | some ("self", _) => throw (.repeatedArgument "BuildMetrics.__init__" "self")
  | some (name, _) => throw (.unexpectedArgument "BuildMetrics.__init__" name)
  | none =>
    let field (name : String) : Value := (Table.find? (· == ·) name fields).getD (.int 0)
    let elements := field "elements_created"
    let blocks := field "blocks_entered"
    let perBlock ← elementsPerBlock elements blocks
    pure ⟨w.read elements, w.read blocks, w.read (field "scalar_blocks"),
      w.read (field "max_depth_reached"), .atom perBlock⟩

/-! ### Export targets -/

/-- The target that a value names. Bytes name none, nor does the element of the tag call
for which a handle takes the question for the name in lower case. -/
def targetOf (v : Value) : Program (Option Target) :=
  match v with
  | .text s => pure (Target.ofName? s)
  | .atom (.bytes _) => pure none
  | .handle h => do
    let _ ← Program.callByName h "lower" [] []
    pure none
  | v => Program.fail (.lacking v "lower")

end World

/-! ### Actions -/

namespace Action

def answering (f : World → Except Fault Result) : Proc World Result := fun w =>
  match f w with
  | .ok r => (.value r, w)
  | .error fault => (.fault fault, w)

def making (p : Proc Store Value) : Proc World Result := do
  let v ← World.inStore p
  Proc.gets fun w => Result.ofValue w v

def listOf (items : List Value) : Proc World Value := World.inStore do
  let l ← Store.newList items
  pure (.list l)

def nameOf (v : Value) (asked : String) : Except Fault String :=
  match v with
  | .callable .handleKind => .ok "TagHandle"
  | .callable _ => .ok asked
  | v => .error (.lacking v "__name__")

def handleOf (env : Surroundings) : Option String → Except Fault Value
  | none => .ok env.current
  | some name => env.state.valueOf? name

def perform (env : Surroundings) : Action Value → Program Result
  | .keep v => Program.inWorld <| Proc.gets fun w => Result.ofValue w v
  | .putEntry container v k => Program.inWorld do
    match container with
    | .dict d => do
      let entries ← Proc.gets fun w => w.store.entries d
      let table ← Proc.ofExcept (Store.putKey entries k v)
      Proc.modify fun w => { w with store := w.store.setDict d table }
      Proc.gets fun w => Result.ofValue w (.dict d)
    | .list l => do
      let items ← Proc.gets fun w => w.store.items l
      let changed ← Proc.ofExcept (Store.putItem items k v)
      Proc.modify fun w => { w with store := w.store.setList l changed }
      Proc.gets fun w => Result.ofValue w (.list l)
    | other => Proc.fail (.notAssignable other.typeName)
  | .equal a b => Program.inWorld <|
    Proc.gets fun w => ⟨.bool (w.equal a b), .truth (w.equal a b)⟩
  | .display v => Program.inWorld <| Proc.reads fun w => do
    let text ← w.write v
    pure ⟨.none, .shown text (w.shown v)⟩
  | .raise kind message => Program.inWorld do
    let f ← Proc.reads fun w => w.construct kind [.text message]
    Proc.fail f
  | .fail kind args => Program.inWorld do
    let f ← Proc.reads fun w => w.construct kind args
    Proc.fail f
  | .state name => Program.inWorld do
    let b ← Proc.ofExcept (env.state.builder? name)
    Proc.reads fun w => do
      let report ← w.builderReport b
      pure ⟨.none, .builder report⟩
  | .render name => Program.inWorld do
    let b ← Proc.ofExcept (env.state.builder? name)
    Proc.reads fun w => do
      let text ← w.renderBuilder b
      pure (Result.ofText text)
  | .builderText name => Program.inWorld do
    let b ← Proc.ofExcept (env.state.builder? name)
    Proc.reads fun w => do
      let text ← w.write (.builder b)
      pure (Result.ofText text)
  | .session name => Program.inWorld do
    let b ← Proc.ofExcept (env.state.builder? name)
    Proc.gets fun w =>
      match w.session? b with
      | none => ⟨.none, .session none⟩
      | some s => ⟨(s.root.map Value.element).getD .none, .session (some (w.sessionReport s))⟩
  | .handle none => Program.inWorld <|
    Proc.gets fun w => ⟨env.current, .text (w.shown env.current)⟩
  | .handle (some name) => Program.inWorld do
    let b ← Proc.ofExcept (env.state.builder? name)
    let id ← World.inStore Store.newId
    Proc.gets fun w => ⟨.handle ⟨id, b⟩, .text (w.shown (.handle ⟨id, b⟩))⟩
  | .lookup h name => Program.inWorld do
    let v ← Proc.ofExcept (handleOf env h)
    let w ← Proc.get
    let found ← World.inStore (Surroundings.lookup w v name)
    let text ← Proc.ofExcept (nameOf found name)
    pure ⟨found, .text text⟩
  | .element tag attributes content => Program.inWorld <| making do
    let e ← Store.makeElement tag (attributes.getD .none) (content.getD .none)
    pure (.element e)
  | .attachText v text => do
    let e ← Program.inWorld (World.asked v "_attach_text")
    Program.attachTo e (·.attachText text)
    Program.inWorld <| Proc.gets fun w => Result.ofValue w v
  | .attachChildren v children => do
    let e ← Program.inWorld (World.asked v "_attach_children")
    let store ← Program.inWorld (Proc.gets World.store)
    Program.attachTo e (store.attachMembers · children)
    let _ ← Program.inWorld (World.inStore Store.newId)
    Program.inWorld <| Proc.gets fun w => Result.ofValue w v
  | .property (.handle h) p => Program.inWorld do
    let w ← Proc.get
    making (Surroundings.lookup w (.handle h) p.name)
  | .property v p => Program.inWorld do
    let w ← Proc.get
    let (_, x) ← Proc.ofExcept (w.elementOf v p.name)
    making (x.property p)
  | .attributeOf v name default => answering fun w => do
    let (_, x) ← w.elementOf v "get_attribute"
    let found ← x.attribute? name (default.getD .none)
    pure (Result.ofValue w found)
  | .find v tag => Program.inWorld do
    let w ← Proc.get
    match World.positionIn? v tag with
    | some position => do
      let n ← Proc.ofExcept position
      pure (Result.ofValue w (.int n))
    | none => do
      let (e, _) ← Proc.ofExcept (w.elementOf v "find")
      let t ← Proc.ofOutcome (w.treeOf e)
      let found := (t.find? (World.hasTag tag)).map World.topmost
      pure (Result.ofValue w (found.getD .none))
  | .findAll v tag => Program.inWorld do
    let w ← Proc.get
    let (e, _) ← Proc.ofExcept (w.elementOf v "find_all")
    let t ← Proc.ofOutcome (w.treeOf e)
    let found ← listOf ((t.findAll (World.hasTag tag)).map World.topmost)
    Proc.gets fun w => Result.ofValue w found
  | .nodes v => Program.inWorld do
    let w ← Proc.get
    let (e, _) ← Proc.ofExcept (w.elementOf v "iter")
    let t ← Proc.ofOutcome (w.treeOf e)
    let found ← listOf (t.nodes.map World.topmost)
    pure ⟨found, .names (t.nodes.map fun x => x.head.tag)⟩
  | .toTable (.settings _ s) => Program.inWorld do
    let w ← Proc.get
    let fields ← Proc.ofExcept (s.copies w)
    let v ← World.inStore (Plain.keep fields)
    pure ⟨v, .datum (.dict (Plain.readFields w fields))⟩
  | .toTable v => Program.inWorld do
    let w ← Proc.get
    let (e, _) ← Proc.ofExcept (w.elementOf v "to_dict")
    let t ← Proc.ofOutcome (w.treeOf e)
    making (Plain.store (ElementTree.plain t))
  | .renderElement (.builder b) depth width => Program.inWorld do
    match depth, width with
    | none, none => do
      let text ← Proc.reads fun w => w.renderBuilder b
      pure (Result.ofText text)
    | some _, _ => Proc.fail (.unexpectedArgument "XMLTreeBuilder.render" "depth")
    | none, some _ => Proc.fail (.unexpectedArgument "XMLTreeBuilder.render" "indent_width")
  | .renderElement v depth width => Program.inWorld do
    let w ← Proc.get
    let (e, _) ← Proc.ofExcept (w.elementOf v "render")
    let width := width.getD (.int World.indentationSpacing)
    let depth := depth.getD (.int 0)
    let _ ← Proc.ofExcept (Repetition.indentation w.store.host.memory width depth)
    let text ← Proc.ofOutcome (w.render e width (depth.int?.getD 0))
    pure (Result.ofText text)
  | .settings fields => Program.inWorld do
    let s ← Proc.ofExcept (Settings.ofFields fields)
    World.settingsResult s
  | .override base fields => Program.inWorld do
    let w ← Proc.get
    let s ← Proc.ofExcept (World.settingsOf base "override")
    let s ← Proc.ofExcept (s.override w fields)
    World.settingsResult s
  | .settingsOfTable data => Program.inWorld do
    let w ← Proc.get
    let s ← Proc.ofExcept (Settings.ofTable w data)
    World.settingsResult s
  | .settingsOfJson text => Program.inWorld do
    let s ← Settings.ofJson text
    World.settingsResult s
  | .strictSettings => Program.inWorld do
    let s ← Proc.ofExcept Settings.strict
    World.settingsResult s
  | .lenientSettings => Program.inWorld do
    let s ← Proc.ofExcept Settings.lenient
    World.settingsResult s
  | .settingsJson v indent => Program.inWorld <| answering fun w => do
    let s ← World.settingsOf v "to_json"
    let text ← s.toJson w (indent.getD (.int 2))
    pure (Result.ofText text)
  | .assignSetting v name _ => Program.inWorld <|
    match World.refusedAssignment? v name with
    | some fault => Proc.fail fault
    | none => pure ⟨.none, .datum .none⟩
  | .diagnostic severity message component details correlation => Program.inWorld <|
    answering fun w => do
      let report ← w.diagnosticReport severity message component (details.getD .none)
        (correlation.getD .none)
      pure ⟨.none, .diagnostic report⟩
  | .counters fields => Program.inWorld <| answering fun w => do
    let report ← w.countersReport fields
    pure ⟨.none, .counters report⟩
  | .journal levels => Program.inWorld do
    let reports ← takeJournal levels
    pure ⟨.none, .records reports⟩
  | .logger name correlation component calls => do
    let l ← Program.inWorld <| Proc.gets fun w =>
      Logger.make w name (component.getD .none) (correlation.getD .none)
    let records ← l.callAll calls
    Program.inWorld <| Proc.gets fun w =>
      ⟨.none, .logger (w.read l.component) (w.read l.correlation) records⟩
  | .convert target v correlation installed => do
    match ← World.targetOf target with
    | none => Program.fail (.noAttribute "NoneType" "to_target")
    | some t => Program.inWorld do
      let r ← Export.convert t (correlation.getD .none) installed v
      let metadata := r.metadata.map fun x => (x.1, Datum.ofNat x.2)
      pure ⟨.none, .conversion ⟨r.errors, metadata, r.data⟩⟩
  | .exportTree v => Program.inWorld do
    let m ← Export.strictly .elementTree true v
    pure ⟨.none, .tree m⟩
  | .exportStrict v installed => Program.inWorld do
    let m ← Export.strictly .lxml installed v
    pure ⟨.none, .tree m⟩
  | .adapter name correlation installed => do
    match ← World.targetOf name with
    | none => pure ⟨.none, .target none⟩
    | some t => Program.inWorld <| Proc.gets fun w =>
      ⟨.none,
        .target (some ⟨t, w.read (correlation.getD .none), t.available installed⟩)⟩
  | .adapters installed => Program.inWorld do
    let names := (Target.all.filter (·.available installed)).map Target.name
    let found ← listOf (names.map Value.text)
    pure ⟨found, .names names⟩
  | .package => Program.inWorld <|
    pure ⟨.none, .package version author offeredNames World.indentationSpacing⟩

end Action

end TagTree
