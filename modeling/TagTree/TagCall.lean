import TagTree.Journal
import TagTree.Rendering
import TagTree.Script.State
import TagTree.Shape

/-!
# Tag calls

A tag call is admitted or refused before anything changes. An admitted call creates
its element and logs it at the depth of the session. Its block then runs one level
deeper; when it returns, the elements logged at that level since become children, or
the returned value becomes text if nothing was logged. However the block ends, the
session is back at the depth of the call.
-/

namespace TagTree

structure TagCall where
  tag : String
  attributes : Option Attributes
  text : Value
  block : Option (Callable Value)

namespace TagCall

def element (c : TagCall) : Element :=
  if c.text.isNone then .bare c.tag c.attributes
  else { Element.bare c.tag c.attributes with content := .text c.text, isSealed := true }

end TagCall

/-- Whether blocks at a depth have used up a limit on nesting, as `_invoke` compares them. Only
numbers limit. -/
def limitReached (depth : Nat) (limit : Value) : Except Fault Bool :=
  match limit with
  | .none | .atom (.nan _) => .ok false
  | .atom (.float x) => .ok (x.compareInt depth != .gt)
  | v =>
    match v.int? with
    | some n => .ok (decide (n ≤ depth))
    | none => .error (.notComparable ">=" "int" v.typeName)

namespace World

/-! ### Admission -/

/-- Text of a limit that so many blocks have reached. A whole number is then at most the number
of blocks that run, so that its digits are few and it is written in any case. -/
def limitText (w : World) : Value → Outcome String
  | .int n => .value (toString n)
  | limit => w.write limit

def checkLimit (w : World) (name limit : Value) (depth : Nat) (hasBlock : Bool) :
    Outcome Unit :=
  if hasBlock then
    match limitReached depth limit with
    | .error f => .fault f
    | .ok false => .value ()
    | .ok true => do
      let text ← w.write name
      let shown ← w.limitText limit
      .fault (.nestingLimit name limit text shown)
  else .value ()

/-- A tag call in a running session admitted or refused, in the order of `_invoke`: by the names
of its named arguments, by the shape of the others, by the limit on nesting if it has a block,
and by its tag. -/
def admitInSession (w : World) (c : Configuration) (depth : Nat) (name : Value)
    (args : List Value) (named : List (String × Value)) : Outcome TagCall := do
  let named ← Outcome.ofExcept (w.resolveNamed c named)
  match Shape.ofArguments args with
  | .error p => do
    let text ← w.write name
    .fault (.argumentShape name text args p)
  | .ok shape => do
    let limit ← Outcome.ofExcept (w.settingOf c .maxDepth)
    w.checkLimit name limit depth shape.block.isSome
    let tag ← Outcome.ofExcept (Element.tagOf name)
    let mapping := shape.mapping.map w.store.entries
    pure ⟨tag, Shape.mergeAttributes mapping named, shape.text, shape.block⟩

/-- A tag call admitted or refused (`XMLTreeBuilder._invoke`); outside of a build it is refused at
once. -/
def admitCall (w : World) (b : BuilderRef) (name : Value) (args : List Value)
    (named : List (String × Value)) : Outcome TagCall :=
  match w.builder? b with
  | none => .exhausted
  | some x =>
    match x.session with
    | none => do
      let text ← w.write name
      .fault (.outsideBuild text)
    | some session => w.admitInSession x.configuration session.depth name args named

/-! ### Creation -/

/-- The element of an admitted call, and the world with it: stored, logged, counted and noted, as
`_invoke` does before the block. -/
def create (w : World) (b : BuilderRef) (c : TagCall) : ElementRef × World :=
  let e : ElementRef := ⟨w.store.elements.size⟩
  let depth := ((w.session? b).map Session.depth).getD 0
  let store := { w.store with elements := w.store.elements.push c.element }
  (e, (({ w with store := store }).updateBuilder b (Builder.logElement · e)).notice b
    (.created c.tag depth c.block.isSome))

/-! ### Settling a block -/

/-- Whether a value is one of the logged elements, or a list or tuple of them that is
not empty (`_is_logged`). -/
def isLogged (w : World) (entries : List (Nat × ElementRef)) (v : Value) : Bool :=
  let logged (v : Value) : Bool := v.element?.any fun e => entries.any fun x => x.2 == e
  match w.store.sequence? v with
  | some items => !items.isEmpty && items.all logged
  | none => logged v

/-- Whether a builder wants remarks. One that cannot read its settings admits no tag call
and so has nothing to remark. -/
def wantsRemarks (w : World) (x : Builder) : Bool :=
  match w.settingOf x.configuration .diagnostics with
  | .ok v => w.truthy v
  | .error _ => false

/-- The world with a remark of a builder that runs with diagnostics on (`_add_diagnostic`). -/
def remark (w : World) (b : BuilderRef) (r : Remark) : World :=
  match w.builder? b with
  | none => w
  | some x =>
    if w.wantsRemarks x && x.isBuilding then
      w.updateBuilder b fun x => { x with remarks := x.remarks ++ [r] }
    else w

/-- The policy of a builder about ambiguous blocks; what is no policy passes for the one
that leaves a remark. -/
def policyOf (w : World) (b : BuilderRef) : Except Fault Policy :=
  match w.builder? b with
  | none => .ok .diagnostic
  | some x => do
    match ← w.settingOf x.configuration .policy with
    | .policy p => pure p
    | _ => pure .diagnostic

/-- What a policy does about a value that is discarded (`_report_ambiguous_block`). -/
def reportAmbiguous (w : World) (b : BuilderRef) (e : ElementRef) (v : Value) :
    Outcome Unit × World :=
  let tag := w.tagOf e
  match w.policyOf b with
  | .error f => (.fault f, w)
  | .ok .strict => (.fault (.ambiguousBlock tag v (w.shown v)), w)
  | .ok .diagnostic =>
    (.value (), (w.notice b (.discarded tag)).remark b (.discardedValue tag (w.shown v)))
  | .ok .silent => (.value (), w)

def changeElement (w : World) (e : ElementRef) (f : Element → Except Fault Element) :
    Outcome Unit × World :=
  match w.store.element? e with
  | none => (.exhausted, w)
  | some x =>
    match f x with
    | .ok y => (.value (), { w with store := w.store.setElement e y })
    | .error fault => (.fault fault, w)

def giveChildren (w : World) (e : ElementRef) (children : List ElementRef) :
    Outcome Unit × World :=
  let claimed := { w with store := { w.store with nextId := w.store.nextId + 1 } }
  claimed.changeElement e (·.withContent (.children w.store.nextId children))

def loggedSince (w : World) (b : BuilderRef) (start : Nat) : List (Nat × ElementRef) :=
  ((w.session? b).map fun s => s.log.drop start).getD []

/-- The elements among entries that stand directly in the block at a depth. -/
def directly (depth : Nat) (entries : List (Nat × ElementRef)) : List ElementRef :=
  (entries.filter fun x => x.1 == depth).map Prod.snd

/-- The element of a block that returned a value, settled as in the body of `_nested`: entries
logged at the depth of the session become its children, or the value its text. -/
def settle (w : World) (b : BuilderRef) (e : ElementRef) (start : Nat) (result : Value) :
    Outcome Unit × World :=
  let added := w.loggedSince b start
  let depth := ((w.session? b).map Session.depth).getD 0
  if !added.isEmpty then
    match w.giveChildren e (directly depth added) with
    | (.value (), w) =>
      if !result.isNone && !w.isLogged added result then w.reportAmbiguous b e result
      else (.value (), w)
    | refused => refused
  else if !result.isNone then
    match w.changeElement e (·.attachText result) with
    | (.value (), w) => (.value (), w.updateBuilder b Builder.countScalar)
    | refused => refused
  else (.value (), w)

def handle (w : World) (b : BuilderRef) : Handle :=
  ⟨((w.builder? b).map Builder.handleId).getD 0, b⟩

def logLength (w : World) (b : BuilderRef) : Nat :=
  ((w.session? b).map fun s => s.log.length).getD 0

end World

/-! ### The call -/

/-- One level deeper (`_nested`, up to its body). -/
def enterBlock (b : BuilderRef) (s : State) : State :=
  s.onWorld (·.updateBuilder b Builder.enterBlock)

/-- One level up, however the body ended (`_nested`, finally). -/
def leaveBlock (b : BuilderRef) (s : State) : State :=
  s.onWorld (·.updateBuilder b Builder.leaveBlock)

/-- The end of an element's block. The element is settled if the block returned. -/
def endBlock (b : BuilderRef) (e : ElementRef) (start : Nat) (ending : Outcome Value) :
    Proc State ElementRef := fun s =>
  match ending with
  | .value v =>
    let (settled, w) := s.world.settle b e start v
    ((fun _ => e) <$> settled, leaveBlock b { s with world := w })
  | .fault f => (.fault f, leaveBlock b s)
  | .exhausted => (.exhausted, leaveBlock b s)

def runNested (call : Caller) (b : BuilderRef) (e : ElementRef) (block : Callable Value) :
    Proc State ElementRef := fun s =>
  let inside := enterBlock b s
  let (ending, after) := call block [.handle (inside.world.handle b)] [] inside
  endBlock b e (s.world.logLength b) ending after

/-- A tag call (`XMLTreeBuilder._invoke`). -/
def tagCall (call : Caller) (b : BuilderRef) (name : Value) (args : List Value)
    (named : List (String × Value)) : Proc State ElementRef := fun s =>
  match s.world.admitCall b name args named with
  | .fault f => (.fault f, s)
  | .exhausted => (.exhausted, s)
  | .value c =>
    let (e, w) := s.world.create b c
    let created := { s with world := w }
    match c.block with
    | none => (.value e, created)
    | some block => runNested call b e block created

end TagTree
