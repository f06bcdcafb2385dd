import TagTree.Configuration
import TagTree.Text.Letters
import TagTree.Value.Order

/-!
# Settings

Settings are made from a draft, whose fields may hold any values, by checking it.
Drafts come from named fields, from settings with some fields replaced, from tables
and from JSON text. Settings never change.
-/

namespace TagTree

/-- Settings before they are checked. -/
structure Draft where
  indentWidth : Value
  policy : Value
  unreserve : Value
  maxDepth : Value
  diagnostics : Value
  correlation : Value

namespace Draft

def ofSettings (s : Settings Value) : Draft where
  indentWidth := s.indentWidth
  policy := .policy s.policy
  unreserve := s.unreserve
  maxDepth := s.maxDepth
  diagnostics := s.diagnostics
  correlation := s.correlation

def standard : Draft := ofSettings .standard

def fieldNames : List String :=
  ["indent_width", "ambiguous_block_policy", "strip_keyword_underscore", "max_depth",
    "enable_diagnostics", "correlation_id"]

def set (d : Draft) (field : String) (v : Value) : Draft :=
  match field with
  | "indent_width" => { d with indentWidth := v }
  | "ambiguous_block_policy" => { d with policy := v }
  | "strip_keyword_underscore" => { d with unreserve := v }
  | "max_depth" => { d with maxDepth := v }
  | "enable_diagnostics" => { d with diagnostics := v }
  | "correlation_id" => { d with correlation := v }
  | _ => d

def setAll (d : Draft) (fields : List (String × Value)) : Draft :=
  fields.foldl (fun d field => d.set field.1 field.2) d

/-! ### Checking -/

/-- Whether a value is a number that is at most zero. Not-a-number is not. -/
def atMostZero (v : Value) : Except Fault Bool :=
  match v with
  | .atom (.float x) => .ok (x.compareInt 0 != .gt)
  | .atom (.nan _) => .ok false
  | v =>
    match v.int? with
    | some n => .ok (decide (n ≤ 0))
    | none => .error (.notComparable "<=" v.comparedName "int")

def isIndentWidth (v : Value) : Bool := v.int?.any fun n => decide (0 ≤ n)

/-- The settings of a draft (`BuilderConfig.__post_init__`); the first field at fault decides. -/
def check (d : Draft) : Except Fault (Settings Value) := do
  if !isIndentWidth d.indentWidth then throw (.settings .indentWidth)
  match d.policy with
  | .policy p =>
    if !d.maxDepth.isNone then
      if ← atMostZero d.maxDepth then throw (.settings .maxDepth)
    pure ⟨d.indentWidth, p, d.unreserve, d.maxDepth, d.diagnostics, d.correlation⟩
  | _ => throw (.settings .policy)

@[simp] theorem check_standard : standard.check = .ok .standard := rfl

end Draft

namespace Settings

/-! ### Ways to settings -/

def isField : Value → Bool
  | .text s => Draft.fieldNames.contains s
  | _ => false

def refuseUnknown (w : World) (keys : List Value) : Except Fault Unit := do
  let unknown := keys.filter fun k => !isField k
  if unknown.isEmpty then pure () else
    let sorted ← sortKeys unknown
    throw (.settings (.unknownFields (sorted.map w.shown)))

def ofFields (fields : List (String × Value)) : Except Fault (Settings Value) := do
  match fields.find? fun field => !Draft.fieldNames.contains field.1 with
  | some ("self", _) => throw (.repeatedArgument "BuilderConfig.__init__" "self")
  | some (name, _) => throw (.unexpectedArgument "BuilderConfig.__init__" name)
  | none => (Draft.standard.setAll fields).check

/-- Settings with some fields replaced (`BuilderConfig.override`). -/
def override (w : World) (s : Settings Value) (fields : List (String × Value)) :
    Except Fault (Settings Value) := do
  if fields.any fun field => field.1 == "self" then
    throw (.repeatedArgument "BuilderConfig.override" "self")
  refuseUnknown w (fields.map fun field => .text field.1)
  ((Draft.ofSettings s).setAll fields).check

def policyOf (v : Value) : Except Fault Value :=
  match v with
  | .text name =>
    match Policy.ofName? (Text.upperName name) with
    | some p => .ok (.policy p)
    | none => .error (.settings (.unknownPolicy name))
  | v => .ok v

def ofEntries (w : World) (entries : List (Value × Value)) : Except Fault (Settings Value) := do
  refuseUnknown w (entries.map Prod.fst)
  let draft := entries.foldl (fun d entry =>
    match entry.1 with
    | .text name => d.set name entry.2
    | _ => d) Draft.standard
  let policy ← policyOf draft.policy
  ({ draft with policy := policy }).check

/-- Settings from any value that spells a table (`BuilderConfig.from_dict`); its members must be
names of fields. -/
def ofTable (w : World) (data : Value) : Except Fault (Settings Value) := do
  let members ← w.store.membersOf data
  let keys ← Store.tableOf (members.map fun v => (v, .none))
  refuseUnknown w (keys.map Prod.fst)
  let entries ← w.store.dictOf data
  ofEntries w entries

def strict : Except Fault (Settings Value) :=
  ofFields [("ambiguous_block_policy", .policy .strict)]

def lenient : Except Fault (Settings Value) :=
  ofFields [("ambiguous_block_policy", .policy .silent), ("max_depth", .none),
    ("enable_diagnostics", .bool false)]

end Settings

end TagTree
