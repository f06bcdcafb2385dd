import TagTree.Copy
import TagTree.Json.Value
import TagTree.Json.Writer
import TagTree.Plain
import TagTree.Repetition
import TagTree.Settings

/-!
# Settings as tables and JSON text

The table of settings has the fields in order, the policy by name, and copies of all
values; settings within settings become tables too. JSON text is that table written
out, and it is read back as the entries of a table.
-/

namespace TagTree

mutual

/-- Whether the copy of a key is no key: settings become tables. -/
def Value.becomesTable : Value → Bool
  | .settings .. => true
  | .tuple _ items => anyBecomesTable items
  | _ => false

def anyBecomesTable : List Value → Bool
  | [] => false
  | v :: rest => v.becomesTable || anyBecomesTable rest

end

/-- Whether a value is its own copy: atoms and functions are. -/
def Value.isOwnCopy : Value → Bool
  | .atom _ => true
  | .callable (.verbatim _) | .callable (.member ..) => false
  | .callable _ => true
  | _ => false

namespace Settings

def fieldEntries (w p u m d c : Plain) : List (String × Plain) :=
  [("indent_width", w), ("ambiguous_block_policy", p), ("strip_keyword_underscore", u),
    ("max_depth", m), ("enable_diagnostics", d), ("correlation_id", c)]

/-- The fields of settings under a policy given otherwise, from the copies of the
others. -/
def copiesWith (copy : Value → Except Fault Plain) (policy : Value) (s : Settings Value) :
    Except Fault (List (String × Plain)) := do
  let width ← copy s.indentWidth
  let unreserve ← copy s.unreserve
  let maxDepth ← copy s.maxDepth
  let diagnostics ← copy s.diagnostics
  let correlation ← copy s.correlation
  pure (fieldEntries width (.value policy) unreserve maxDepth diagnostics correlation)

def copiedEntries (copy : Value → Except Fault Plain) :
    Dict → Except Fault (List (Plain × Plain))
  | [] => pure []
  | (k, v) :: rest => do
    let key ← copy k
    let one ← copy v
    if k.becomesTable then throw (.unhashable "dict")
    let more ← copiedEntries copy rest
    pure ((key, one) :: more)

/-- The copy of a value in a table, as `asdict` makes it. -/
def copiedWithin (w : World) : Nat → Value → Except Fault Plain
  | 0, _ => .error .endless
  | n + 1, v =>
    match v with
    | .list l => do
      let items ← (w.store.items l).mapM (copiedWithin w n)
      pure (.list items)
    | .tuple _ items => do
      let items ← items.mapM (copiedWithin w n)
      pure (.tuple items)
    | .dict d => do
      let entries ← copiedEntries (copiedWithin w n) (w.store.entries d)
      pure (.dict entries)
    | .settings _ s => do
      let fields ← s.copiesWith (copiedWithin w n) (.policy s.policy)
      pure (.record fields)
    | v =>
      if v.isOwnCopy then .ok (.value v)
      else if w.copyable v then .ok (.copy v)
      else .error (.notCopyable "mappingproxy")

/-- The table of settings (`BuilderConfig.to_dict`). -/
def copies (w : World) (s : Settings Value) : Except Fault (List (String × Plain)) :=
  s.copiesWith (copiedWithin w World.readingDepth) (.text s.policy.name)

/-- What an answer tells of the table of settings. -/
def table (w : World) (s : Settings Value) : Except Fault Datum :=
  (s.copies w).map fun fields => .dict (Plain.readFields w fields)

def indentUnit (memory : Nat) : Value → Except Fault (Option String)
  | .none => .ok none
  | .text s => .ok (some s)
  | v => do
    let size ← Repetition.length memory 1 v
    pure (some (String.ofList (List.replicate size ' ')))

/-- Settings as text (`BuilderConfig.to_json`). -/
def toJson (w : World) (s : Settings Value) (indent : Value) : Except Fault String := do
  let table ← s.table w
  let unit ← indentUnit w.store.host.memory indent
  Json.write unit 0 table

/-- Settings from text (`BuilderConfig.from_json`). -/
def ofJson (text : Value) : Proc World (Settings Value) := do
  match ← Proc.ofExcept (Json.parse text) with
  | .object entries => do
    let entries ← World.inStore (Json.storeEntries entries)
    let w ← Proc.get
    Proc.ofExcept (ofEntries w entries)
  | _ => Proc.fail (.settings .notAnObject)

end Settings

end TagTree
