import TagTree.Reading
import TagTree.Text.Reserved

/-!
# Configurations

A builder reads each setting when it needs it. Settings have all six. A handle takes the
name of a setting for that of a tag and gives the tag's function, another builder has a
correlation only, and every other value has none.
-/

namespace TagTree

def Fault.lacking (v : Value) (name : String) : Fault :=
  match v with
  | .callable (.verbatim _) => .noAttribute "function" name
  | .callable (.member _ own) =>
    match memberKind? own with
    | some .method => .noAttribute "function" name
    | _ => .noAttribute v.typeName name
  | .callable .handleKind => .noAttributeOfKind "TagHandle" name
  | v => .noAttribute v.typeName name

inductive SettingName where
  | indentWidth
  | policy
  | unreserve
  | maxDepth
  | diagnostics
  | correlation
  deriving DecidableEq, Repr

def SettingName.text : SettingName → String
  | indentWidth => "indent_width"
  | policy => "ambiguous_block_policy"
  | unreserve => "strip_keyword_underscore"
  | maxDepth => "max_depth"
  | diagnostics => "enable_diagnostics"
  | correlation => "correlation_id"

namespace Settings

def get (s : Settings Value) : SettingName → Value
  | .indentWidth => s.indentWidth
  | .policy => .policy s.policy
  | .unreserve => s.unreserve
  | .maxDepth => s.maxDepth
  | .diagnostics => s.diagnostics
  | .correlation => s.correlation

def standard : Settings Value where
  indentWidth := .int 2
  policy := .diagnostic
  unreserve := .bool true
  maxDepth := .int 200
  diagnostics := .bool true
  correlation := .none

end Settings

namespace World

/-! ### Names on handles -/

/-- Whether names lose the underscore that sets them apart from reserved words, within a
number of builders. A handle in place of settings answers with a function, which counts
as true, once its own builder knows how it reads names. -/
def unreservesWithin (w : World) : Nat → Configuration → Except Fault Bool
  | _, .settings s => .ok (w.truthy s.unreserve)
  | n + 1, .other (.handle h) =>
    match w.builder? h.builder with
    | none => .ok true
    | some x => (unreservesWithin w n x.configuration).map fun _ => true
  | _, .other v => .error (.lacking v SettingName.unreserve.text)

/-- Whether names lose the underscore that sets them apart from reserved words. The
number of builders bounds a chain of builders that ask one another. -/
def unreserves (w : World) (c : Configuration) : Except Fault Bool :=
  w.unreservesWithin (w.builders.size + 1) c

/-- The name that a name spells (`_resolve_tag_name`). -/
def resolveName (w : World) (c : Configuration) (name : String) : Except Fault String := do
  let unreserves ← w.unreserves c
  pure (if unreserves then Text.unreserve name else name)

/-- The tag that a name looked up on a builder's handle makes, unless the name is private
(`TagHandle.__getattr__`). -/
def lookupTag (w : World) (b : BuilderRef) (name : String) : Except Fault String :=
  if name.toList.head? = some '_' then .error (.privateName name)
  else match w.builder? b with
    | none => .ok name
    | some x => w.resolveName x.configuration name

/-! ### Settings -/

def settingOf (w : World) (c : Configuration) (n : SettingName) : Except Fault Value :=
  match c with
  | .settings s => .ok (s.get n)
  | .other (.handle h) => do
    let tag ← w.lookupTag h.builder n.text
    pure (.callable (.factory 0 h.builder tag))
  | .other (.builder b) =>
    match n, w.builder? b with
    | .correlation, some x => .ok x.correlation
    | _, _ => .error (.lacking (.builder b) n.text)
  | .other v => .error (.lacking v n.text)

@[simp] theorem unreserves_settings (w : World) (s : Settings Value) :
    w.unreserves (.settings s) = .ok (w.truthy s.unreserve) := by
  simp [unreserves, unreservesWithin]

@[simp] theorem settingOf_settings (w : World) (s : Settings Value) (n : SettingName) :
    w.settingOf (.settings s) n = .ok (s.get n) := rfl

end World

end TagTree
