import TagTree.Configuration

/-!
# Argument shapes

The positional arguments of a tag call are nothing, a block, a mapping with or
without a block after it, or a text value with or without a mapping after it. Named
arguments are attributes written after those of the mapping.
-/

namespace TagTree

/-- What positional arguments mean. The text is absent when there is none. -/
structure Shape where
  mapping : Option DictRef
  text : Value
  block : Option (Callable Value)

namespace Shape

def ofOne (v : Value) : Shape :=
  match v with
  | .callable c => ⟨none, .none, some c⟩
  | .dict d | .view d => ⟨some d, .none, none⟩
  | v => ⟨none, v, none⟩

/-- What positional arguments mean, or what is wrong with them (`_resolve_arguments`). -/
def ofArguments (args : List Value) : Except ShapeProblem Shape :=
  match args with
  | [] => .ok ⟨none, .none, none⟩
  | [v] => .ok (ofOne v)
  | [first, second] =>
    match first, first.mapping? with
    | .callable _, _ => .error .blockNotAlone
    | _, some d =>
      match second with
      | .callable c => .ok ⟨some d, .none, some c⟩
      | _ => .error .mappingBeforeOther
    | v, none =>
      match second.mapping? with
      | some d => .ok ⟨some d, v, none⟩
      | none => .error .textBeforeOther
  | _ => .error .tooMany

def namedAttributes (named : List (String × Value)) : Attributes :=
  named.map fun a => (.text a.1, a.2)

/-- The attributes of a mapping and of named arguments written after it (`_merge_attributes`);
none at all when neither is given. -/
def mergeAttributes (mapping : Option Dict) (named : List (String × Value)) :
    Option Attributes :=
  match mapping, named with
  | none, [] => none
  | mapping, named =>
    some (Table.insertAll Value.sameKey (mapping.getD []) (namedAttributes named))

end Shape

/-! ### Names -/

/-- Named arguments with the names that they spell; names that become equal fall
together. Without named arguments no setting is read. -/
def World.resolveNamed (w : World) (c : Configuration) (named : List (String × Value)) :
    Except Fault (List (String × Value)) := do
  let spelled ← named.mapM fun a => do
    let name ← w.resolveName c a.1
    pure (name, a.2)
  pure (Table.ofEntries (· == ·) spelled)

end TagTree
