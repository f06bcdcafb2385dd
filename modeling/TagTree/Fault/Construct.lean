import TagTree.Rendering

/-!
# Faults by hand

A fault can be made from a kind and arguments. Kinds with particulars of their own take
these as arguments and word their message from them; all others take the message.
-/

namespace TagTree

def inWords : List String → String
  | [] => ""
  | [a] => a
  | [a, b] => a ++ " and " ++ b
  | names => ", ".intercalate (names.take (names.length - 1)) ++ ", and "
      ++ (names.getLast?.getD "")

/-- The particulars that a kind requires, those it may also be given, and the name that
complaints about them use. -/
def FaultKind.parameters : FaultKind → Option (String × List String × List String)
  | .argumentShape => some ("InvalidArgumentShapeError", ["tag", "args", "reason"], [])
  | .emptyBuild => some ("EmptyBuildError", [], ["message"])
  | .ambiguousBlock => some ("AmbiguousBlockError", ["tag", "value"], [])
  | .nestingLimit => some ("MaxDepthExceededError", ["tag", "max_depth"], [])
  | .settingsValidation =>
    some ("ConfigValidationError", ["message"], ["field_name", "suggestions"])
  | _ => none

def FaultKind.miscounted (k : FaultKind) (given : Nat) : Option Fault :=
  match k, k.parameters with
  | .decoding, _ =>
    some (.reported .type (.fixed ("function takes exactly 5 arguments (" ++ Nat.repr given
      ++ " given)")) [])
  | _, none => none
  | _, some (owner, required, optional) =>
    let most := required.length + optional.length
    if given < required.length then
      let missing := (required.drop given).map fun name => "'" ++ name ++ "'"
      let noun := if missing.length = 1 then " argument: " else " arguments: "
      some (.reported .type (.fixed (owner ++ ".__init__() missing "
        ++ Nat.repr missing.length ++ " required positional" ++ noun ++ inWords missing)) [])
    else if most < given then
      let range := if optional.isEmpty then Nat.repr (most + 1)
        else "from " ++ Nat.repr (required.length + 1) ++ " to " ++ Nat.repr (most + 1)
      some (.reported .type (.fixed (owner ++ ".__init__() takes " ++ range
        ++ " positional arguments but " ++ Nat.repr (given + 1) ++ " were given")) [])
    else none

namespace World

def plainWording (k : FaultKind) : List Value → Wording
  | [] => .fixed ""
  | [v] => if k = .key then .shown v else .written v
  | args => .listed args

def construct (w : World) (k : FaultKind) (args : List Value) : Outcome Fault :=
  match k.miscounted args.length with
  | some f => .fault f
  | none =>
    match k, args with
    | .argumentShape, [tag, given, reason] =>
      match w.store.membersOf given with
      | .error f => .fault f
      | .ok members => do
        let tagText ← w.write tag
        let reasonText ← w.write reason
        pure (.reported k (.fixed ("Invalid arguments for <" ++ tagText ++ "> ("
          ++ ", ".intercalate (members.map Value.typeName) ++ "): " ++ reasonText))
          [("tag", .value tag), ("args_received", .value given), ("reason", .value reason)])
    | .emptyBuild, [] => pure .noRoot
    | .ambiguousBlock, [tag, v] => do
      let tagText ← w.write tag
      pure (.reported k (.fixed ("Block for <" ++ tagText
        ++ "> created nested elements and also returned " ++ w.shown v))
        [("tag", .value tag), ("value", .value v)])
    | .nestingLimit, [tag, limit] => do
      let tagText ← w.write tag
      let limitText ← w.write limit
      pure (.nestingLimit tag limit tagText limitText)
    | .settingsValidation, message :: rest =>
      let field := rest[0]?.getD .none
      let suggestions := rest[1]?.getD .none
      pure (.reported k (.written message)
        [("field_name", .value field),
          ("suggestions",
            if w.truthy suggestions then .value suggestions else .texts [])])
    | k, args => pure (.reported k (plainWording k args) [])

end World

end TagTree
