import TagTree.Script.Eval

/-!
# Functions of handles

The functions that a handle has under private names. Those defined for handles take
their argument by place or by name; operators and plain functions take theirs by place
only and count them first.
-/

namespace TagTree

/-! ### Arguments -/

def onlyArgument (operation argument : String) (args : List Value)
    (named : List (String × Value)) : Except Fault Value :=
  match named.find? fun a => a.1 != argument || !args.isEmpty with
  | some (name, _) =>
    if name = argument || name = "self" then .error (.repeatedArgument operation name)
    else .error (.unexpectedArgument operation name)
  | none =>
    match args, named with
    | [v], _ => .ok v
    | [], (_, v) :: _ => .ok v
    | [], [] => .error (.missingArgument operation argument)
    | args, _ => .error (.argumentCount operation 2 (args.length + 1))

def noArgument (operation : String) (args : List Value) (named : List (String × Value)) :
    Except Fault Unit :=
  match named, args with
  | (name, _) :: _, _ =>
    if name = "self" then .error (.repeatedArgument operation name)
    else .error (.unexpectedArgument operation name)
  | [], [] => .ok ()
  | [], args => .error (.argumentCount operation 1 (args.length + 1))

namespace Handle

def operation (name : String) : String := "TagHandle." ++ name

def isItself (h : Handle) : Value → Bool
  | .handle g => g.id == h.id
  | _ => false

def assigning (h : Handle) (name : Value) : Fault :=
  match name with
  | .text name =>
    if name != "_builder" && (h.member? name).isSome then .readOnly "TagHandle" name
    else .noAttribute "TagHandle" name
  | v => .notAName v.typeName

/-- An operator of a handle applied. Handles are compared for being the same only. -/
def operate (w : World) (h : Handle) (name : String) (args : List Value) :
    Except Fault Value :=
  match name, args with
  | "__str__", _ => .ok (.text (w.shownHandle h))
  | "__hash__", _ => .ok (.int h.id)
  | "__eq__", [v] => .ok (if h.isItself v then .bool true else .atom .undecided)
  | "__ne__", [v] => .ok (if h.isItself v then .bool false else .atom .undecided)
  | "__getattribute__", [.text asked] =>
    match h.member? asked with
    | some v => .ok v
    | none => .error (.noAttribute "TagHandle" asked)
  | "__getattribute__", v :: _ => .error (.notAName v.typeName)
  | "__setattr__", v :: _ | "__delattr__", v :: _ => .error (h.assigning v)
  | _, _ => .ok (.atom .undecided)

/-- A function defined for handles applied. A name asked of a handle is that of a tag. -/
def apply (w : World) (h : Handle) (name : String) (args : List Value)
    (named : List (String × Value)) : Proc Store Value :=
  match name with
  | "__repr__" => do
    Proc.ofExcept (noArgument (operation name) args named)
    pure (.text (w.shownHandle h))
  | "__getattr__" => do
    match ← Proc.ofExcept (onlyArgument (operation name) "name" args named) with
    | .text asked => Surroundings.factory w h asked
    | v => Proc.fail (.lacking v "startswith")
  | name => do
    let _ ← Proc.ofExcept (onlyArgument (operation name) "builder" args named)
    pure .none

def applyPlain (w : World) (h : Handle) (name : String) (args : List Value) :
    Proc Store Value :=
  match name, args with
  | "__format__", [.text form] =>
    if form.isEmpty then pure (.text (w.shownHandle h))
    else Proc.fail (.unknownFormat (operation name))
  | "__format__", [v] => Proc.fail (.notAFormat v.typeName)
  | "__format__", args => Proc.fail (.exactCount (operation name) 1 args.length)
  | "__subclasshook__", _ => pure (.atom .undecided)
  | "__getstate__", [] => do
    let d ← Store.newDict [(.text "_builder", .builder h.builder)]
    let id ← Store.newId
    pure (.tuple id [.none, .dict d])
  | "__sizeof__", [] => pure (.int 24)
  | _, [] => pure .none
  | name, args => Proc.fail (.exactCount (operation name) 0 args.length)

def call (w : World) (h : Handle) (name : String) (args : List Value)
    (named : List (String × Value)) : Proc Store Value :=
  match memberKind? name with
  | some (.operator arity) =>
    if !named.isEmpty then Proc.fail (.noNamedArguments ("wrapper " ++ name))
    else if args.length ≠ arity then Proc.fail (.operandCount arity args.length)
    else Proc.ofExcept (operate w h name args)
  | some .plain =>
    if !named.isEmpty then Proc.fail (.noNamedArguments (operation name))
    else applyPlain w h name args
  | _ => apply w h name args named

end Handle

end TagTree
