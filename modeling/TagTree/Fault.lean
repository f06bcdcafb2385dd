import TagTree.Fault.Kind
import TagTree.Json.Problem
import TagTree.Text.Codec
import TagTree.Value

/-!
# Faults

Causes of failure. A cause determines its kind, its wording and its details. Messages
about values are taken when the fault arises; a fault made of values alone is worded anew
each time it is reported, and details keep the values themselves.
-/

namespace TagTree

inductive ShapeProblem where
  | tooMany
  | blockNotAlone
  | mappingBeforeOther
  | textBeforeOther
  deriving DecidableEq, Repr

def ShapeProblem.message : ShapeProblem → String
  | tooMany => "expected at most two positional arguments"
  | blockNotAlone => "a block must be the only positional argument"
  | mappingBeforeOther => "only a block may follow an attribute mapping"
  | textBeforeOther => "only an attribute mapping may follow text content"

inductive SettingsProblem where
  | indentWidth
  | policy
  | maxDepth
  | unknownFields (shown : List String)
  | unknownPolicy (name : String)
  | notAnObject
  deriving DecidableEq, Repr

namespace SettingsProblem

def message : SettingsProblem → String
  | indentWidth => "indent_width must be >= 0"
  | policy => "ambiguous_block_policy must be an AmbiguousBlockPolicy"
  | maxDepth => "max_depth must be > 0 or None"
  | unknownFields shown =>
    "Unknown configuration fields: [" ++ ", ".intercalate shown ++ "]"
  | unknownPolicy name => "Unknown ambiguous_block_policy: " ++ name
  | notAnObject => "Configuration JSON must be an object"

def field : SettingsProblem → Value
  | indentWidth => .text "indent_width"
  | policy | unknownPolicy _ => .text "ambiguous_block_policy"
  | maxDepth => .text "max_depth"
  | unknownFields _ | notAnObject => .none

def suggestions : SettingsProblem → List String
  | policy | unknownPolicy _ => Policy.all.map Policy.name
  | maxDepth => ["Use None for unbounded nesting"]
  | indentWidth | unknownFields _ | notAnObject => []

end SettingsProblem

inductive Detail where
  | value (v : Value)
  | arguments (args : List Value)
  | texts (items : List String)

/-- How a fault is worded: by a text, or by values as they are written or shown at the
moment when the fault is reported. -/
inductive Wording where
  | fixed (text : String)
  | written (v : Value)
  | shown (v : Value)
  | listed (args : List Value)

def Wording.text : Wording → String
  | fixed text => text
  | _ => ""

inductive Fault where
  | reported (kind : FaultKind) (wording : Wording) (details : List (String × Detail))
  | outsideBuild (tag : String)
  | argumentShape (tag : Value) (tagText : String) (args : List Value) (problem : ShapeProblem)
  | nestingLimit (tag limit : Value) (tagText limitText : String)
  | ambiguousBlock (tag : String) (value : Value) (shown : String)
  | noRoot
  | buildInProgress
  | notABlock
  | privateName (name : String)
  | noAttribute (kind name : String)
  | noAttributeOfKind (kind name : String)
  | emptyTag
  | attributesNotMapping
  | childNotElement
  | alreadySealed (tag : String)
  | unknownName (name : String)
  | endless
  | notIterable (kind : String)
  | unhashable (kind : String)
  | notCallable (kind : String)
  | notAssignable (kind : String)
  | notComparable (relation left right : String)
  | notRepeatable (kind : String)
  | textTooLong
  | outOfMemory
  | notDivisible (left right : String)
  | quotientTooLarge
  | tooLargeForFloat
  | notCopyable (kind : String)
  | notAPosition (kind : String)
  | notIndexSized (kind : FaultKind)
  | positionOutOfRange
  | notASequence (position : Nat)
  | notAnEntry (position length : Nat)
  | notIterableResult (operation kind : String)
  | argumentCount (operation : String) (taken given : Nat)
  | operandCount (expected given : Nat)
  | exactCount (operation : String) (expected given : Nat)
  | missingArgument (operation argument : String)
  | unexpectedArgument (operation argument : String)
  | repeatedArgument (operation argument : String)
  | noNamedArguments (operation : String)
  | notAText (kind : String)
  | notAFormat (kind : String)
  | unknownFormat (operation : String)
  | notBytes (kind : String)
  | notAByte
  | notAName (kind : String)
  | readOnly (kind name : String)
  | noSetter (kind name : String)
  | zeroModulus
  | settings (problem : SettingsProblem)
  | frozenField (field : String)
  | jsonSyntax (problem : Json.Located)
  | notJsonText (kind : String)
  | notSerializable (kind : String)
  | badJsonKey (kind : String)
  | longInteger (digits : Nat)
  | unwrittenInteger
  | undecodable (problem : Text.Undecodable)
  | overwrittenRecordField (key : String)
  | emptyDiagnosticMessage
  | emptyDiagnosticComponent
  | exportFailed (message : String)

namespace Fault

def kind : Fault → FaultKind
  | reported kind _ _ => kind
  | outsideBuild _ => .builder
  | argumentShape .. => .argumentShape
  | nestingLimit .. => .nestingLimit
  | ambiguousBlock .. => .ambiguousBlock
  | noRoot => .emptyBuild
  | buildInProgress => .buildInProgress
  | privateName _ | noAttribute .. | noAttributeOfKind .. | readOnly .. | noSetter .. =>
    .missingAttribute
  | emptyTag | emptyDiagnosticMessage | emptyDiagnosticComponent | notAnEntry ..
  | longInteger _ | unwrittenInteger | exportFailed _ | notAByte => .value
  | textTooLong | quotientTooLarge | tooLargeForFloat => .overflow
  | outOfMemory => .memory
  | notIndexSized kind => kind
  | positionOutOfRange => .index
  | zeroModulus => .zeroDivision
  | alreadySealed _ => .runtime
  | unknownName _ => .undefined
  | endless => .recursion
  | overwrittenRecordField _ => .key
  | settings _ => .settingsValidation
  | frozenField _ => .frozenField
  | jsonSyntax _ => .settings
  | undecodable _ => .decoding
  | notABlock | attributesNotMapping | childNotElement | notIterable _ | unhashable _
  | notCallable _ | notAssignable _ | notComparable .. | notRepeatable _ | notDivisible ..
  | notCopyable _ | notAPosition _ | notASequence _ | notIterableResult .. | argumentCount ..
  | operandCount .. | exactCount .. | missingArgument .. | unexpectedArgument ..
  | repeatedArgument .. | noNamedArguments _ | notAText _ | notAFormat _ | unknownFormat _
  | notBytes _ | notAName _ | notJsonText _ | notSerializable _ | badJsonKey _ => .type

def isException (f : Fault) : Bool := f.kind.isException

def tooManyDigits : String :=
  "Exceeds the limit (" ++ Nat.repr digitLimit ++ " digits) for integer string conversion"

def raisedLimit : String := "; use sys.set_int_max_str_digits() to increase the limit"

/-- The message of a fault. One that is worded by values has no message of its own. -/
def message : Fault → String
  | reported _ wording _ => wording.text
  | outsideBuild tag => "<" ++ tag ++ "> was called outside of build()"
  | argumentShape _ tagText args problem =>
    "Invalid arguments for <" ++ tagText ++ "> ("
      ++ ", ".intercalate (args.map Value.typeName) ++ "): " ++ problem.message
  | nestingLimit _ _ tagText limitText =>
    "Nesting for <" ++ tagText ++ "> exceeds max_depth=" ++ limitText
  | ambiguousBlock tag _ shown =>
    "Block for <" ++ tag ++ "> created nested elements and also returned " ++ shown
  | noRoot => "no root element"
  | buildInProgress =>
    "build() is already running on this builder; use a separate instance"
  | notABlock => "build() requires a callable block"
  | privateName name => name
  | noAttribute kind name => "'" ++ kind ++ "' object has no attribute '" ++ name ++ "'"
  | noAttributeOfKind kind name =>
    "type object '" ++ kind ++ "' has no attribute '" ++ name ++ "'"
  | emptyTag => "Element tag cannot be empty"
  | attributesNotMapping => "Attributes must be a mapping"
  | childNotElement => "Child must be an XMLElement instance"
  | alreadySealed tag => "Content of <" ++ tag ++ "> is already set"
  | unknownName name => "undefined " ++ name
  | endless => "maximum recursion depth exceeded"
  | notIterable kind => "'" ++ kind ++ "' object is not iterable"
  | unhashable kind => "unhashable type: '" ++ kind ++ "'"
  | notCallable kind => "'" ++ kind ++ "' object is not callable"
  | notAssignable kind => "'" ++ kind ++ "' object does not support item assignment"
  | notComparable relation left right =>
    "'" ++ relation ++ "' not supported between instances of '" ++ left ++ "' and '"
      ++ right ++ "'"
  | notRepeatable kind => "can't multiply sequence by non-int of type '" ++ kind ++ "'"
  | textTooLong => "repeated string is too long"
  | outOfMemory => ""
  | notDivisible left right =>
    "unsupported operand type(s) for /: '" ++ left ++ "' and '" ++ right ++ "'"
  | quotientTooLarge => "integer division result too large for a float"
  | tooLargeForFloat => "int too large to convert to float"
  | notCopyable kind => "cannot pickle '" ++ kind ++ "' object"
  | notAPosition kind => "list indices must be integers or slices, not " ++ kind
  | notIndexSized _ => "cannot fit 'int' into an index-sized integer"
  | positionOutOfRange => "list assignment index out of range"
  | notASequence position =>
    "cannot convert dictionary update sequence element #" ++ Nat.repr position
      ++ " to a sequence"
  | notAnEntry position length =>
    "dictionary update sequence element #" ++ Nat.repr position ++ " has length "
      ++ Nat.repr length ++ "; 2 is required"
  | notIterableResult operation kind =>
    operation ++ "() returned a non-iterable (type " ++ kind ++ ")"
  | argumentCount operation taken given =>
    operation ++ "() takes " ++ Nat.repr taken ++ " positional "
      ++ (if taken = 1 then "argument" else "arguments") ++ " but " ++ Nat.repr given
      ++ " were given"
  | operandCount expected given =>
    (if expected = 2 then " expected " else "expected ") ++ Nat.repr expected
      ++ (if expected = 1 then " argument" else " arguments") ++ ", got " ++ Nat.repr given
  | exactCount operation expected given =>
    operation ++ "() takes " ++ (if expected = 0 then "no arguments"
      else "exactly one argument") ++ " (" ++ Nat.repr given ++ " given)"
  | missingArgument operation argument =>
    operation ++ "() missing 1 required positional argument: '" ++ argument ++ "'"
  | unexpectedArgument operation argument =>
    operation ++ "() got an unexpected keyword argument '" ++ argument ++ "'"
  | repeatedArgument operation argument =>
    operation ++ "() got multiple values for argument '" ++ argument ++ "'"
  | noNamedArguments operation => operation ++ "() takes no keyword arguments"
  | notAText kind => "must be str, not " ++ kind
  | notAFormat kind => "__format__() argument must be str, not " ++ kind
  | unknownFormat operation => "unsupported format string passed to " ++ operation
  | notBytes kind => "argument should be integer or bytes-like object, not '" ++ kind ++ "'"
  | notAByte => "byte must be in range(0, 256)"
  | notAName kind => "attribute name must be string, not '" ++ kind ++ "'"
  | readOnly kind name => "'" ++ kind ++ "' object attribute '" ++ name ++ "' is read-only"
  | noSetter kind name => "property '" ++ name ++ "' of '" ++ kind ++ "' object has no setter"
  | zeroModulus => "integer modulo by zero"
  | settings problem => problem.message
  | frozenField field => "cannot assign to field " ++ Text.quoted field
  | jsonSyntax problem => "Invalid configuration JSON: " ++ problem.message
  | notJsonText kind =>
    "the JSON object must be str, bytes or bytearray, not " ++ kind
  | notSerializable kind => "Object of type " ++ kind ++ " is not JSON serializable"
  | badJsonKey kind => "keys must be str, int, float, bool or None, not " ++ kind
  | longInteger digits =>
    tooManyDigits ++ ": value has " ++ Nat.repr digits ++ " digits" ++ raisedLimit
  | unwrittenInteger => tooManyDigits ++ raisedLimit
  | undecodable problem => problem.message
  | overwrittenRecordField key =>
    "\"Attempt to overwrite '" ++ key ++ "' in LogRecord\""
  | emptyDiagnosticMessage => "Diagnostic message cannot be empty"
  | emptyDiagnosticComponent => "Diagnostic component cannot be empty"
  | exportFailed message => message

def wording : Fault → Wording
  | reported _ wording _ => wording
  | f => .fixed f.message

def details : Fault → List (String × Detail)
  | reported _ _ details => details
  | argumentShape tag _ args problem =>
    [("tag", .value tag), ("args_received", .arguments args),
      ("reason", .value (.text problem.message))]
  | nestingLimit tag limit _ _ => [("tag", .value tag), ("max_depth", .value limit)]
  | ambiguousBlock tag value _ => [("tag", .value (.text tag)), ("value", .value value)]
  | settings problem =>
    [("field_name", .value problem.field), ("suggestions", .texts problem.suggestions)]
  | _ => []

end Fault

/-- The text of an atom by itself. A whole number may be too long to have one. -/
def Atom.written (a : Atom) : Except Fault String :=
  if a.isTooLong then .error .unwrittenInteger else .ok a.plainText

end TagTree
