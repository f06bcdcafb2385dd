/-!
# Kinds of faults

The taxonomy by which faults are caught. A kind is caught under its own name and
under the name of every kind above it. Interruptions stand outside the ordinary
exceptions, so a handler of ordinary exceptions lets them pass. A name that stands for
nothing is a fault of the script, which none catches but by its own name.
-/

namespace TagTree

inductive FaultKind where
  | anything
  | interrupt
  | exit
  | exception
  | arithmetic
  | overflow
  | zeroDivision
  | lookup
  | key
  | index
  | missingAttribute
  | frozenField
  | type
  | value
  | decoding
  | runtime
  | recursion
  | notImplemented
  | assertion
  | exhaustion
  | system
  | memory
  | builder
  | argumentShape
  | emptyBuild
  | ambiguousBlock
  | buildInProgress
  | nestingLimit
  | settings
  | settingsValidation
  | undefined
  deriving DecidableEq, Repr

namespace FaultKind

def parents : FaultKind → List FaultKind
  | anything | undefined => []
  | interrupt | exit | exception => [anything]
  | overflow | zeroDivision => [arithmetic]
  | key | index => [lookup]
  | frozenField => [missingAttribute]
  | decoding => [value]
  | notImplemented | recursion => [runtime]
  | argumentShape => [builder, type]
  | emptyBuild | ambiguousBlock | buildInProgress | nestingLimit => [builder]
  | settingsValidation => [settings]
  | _ => [exception]

/-- The kinds at most `n` steps above a kind, itself included. -/
def within : Nat → FaultKind → List FaultKind
  | 0, k => [k]
  | n + 1, k => k :: k.parents.flatMap (within n)

def isA (k above : FaultKind) : Bool := (k.within 4).contains above

def isException (k : FaultKind) : Bool := k.isA .exception

end FaultKind

end TagTree
