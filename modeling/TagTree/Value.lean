import TagTree.Script
import TagTree.Table

/-!
# Values

What a script computes with. Lists, dictionaries and elements are shared and stand in
the store, builders in the world; tuples and settings hold their parts and carry an
identity. Two callables or handles are the same only if they have one identity.
-/

namespace TagTree

structure ElementRef where
  index : Nat
  deriving DecidableEq, Repr

structure ListRef where
  index : Nat
  deriving DecidableEq, Repr

structure DictRef where
  index : Nat
  deriving DecidableEq, Repr

structure BuilderRef where
  index : Nat
  deriving DecidableEq, Repr

/-- A tag handle: every lookup of a name on it makes calls on its builder. -/
structure Handle where
  id : Nat
  builder : BuilderRef
  deriving DecidableEq, Repr

structure Settings (ν : Type) where
  indentWidth : ν
  policy : Policy
  unreserve : ν
  maxDepth : ν
  diagnostics : ν
  correlation : ν

/-- What can be called: a block of steps, blocks nested around a leaf, a tag's own
function, a handle's function for verbatim names, another function of a handle, or the
kind of handles, which makes handles. -/
inductive Callable (ν : Type) where
  | block (id : Nat) (steps : List Step) (result : Expr)
  | chain (id : Nat) (tag : String) (inner : List String) (leaf : ν)
  | factory (id : Nat) (builder : BuilderRef) (tag : String)
  | verbatim (handle : Handle)
  | member (handle : Handle) (name : String)
  | handleKind

/-- A value. A view is a read-only face of a dictionary. -/
inductive Value where
  | atom (a : Atom)
  | list (l : ListRef)
  | tuple (id : Nat) (items : List Value)
  | dict (d : DictRef)
  | view (d : DictRef)
  | element (e : ElementRef)
  | handle (h : Handle)
  | builder (b : BuilderRef)
  | settings (id : Nat) (s : Settings Value)
  | callable (c : Callable Value)

instance : Inhabited Value := ⟨.atom .none⟩

/-! ### Functions of handles -/

/-- How a handle comes by a function of its own: it is defined for handles, or taken
over from all objects, as an operator or as a plain function. -/
inductive MemberKind where
  | method
  | operator (arity : Nat)
  | plain
  deriving DecidableEq, Repr

def handleMembers : List (String × MemberKind) :=
  [("__init__", .method), ("__getattr__", .method), ("__repr__", .method),
    ("__str__", .operator 0), ("__hash__", .operator 0), ("__eq__", .operator 1),
    ("__ne__", .operator 1), ("__lt__", .operator 1), ("__le__", .operator 1),
    ("__gt__", .operator 1), ("__ge__", .operator 1), ("__delattr__", .operator 1),
    ("__getattribute__", .operator 1), ("__setattr__", .operator 2), ("__dir__", .plain),
    ("__format__", .plain), ("__getstate__", .plain), ("__init_subclass__", .plain),
    ("__new__", .plain), ("__reduce__", .plain), ("__reduce_ex__", .plain),
    ("__sizeof__", .plain), ("__subclasshook__", .plain)]

def memberKind? (name : String) : Option MemberKind :=
  Table.find? (· == ·) name handleMembers

def MemberKind.typeName : MemberKind → String
  | method => "method"
  | operator _ => "method-wrapper"
  | plain => "builtin_function_or_method"

namespace Value

/-! ### Atoms as values -/

@[match_pattern] abbrev none : Value := .atom .none

@[match_pattern] abbrev bool (b : Bool) : Value := .atom (.bool b)

@[match_pattern] abbrev int (n : Int) : Value := .atom (.int n)

@[match_pattern] abbrev text (s : String) : Value := .atom (.text s)

@[match_pattern] abbrev policy (p : Policy) : Value := .atom (.policy p)

def isNone : Value → Bool
  | none => true
  | _ => false

def int? : Value → Option Int
  | .atom a => a.int?
  | _ => Option.none

/-! ### Kinds -/

def typeName : Value → String
  | .atom a => a.typeName
  | .list _ => "list"
  | .tuple .. => "tuple"
  | .dict _ => "dict"
  | .view _ => "mappingproxy"
  | .element _ => "XMLElement"
  | .handle _ => "TagHandle"
  | .builder _ => "XMLTreeBuilder"
  | .settings .. => "BuilderConfig"
  | .callable (.verbatim _) => "method"
  | .callable (.member _ name) => ((memberKind? name).map MemberKind.typeName).getD "method"
  | .callable .handleKind => "type"
  | .callable _ => "function"

/-- Name of the kind that answers for a value in comparisons: a view leaves them to its
dictionary. -/
def comparedName : Value → String
  | .view _ => "dict"
  | v => v.typeName

def mapping? : Value → Option DictRef
  | .dict d => some d
  | .view d => some d
  | _ => Option.none

def element? : Value → Option ElementRef
  | .element e => some e
  | _ => Option.none

end Value

def Callable.identity {ν : Type} : Callable ν → Nat × String
  | .block id _ _ => (id, "")
  | .chain id _ _ _ => (id, "")
  | .factory id _ _ => (id, "")
  | .verbatim h => (h.id, "tag")
  | .member h name => (h.id, name)
  | .handleKind => (0, "__class__")

/-! ### Keys of dictionaries -/

mutual

/-- Name of the first kind within a value that cannot be a key. -/
def Value.unhashable? : Value → Option String
  | .list _ => some "list"
  | .dict _ => some "dict"
  | .view _ => some "mappingproxy"
  | .tuple _ items => firstUnhashable? items
  | .settings _ ⟨w, _, u, m, d, c⟩ =>
    w.unhashable? <|> u.unhashable? <|> m.unhashable? <|> d.unhashable? <|> c.unhashable?
  | _ => none

def firstUnhashable? : List Value → Option String
  | [] => none
  | v :: rest => v.unhashable? <|> firstUnhashable? rest

end

mutual

/-- Equality of keys: equal atoms, the same objects, and tuples and settings by
their parts. -/
def Value.sameKey : Value → Value → Bool
  | .atom a, .atom b => a.same b
  | .tuple _ xs, .tuple _ ys => sameKeys xs ys
  | .element e, .element f => e == f
  | .handle g, .handle h => g.id == h.id
  | .builder a, .builder b => a == b
  | .settings _ ⟨w, p, u, m, d, c⟩, .settings _ t =>
    w.sameKey t.indentWidth && p == t.policy && u.sameKey t.unreserve &&
      m.sameKey t.maxDepth && d.sameKey t.diagnostics && c.sameKey t.correlation
  | .callable c, .callable d => c.identity == d.identity
  | _, _ => false

def sameKeys : List Value → List Value → Bool
  | [], [] => true
  | x :: xs, y :: ys => x.sameKey y && sameKeys xs ys
  | _, _ => false

end

end TagTree
