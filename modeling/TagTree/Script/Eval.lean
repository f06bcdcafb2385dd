import TagTree.Settings
import TagTree.Script.State

/-!
# Evaluating expressions

Expressions are evaluated from left to right, against the variables and builders at
the beginning of the evaluation. Evaluation makes objects and changes none.
-/

namespace TagTree

/-- What an expression sees: the state, and what the innermost running block was
called with. -/
structure Surroundings where
  state : State
  current : Value

/-- What a handle has under a name of its own: the function for verbatim names, and what
stands under private names. -/
def Handle.member? (h : Handle) (name : String) : Option Value :=
  match name with
  | "tag" => some (.callable (.verbatim h))
  | "_builder" => some (.builder h.builder)
  | "__slots__" => some (.tuple 0 [.text "_builder"])
  | "__class__" => some (.callable .handleKind)
  | "__module__" => some (.text "simple_xml_builder.tree.builder")
  | "__doc__" => some (.text "Call-interception surface handed to every block.")
  | name => (memberKind? name).map fun _ => .callable (.member h name)

namespace Surroundings

def factory (w : World) (h : Handle) (name : String) : Proc Store Value := do
  let tag ← Proc.ofExcept (w.lookupTag h.builder name)
  let id ← Store.newId
  pure (.callable (.factory id h.builder tag))

/-- What a name gives on a value: a member or a tag's function on a handle, and the tag
of an element. -/
def lookup (w : World) (v : Value) (name : String) : Proc Store Value :=
  match v with
  | .handle h =>
    match h.member? name with
    | some member => pure member
    | none => factory w h name
  | .element e =>
    if name = "tag" then pure (.text (w.tagOf e)) else Proc.fail (.lacking v name)
  | v => Proc.fail (.lacking v name)

end Surroundings

/-- The tags of nested blocks, the outermost first: tags are taken in turn from the
innermost block on, so that there must be one if there are blocks. -/
def chainTags (count : Nat) (tags : List String) : Except Fault (List String) :=
  if count ≠ 0 ∧ tags.isEmpty then .error .zeroModulus
  else .ok ((List.range count).filterMap fun i => tags[i % tags.length]?).reverse

mutual

def Expr.eval (env : Surroundings) : Expr → Proc Store Value
  | .atom a => pure (.atom a)
  | .nan => do
    let id ← Store.newId
    pure (.atom (.nan id))
  | .unreadable kind message => Proc.fail (.reported kind (.fixed message) [])
  | .list items => do
    let items ← evalAll env items
    let l ← Store.newList items
    pure (.list l)
  | .tuple items => do
    let items ← evalAll env items
    let id ← Store.newId
    pure (.tuple id items)
  | .dict entries => do
    let table ← evalEntries env [] entries
    let d ← Store.newDict table
    pure (.dict d)
  | .view entries => do
    let table ← evalEntries env [] entries
    let d ← Store.newDict table
    pure (.view d)
  | .variable name => Proc.ofExcept (env.state.valueOf? name)
  | .builder name => do
    let b ← Proc.ofExcept (env.state.builder? name)
    pure (.builder b)
  | .handle => pure env.current
  | .settings fields => do
    let fields ← evalFields env fields
    let s ← Proc.ofExcept (Settings.ofFields (Table.ofEntries (· == ·) fields))
    let id ← Store.newId
    pure (.settings id s)
  | .element tag attributes content => do
    let tag ← tag.eval env
    let attributes ← evalOption env attributes
    let content ← evalOption env content
    let e ← Store.makeElement tag attributes content
    pure (.element e)
  | .factory name => Surroundings.lookup env.state.world env.current name
  | .block steps result => do
    let id ← Store.newId
    pure (.callable (.block id steps result))
  | .chain count tags leaf => do
    let leaf ← leaf.eval env
    match ← Proc.ofExcept (chainTags count tags) with
    | [] => pure leaf
    | tag :: inner => do
      let id ← Store.newId
      pure (.callable (.chain id tag inner leaf))

def evalAll (env : Surroundings) : List Expr → Proc Store (List Value)
  | [] => pure []
  | x :: rest => do
    let v ← x.eval env
    let vs ← evalAll env rest
    pure (v :: vs)

def evalOption (env : Surroundings) : Option Expr → Proc Store Value
  | none => pure .none
  | some x => x.eval env

def evalEntries (env : Surroundings) (table : Dict) : List (Expr × Expr) → Proc Store Dict
  | [] => pure table
  | (k, v) :: rest => do
    let k ← k.eval env
    let v ← v.eval env
    let table ← Proc.ofExcept (Store.putKey table k v)
    evalEntries env table rest

def evalFields (env : Surroundings) : List (String × Expr) → Proc Store (List (String × Value))
  | [] => pure []
  | (name, x) :: rest => do
    let v ← x.eval env
    let vs ← evalFields env rest
    pure ((name, v) :: vs)

end

end TagTree
