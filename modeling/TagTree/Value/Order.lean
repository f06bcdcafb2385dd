import TagTree.Fault

/-!
# Order of keys

Numbers, texts, bytes and tuples are ordered among themselves. Keys of different kinds
have no order, and sorting them is a fault.
-/

namespace TagTree

def numberLess (a b : Atom) : Option Bool :=
  match a, b with
  | .nan _, _ => if b.int?.isSome || b.typeName == "float" then some false else none
  | _, .nan _ => if a.int?.isSome || a.typeName == "float" then some false else none
  | .float x, .float y => some (x.less y)
  | .float x, b => b.int?.map fun n => x.compareInt n == .lt
  | a, .float y => a.int?.map fun n => y.compareInt n == .gt
  | a, b =>
    match a.int?, b.int? with
    | some m, some n => some (decide (m < n))
    | _, _ => none

mutual

/-- Whether one key is below another: numbers, texts, bytes and tuples each among
themselves. -/
def Value.less : Value → Value → Except Fault Bool
  | .atom (.text s), .atom (.text t) => .ok (decide (s < t))
  | .atom (.bytes a), .atom (.bytes b) => .ok (decide (a < b))
  | .atom a, .atom b =>
    match numberLess a b with
    | some r => .ok r
    | none => .error (.notComparable "<" a.typeName b.typeName)
  | .tuple _ xs, .tuple _ ys => lessAll xs ys
  | v, w => .error (.notComparable "<" v.typeName w.typeName)

/-- Order of tuples: the first difference decides, then the length. -/
def lessAll : List Value → List Value → Except Fault Bool
  | _, [] => .ok false
  | [], _ :: _ => .ok true
  | x :: xs, y :: ys => if x.sameKey y then lessAll xs ys else x.less y

end

def insertKey (v : Value) : List Value → Except Fault (List Value)
  | [] => .ok [v]
  | w :: rest => do
    if ← v.less w then pure (v :: w :: rest)
    else pure (w :: (← insertKey v rest))

def sortKeys (keys : List Value) : Except Fault (List Value) :=
  keys.foldlM (fun sorted v => insertKey v sorted) []

end TagTree
