import TagTree.Script
import TagTree.Table

/-!
# Arguments of steps

The arguments of an action are evaluated in the order in which the action names them. A
value that is asked for a function must have it before the arguments of the function are
evaluated.
-/

namespace TagTree

variable {m : Type → Type} [Monad m] {ε ν : Type}

def evalArgument? (f : ε → m ν) : Option ε → m (Option ν)
  | none => pure none
  | some x => do
    let v ← f x
    pure (some v)

def evalArguments (f : ε → m ν) : List ε → m (List ν)
  | [] => pure []
  | x :: rest => do
    let v ← f x
    let vs ← evalArguments f rest
    pure (v :: vs)

def evalEach (f : ε → m ν) : List (String × ε) → m (List (String × ν))
  | [] => pure []
  | (name, x) :: rest => do
    let v ← f x
    let vs ← evalEach f rest
    pure ((name, v) :: vs)

/-- Named arguments evaluated. A name that is given again keeps its place and takes the
last value. -/
def evalNamed (f : ε → m ν) (named : List (String × ε)) : m (List (String × ν)) := do
  let each ← evalEach f named
  pure (Table.ofEntries (· == ·) each)

def evalLogCalls (f : ε → m ν) : List (LogCall ε) → m (List (LogCall ν))
  | [] => pure []
  | c :: rest => do
    let extra ← evalArgument? f c.extra
    let cs ← evalLogCalls f rest
    pure (⟨c.method, c.message, extra, c.withFault, c.during⟩ :: cs)

namespace Action

def evalWith (f : ε → m ν) (ask : ν → String → m Unit) : Action ε → m (Action ν)
  | .keep v => do
    let v ← f v
    pure (.keep v)
  | .putEntry c v k => do
    let c ← f c
    let v ← f v
    let k ← f k
    pure (.putEntry c v k)
  | .equal x y => do
    let x ← f x
    let y ← f y
    pure (.equal x y)
  | .display v => do
    let v ← f v
    pure (.display v)
  | .raise c m => pure (.raise c m)
  | .fail c xs => do
    let xs ← evalArguments f xs
    pure (.fail c xs)
  | .state b => pure (.state b)
  | .render b => pure (.render b)
  | .builderText b => pure (.builderText b)
  | .session b => pure (.session b)
  | .handle b => pure (.handle b)
  | .lookup h n => pure (.lookup h n)
  | .element t a c => do
    let t ← f t
    let a ← evalArgument? f a
    let c ← evalArgument? f c
    pure (.element t a c)
  | .attachText e x => do
    let e ← f e
    ask e "_attach_text"
    let x ← f x
    pure (.attachText e x)
  | .attachChildren e cs => do
    let e ← f e
    ask e "_attach_children"
    let cs ← f cs
    pure (.attachChildren e cs)
  | .property e p => do
    let e ← f e
    pure (.property e p)
  | .attributeOf e n d => do
    let e ← f e
    let n ← f n
    let d ← evalArgument? f d
    pure (.attributeOf e n d)
  | .find e t => do
    let e ← f e
    ask e "find"
    let t ← f t
    pure (.find e t)
  | .findAll e t => do
    let e ← f e
    ask e "find_all"
    let t ← f t
    pure (.findAll e t)
  | .nodes e => do
    let e ← f e
    pure (.nodes e)
  | .toTable e => do
    let e ← f e
    pure (.toTable e)
  | .renderElement e d w => do
    let e ← f e
    let d ← evalArgument? f d
    let w ← evalArgument? f w
    pure (.renderElement e d w)
  | .settings fs => do
    let fs ← evalNamed f fs
    pure (.settings fs)
  | .override s fs => do
    let s ← f s
    ask s "override"
    let fs ← evalNamed f fs
    pure (.override s fs)
  | .settingsOfTable d => do
    let d ← f d
    pure (.settingsOfTable d)
  | .settingsOfJson x => do
    let x ← f x
    pure (.settingsOfJson x)
  | .strictSettings => pure .strictSettings
  | .lenientSettings => pure .lenientSettings
  | .settingsJson s i => do
    let s ← f s
    ask s "to_json"
    let i ← evalArgument? f i
    pure (.settingsJson s i)
  | .assignSetting s g v => do
    let s ← f s
    let v ← f v
    pure (.assignSetting s g v)
  | .diagnostic l m c d r => do
    let m ← f m
    let c ← f c
    let d ← evalArgument? f d
    let r ← evalArgument? f r
    pure (.diagnostic l m c d r)
  | .counters fs => do
    let fs ← evalNamed f fs
    pure (.counters fs)
  | .journal ls => pure (.journal ls)
  | .logger n r c cs => do
    let r ← evalArgument? f r
    let c ← evalArgument? f c
    let cs ← evalLogCalls f cs
    pure (.logger n r c cs)
  | .convert t v r i => do
    let t ← f t
    let v ← f v
    let r ← evalArgument? f r
    pure (.convert t v r i)
  | .exportTree v => do
    let v ← f v
    pure (.exportTree v)
  | .exportStrict v i => do
    let v ← f v
    pure (.exportStrict v i)
  | .adapter n r i => do
    let n ← f n
    let r ← evalArgument? f r
    pure (.adapter n r i)
  | .adapters i => pure (.adapters i)
  | .package => pure .package

end Action

end TagTree
