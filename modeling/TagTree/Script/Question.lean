import TagTree.Script.Perform

/-!
# Questions to handles

An action asks something of a value by a name. A handle takes the name for that of a tag
and the arguments of the question for those of the tag call, so the answer is the element
that the call creates.
-/

namespace TagTree

/-- What the asking action does with the answer: show it, go through its members, or
show it with its table. -/
inductive AnswerUse where
  | element
  | members
  | table
  deriving DecidableEq, Repr

structure Question where
  handle : Handle
  name : String
  args : List Value
  named : List (String × Value)
  use : AnswerUse

def givenNamed (named : List (String × Option Value)) : List (String × Value) :=
  named.filterMap fun a => a.2.map fun v => (a.1, v)

def Action.question? : Action Value → Option Question
  | .attributeOf (.handle h) name default =>
    some ⟨h, "get_attribute", name :: default.toList, [], .element⟩
  | .find (.handle h) tag => some ⟨h, "find", [tag], [], .element⟩
  | .findAll (.handle h) tag => some ⟨h, "find_all", [tag], [], .element⟩
  | .nodes (.handle h) => some ⟨h, "iter", [], [], .members⟩
  | .toTable (.handle h) => some ⟨h, "to_dict", [], [], .element⟩
  | .renderElement (.handle h) depth width =>
    some ⟨h, "render", [], givenNamed [("depth", depth), ("indent_width", width)], .element⟩
  | .override (.handle h) fields => some ⟨h, "override", [], fields, .table⟩
  | .settingsJson (.handle h) indent => some ⟨h, "to_json", indent.toList, [], .element⟩
  | _ => none

def AnswerUse.result (use : AnswerUse) (e : ElementRef) : Proc World Result :=
  match use with
  | .element => Proc.gets fun w => Result.ofValue w (.element e)
  | .members => Proc.fail (.notIterable "XMLElement")
  | .table => do
    let w ← Proc.get
    let t ← Proc.ofOutcome (w.treeOf e)
    let table ← World.inStore (Plain.store (ElementTree.plain t))
    Proc.gets fun w => ⟨.element e, .settings (w.shown (.element e)) (w.read table)⟩

def Question.put (q : Question) : Program Result := do
  let e ← Program.callByName q.handle q.name q.args q.named
  Program.inWorld (q.use.result e)

end TagTree
