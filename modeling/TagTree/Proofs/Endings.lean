import TagTree.Proofs.Changes

/-!
# Like endings

Operations on matched builders in alike worlds end alike: with like values or like faults, and
in alike worlds. Nothing is said when the first world has no fuel left to write a value, or
when the second computation may be lost for want of fuel.
-/

namespace TagTree

/-! ### Faults -/

inductive Detail.Like (ρ : Matching) : Detail → Detail → Prop
  | value {v w} (same : Value.Like ρ v w) : Like ρ (.value v) (.value w)
  | arguments {xs ys} (same : Values.Like ρ xs ys) : Like ρ (.arguments xs) (.arguments ys)
  | texts (items : List String) : Like ρ (.texts items) (.texts items)

inductive Wording.Like (ρ : Matching) : Wording → Wording → Prop
  | fixed (text : String) : Like ρ (.fixed text) (.fixed text)
  | written {v w} (same : Value.Like ρ v w) : Like ρ (.written v) (.written w)
  | shown {v w} (same : Value.Like ρ v w) : Like ρ (.shown v) (.shown w)
  | listed {xs ys} (same : Values.Like ρ xs ys) : Like ρ (.listed xs) (.listed ys)

/-- Faults of one cause about like values. -/
inductive Fault.Like (ρ : Matching) : Fault → Fault → Prop
  | plain {f} (plain : f.Plain) : Like ρ f f
  | alreadySealed (tag : String) : Like ρ (.alreadySealed tag) (.alreadySealed tag)
  | reported {kind m m' details details'} (wording : Wording.Like ρ m m')
      (parts : List.Forall₂ (fun x y => x.1 = y.1 ∧ Detail.Like ρ x.2 y.2) details details') :
      Like ρ (.reported kind m details) (.reported kind m' details')
  | argumentShape {tag tag' text args args' problem} (name : Value.Like ρ tag tag')
      (given : Values.Like ρ args args') :
      Like ρ (.argumentShape tag text args problem) (.argumentShape tag' text args' problem)
  | nestingLimit {tag tag' limit limit' text shown} (name : Value.Like ρ tag tag')
      (bound : Value.Like ρ limit limit') :
      Like ρ (.nestingLimit tag limit text shown) (.nestingLimit tag' limit' text shown)
  | ambiguousBlock {tag v v' shown} (value : Value.Like ρ v v') :
      Like ρ (.ambiguousBlock tag v shown) (.ambiguousBlock tag v' shown)

theorem Fault.Like.kind {ρ : Matching} {f g : Fault} (h : Fault.Like ρ f g) : f.kind = g.kind := by
  cases h <;> rfl

section Mono

variable {ρ σ : Matching}

theorem Detail.Like.mono (h : ρ ≤ σ) {d e : Detail} (hl : Detail.Like ρ d e) :
    Detail.Like σ d e := by
  cases hl with
  | value same => exact .value (same.mono h)
  | arguments same => exact .arguments (Values.Like.mono h same)
  | texts items => exact .texts items

theorem Wording.Like.mono (h : ρ ≤ σ) {m m' : Wording} (hl : Wording.Like ρ m m') :
    Wording.Like σ m m' := by
  cases hl with
  | fixed text => exact .fixed text
  | written same => exact .written (same.mono h)
  | shown same => exact .shown (same.mono h)
  | listed same => exact .listed (Values.Like.mono h same)

theorem Fault.Like.mono (h : ρ ≤ σ) {f g : Fault} (hl : Fault.Like ρ f g) : Fault.Like σ f g := by
  cases hl with
  | plain plain => exact .plain plain
  | alreadySealed tag => exact .alreadySealed tag
  | reported wording parts =>
    exact .reported (wording.mono h) (parts.imp fun _ _ hd => ⟨hd.1, hd.2.mono h⟩)
  | argumentShape name given => exact .argumentShape (name.mono h) (Values.Like.mono h given)
  | nestingLimit name bound => exact .nestingLimit (name.mono h) (bound.mono h)
  | ambiguousBlock value => exact .ambiguousBlock (value.mono h)

end Mono

theorem Fault.Like.wording {ρ : Matching} {f g : Fault} (h : Fault.Like ρ f g) :
    Wording.Like ρ f.wording g.wording := by
  cases h with
  | @plain f hf =>
    cases f with
    | reported => cases hf
    | _ => exact .fixed _
  | reported same => exact same
  | alreadySealed tag => exact .fixed _
  | @argumentShape tag tag' text args args' problem name given =>
    have kinds := map_congr_forall₂ (fun _ _ hv => Value.Like.typeName hv) given
    have worded : (Fault.argumentShape tag text args problem).wording =
        (Fault.argumentShape tag' text args' problem).wording :=
      congrArg (fun kinds => Wording.fixed ("Invalid arguments for <" ++ text ++ "> ("
        ++ ", ".intercalate kinds ++ "): " ++ problem.message)) kinds
    rw [worded]
    exact .fixed _
  | nestingLimit name bound => exact .fixed _
  | ambiguousBlock value => exact .fixed _

/-- Like faults are reported the same way. -/
theorem World.Like.faultReport {ρ : Matching} {w w' : World} (h : World.Like ρ w w')
    {f g : Fault} (same : Fault.Like ρ f g) : (w.faultReport f).Below (w'.faultReport g) := by
  have wording := same.wording
  unfold World.faultReport
  rw [same.kind]
  generalize f.wording = m, g.wording = m' at wording
  refine .bind ?_ fun _ => .refl _
  cases wording with
  | fixed text => exact .refl _
  | written same => exact h.write same
  | shown same => exact .inr (congrArg Outcome.value (h.shown same))
  | listed same =>
    have texts := map_congr_forall₂ (fun _ _ hv => h.shown hv) same
    exact .inr (congrArg (fun items => Outcome.value (World.shownTuple items)) texts)

/-! ### Outcomes -/

/-- Outcomes with related values or faults, unless the first one has no fuel. -/
inductive Outcome.Like {α β : Type} (F : Fault → Fault → Prop) (R : α → β → Prop) :
    Outcome α → Outcome β → Prop
  | spent {y} : Like F R .exhausted y
  | value {a b} (same : R a b) : Like F R (.value a) (.value b)
  | fault {f g} (same : F f g) : Like F R (.fault f) (.fault g)

namespace Outcome.Like

variable {α β γ δ : Type} {ρ : Matching} {F : Fault → Fault → Prop} {R : α → β → Prop}
  {S : γ → δ → Prop}

theorem bind {x : Outcome α} {y : Outcome β} {k : α → Outcome γ} {l : β → Outcome δ}
    (h : Outcome.Like F R x y) (hk : ∀ a b, R a b → Outcome.Like F S (k a) (l b)) :
    Outcome.Like F S (x >>= k) (y >>= l) := by
  cases h with
  | spent => exact .spent
  | value same => exact hk _ _ same
  | fault same => exact .fault same

theorem ofExcept {E : Fault → Fault → Prop} {x : Except Fault α} {y : Except Fault β}
    (h : Reply.Like E R x y) (hf : ∀ f g, x = .error f → E f g → F f g) :
    Outcome.Like F R (.ofExcept x) (.ofExcept y) := by
  cases h with
  | ok same => exact .value same
  | error same => exact .fault (hf _ _ rfl same)

theorem of_below {x y : Outcome α} (h : x.Below y) (plain : x.FailsOnly Fault.Plain True) :
    Outcome.Like (Fault.Like ρ) Eq x y := by
  rcases h with rfl | rfl
  · exact .spent
  · cases x with
    | value a => exact .value rfl
    | fault f => exact .fault (.plain plain)
    | exhausted => exact .spent

/-- The same reply, which fails plainly, as an outcome. -/
theorem of_eq {x y : Except Fault α} (h : x = y) (plain : ∀ f, x = .error f → f.Plain) :
    Outcome.Like (Fault.Like ρ) Eq (.ofExcept x) (.ofExcept y) := by
  subst h
  cases x with
  | ok a => exact .value rfl
  | error f => exact .fault (.plain (plain f rfl))

end Outcome.Like

/-- Computations on related states that end with related values or like faults, in related
states again; the matching may have been extended. -/
inductive EndsAlike {α β S T : Type} (L : Matching → S → T → Prop) (lost : Prop)
    (R : Matching → α → β → Prop) (ρ : Matching) : Outcome α × S → Outcome β × T → Prop
  | spent {s y} : EndsAlike L lost R ρ (.exhausted, s) y
  | lost {x t} (h : lost) : EndsAlike L lost R ρ x (.exhausted, t)
  | value {σ a b s t} (le : ρ ≤ σ) (state : L σ s t) (same : R σ a b) :
      EndsAlike L lost R ρ (.value a, s) (.value b, t)
  | fault {σ f g s t} (le : ρ ≤ σ) (state : L σ s t) (same : Fault.Like σ f g) :
      EndsAlike L lost R ρ (.fault f, s) (.fault g, t)

namespace EndsAlike

variable {α β S T : Type} {L : Matching → S → T → Prop} {lost : Prop}
  {R : Matching → α → β → Prop} {ρ σ : Matching} {x : Outcome α × S} {y : Outcome β × T}

theorem weaken (le : ρ ≤ σ) (h : EndsAlike L lost R σ x y) : EndsAlike L lost R ρ x y := by
  cases h with
  | spent => exact .spent
  | lost h => exact .lost h
  | value le' state same => exact .value (le.trans le') state same
  | fault le' state same => exact .fault (le.trans le') state same

end EndsAlike

end TagTree
