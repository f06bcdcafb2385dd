import TagTree.Proofs.Alike
import TagTree.Proofs.Bonds

/-!
# Blind programs

A program is blind to what a veil hides if it goes on alike in all states that are the same
behind the veil. It may get hold of a state as long as its deeds do not depend on the hidden
part, so the programs of two runs are related, and not equal.
-/

namespace TagTree

variable {V : Veil}

/-- Outcomes of one kind, with related values or the same fault. -/
inductive Outcome.Matches {α β : Type} (R : α → β → Prop) : Outcome α → Outcome β → Prop
  | value {a b} (same : R a b) : Matches R (.value a) (.value b)
  | fault (f : Fault) : Matches R (.fault f) (.fault f)
  | exhausted : Matches R .exhausted .exhausted

/-- Replies with related values or the same fault. -/
abbrev Reply.Matches {α β : Type} (R : α → β → Prop) : Except Fault α → Except Fault β → Prop :=
  Reply.Like Eq R

/-- Deeds that end alike in states that are the same behind a veil, and lead to such states
again. They change no builder and no element, and write the same into the journal. -/
structure Proc.Veiled (V : Veil) {α β : Type} (R : α → β → Prop) (p : Proc State α)
    (q : Proc State β) : Prop where
  ending : ∀ {s t}, s.Veiled V t → Outcome.Matches R (p s).1 (q t).1
  state : ∀ {s t}, s.Veiled V t → (p s).2.Veiled V (q t).2
  journal : ∀ {s t}, s.Veiled V t → t.world.journal = s.world.journal →
    (q t).2.world.journal = (p s).2.world.journal
  left : ∀ s : State, s.world.Leaves (p s).2.world
  right : ∀ t : State, t.world.Leaves (q t).2.world

theorem Proc.Veiled.bonded {α β : Type} {R : α → β → Prop} {p : Proc State α} {q : Proc State β}
    {B : Bond V} (deed : Proc.Veiled V R p q) {s t : State} (h : s.Bonded B t) :
    (p s).2.Bonded B (q t).2 := by
  have after := deed.state h.veiled
  exact ⟨h.world.left after.world (deed.left s) (deed.right t) (deed.journal h.veiled),
    after.bindings, after.builders, after.trace⟩

/-- Programs that do the same behind a veil, each going on alike after matching replies. -/
inductive Program.Veiled (V : Veil) {α β : Type} (R : α → β → Prop) :
    Program α → Program β → Prop
  | done {x y} (same : Outcome.Matches R x y) : Veiled V R (.done x) (.done y)
  | act {γ δ : Type} {T : γ → δ → Prop} {p : Proc State γ} {q : Proc State δ} {next next'}
      (deed : Proc.Veiled V T p q)
      (rest : ∀ r r', Reply.Matches T r r' → Veiled V R (next r) (next' r')) :
      Veiled V R (.act p next) (.act q next')
  | attach {e change next next'} (rest : ∀ r, Veiled V R (next r) (next' r)) :
      Veiled V R (.attach e change next) (.attach e change next')
  | tag {b name args named next next'} (rest : ∀ r, Veiled V R (next r) (next' r)) :
      Veiled V R (.tag b name args named next) (.tag b name args named next')
  | build {b block next next'} (rest : ∀ r, Veiled V R (next r) (next' r)) :
      Veiled V R (.build b block next) (.build b block next')
  | apply {c args named next next'} (rest : ∀ r, Veiled V R (next r) (next' r)) :
      Veiled V R (.apply c args named next) (.apply c args named next')

/-- A program that goes on the same whatever a veil hides. -/
def Program.Blind (V : Veil) {α : Type} (p : Program α) : Prop := p.Veiled V Eq p

def Code.Blind (V : Veil) (code : Code) : Prop := ∀ c args named, (code c args named).Blind V

theorem Outcome.Matches.eq {α : Type} {x y : Outcome α} (h : Outcome.Matches Eq x y) :
    y = x := by
  cases h with
  | value same => rw [same]
  | fault f => rfl
  | exhausted => rfl

theorem Outcome.Matches.refl {α : Type} (x : Outcome α) : Outcome.Matches Eq x x := by
  cases x with
  | value a => exact .value rfl
  | fault f => exact .fault f
  | exhausted => exact .exhausted

namespace Program

variable {α β γ δ : Type} {R : α → β → Prop} {S : γ → δ → Prop}

/-- What follows matching outcomes. -/
theorem Veiled.resume {next : Except Fault γ → Program α} {next' : Except Fault δ → Program β}
    (rest : ∀ r r', Reply.Matches S r r' → (next r).Veiled V R (next' r')) {x : Outcome γ}
    {y : Outcome δ} (h : Outcome.Matches S x y) :
    (Program.resume next x).Veiled V R (Program.resume next' y) := by
  cases h with
  | value same => exact rest _ _ (.ok same)
  | fault f => exact rest _ _ (.error rfl)
  | exhausted => exact .done .exhausted

theorem Veiled.resume_eq {next : Except Fault γ → Program α} {next' : Except Fault γ → Program β}
    (rest : ∀ r, (next r).Veiled V R (next' r)) (x : Outcome γ) :
    (Program.resume next x).Veiled V R (Program.resume next' x) := by
  cases x with
  | value a => exact rest _
  | fault f => exact rest _
  | exhausted => exact .done .exhausted

theorem Veiled.bind {p : Program α} {q : Program β} {k : α → Program γ} {l : β → Program δ}
    (h : p.Veiled V R q) (hk : ∀ a b, R a b → (k a).Veiled V S (l b)) :
    (p >>= k).Veiled V S (q >>= l) := by
  show (p.bind k).Veiled V S (q.bind l)
  induction h with
  | done same =>
    cases same with
    | value same => exact hk _ _ same
    | fault f => exact .done (.fault f)
    | exhausted => exact .done .exhausted
  | act deed _ ih => exact .act deed ih
  | attach _ ih => exact .attach ih
  | tag _ ih => exact .tag ih
  | build _ ih => exact .build ih
  | apply _ ih => exact .apply ih

theorem Blind.pure (a : α) : (pure a : Program α).Blind V := .done (.refl _)

theorem Blind.fail (f : Fault) : (fail f : Program α).Blind V := .done (.refl _)

theorem Blind.answer (r : Except Fault α) : (answer r).Blind V := by
  cases r <;> exact .done (.refl _)

theorem Blind.bind {p : Program α} {k : α → Program γ} (hp : p.Blind V)
    (hk : ∀ a, (k a).Blind V) : (p >>= k).Blind V :=
  Veiled.bind hp fun a b hab => by
    subst hab
    exact hk a

theorem Blind.call (b : BuilderRef) (name : Value) (args : List Value)
    (named : List (String × Value)) : (call b name args named).Blind V := .tag Blind.answer

/-- Names may be looked up on handles: what they spell is not hidden. -/
theorem Blind.callByName (h : Handle) (name : String) (args : List Value)
    (named : List (String × Value)) : (callByName h name args named).Blind V := by
  have get : Proc.Veiled V (State.Veiled V) (Proc.get : Proc State State) Proc.get :=
    ⟨fun hs => .value hs, fun hs => hs, fun _ hj => hj, fun s => .refl _, fun t => .refl _⟩
  have answered (r r' : Except Fault State) (hr : Reply.Matches (State.Veiled V) r r') :
      (Program.answer r).Veiled V (State.Veiled V) (Program.answer r') := by
    cases hr with
    | ok same => exact .done (.value same)
    | error same =>
      subst same
      exact .done (.fault _)
  refine Veiled.bind (.act get answered) fun s t hst => ?_
  rw [hst.world.lookupTag]
  cases s.world.lookupTag h.builder name with
  | ok spelled => exact Blind.call ..
  | error f => exact Blind.fail f

end Program

end TagTree
