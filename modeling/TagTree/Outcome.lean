import TagTree.Fault

/-!
# Outcomes and procedures

A computation ends with a value, with a fault, or because its bound on nesting is
used up; the last is no fault and no handler sees it. A procedure is a computation
on a state, which is kept however the computation ends.
-/

namespace TagTree

inductive Outcome (α : Type) where
  | value (a : α)
  | fault (f : Fault)
  | exhausted

namespace Outcome

variable {α β : Type}

def bind (x : Outcome α) (k : α → Outcome β) : Outcome β :=
  match x with
  | value a => k a
  | fault f => fault f
  | exhausted => exhausted

instance : Monad Outcome where
  pure := value
  bind := bind

def ofOption : Option α → Outcome α
  | some a => value a
  | none => exhausted

def ofExcept : Except Fault α → Outcome α
  | .ok a => value a
  | .error f => fault f

def value? : Outcome α → Option α
  | value a => some a
  | _ => none

@[simp] theorem ofExcept_ok (a : α) : ofExcept (.ok a) = value a := rfl

@[simp] theorem ofExcept_error (f : Fault) : (ofExcept (.error f) : Outcome α) = fault f := rfl

@[simp] theorem pure_eq (a : α) : (pure a : Outcome α) = value a := rfl

@[simp] theorem value_bind (a : α) (k : α → Outcome β) : (value a >>= k) = k a := rfl

@[simp] theorem fault_bind (f : Fault) (k : α → Outcome β) :
    (fault f >>= k) = fault f := rfl

@[simp] theorem exhausted_bind (k : α → Outcome β) :
    (exhausted >>= k) = exhausted := rfl

@[simp] theorem map_value (f : α → β) (a : α) : f <$> value a = value (f a) := rfl

@[simp] theorem map_fault (f : α → β) (g : Fault) : f <$> (fault g : Outcome α) = fault g := rfl

instance : LawfulMonad Outcome := LawfulMonad.mk' Outcome
  (by intro α x; cases x <;> rfl)
  (by intros; rfl)
  (by intro α β γ x f g; cases x <;> rfl)

end Outcome

theorem bind_eq_value {α β : Type} {x : Outcome α} {k : α → Outcome β} {y : β}
    (h : (x >>= k) = .value y) : ∃ a, x = .value a ∧ k a = .value y := by
  cases x with
  | value a => exact ⟨a, rfl, h⟩
  | fault f => cases h
  | exhausted => cases h

theorem bind_eq_ok {α β : Type} {x : Except Fault α} {k : α → Except Fault β} {y : β}
    (h : (x >>= k) = .ok y) : ∃ a, x = .ok a ∧ k a = .ok y := by
  cases x with
  | ok a => exact ⟨a, rfl, h⟩
  | error f => cases h

theorem bind_eq_error {α β : Type} {x : Except Fault α} {k : α → Except Fault β} {f : Fault}
    (h : (x >>= k) = .error f) : x = .error f ∨ ∃ a, x = .ok a ∧ k a = .error f := by
  cases x with
  | ok a => exact .inr ⟨a, rfl, h⟩
  | error g =>
    cases h
    exact .inl rfl

def Proc (σ α : Type) := σ → Outcome α × σ

namespace Proc

variable {σ τ α β : Type}

def bind (p : Proc σ α) (k : α → Proc σ β) : Proc σ β := fun s =>
  match p s with
  | (.value a, s') => k a s'
  | (.fault f, s') => (.fault f, s')
  | (.exhausted, s') => (.exhausted, s')

instance : Monad (Proc σ) where
  pure a := fun s => (.value a, s)
  bind := bind

def get : Proc σ σ := fun s => (.value s, s)

def gets (f : σ → α) : Proc σ α := fun s => (.value (f s), s)

def modify (f : σ → σ) : Proc σ Unit := fun s => (.value (), f s)

def fail (f : Fault) : Proc σ α := fun s => (.fault f, s)

def ofOutcome (x : Outcome α) : Proc σ α := fun s => (x, s)

def ofExcept (x : Except Fault α) : Proc σ α := ofOutcome (.ofExcept x)

def reads (f : σ → Outcome α) : Proc σ α := fun s => (f s, s)

def onPart (part : σ → τ) (put : τ → σ → σ) (p : Proc τ α) : Proc σ α := fun s =>
  let (x, t) := p (part s)
  (x, put t s)

/-- The fault of a procedure as a value. -/
def observe (p : Proc σ α) : Proc σ (Except Fault α) := fun s =>
  match p s with
  | (.value a, s') => (.value (.ok a), s')
  | (.fault f, s') => (.value (.error f), s')
  | (.exhausted, s') => (.exhausted, s')

@[simp] theorem pure_apply (a : α) (s : σ) : (pure a : Proc σ α) s = (.value a, s) := rfl

theorem bind_apply (p : Proc σ α) (k : α → Proc σ β) (s : σ) :
    (p >>= k) s = match p s with
      | (.value a, s') => k a s'
      | (.fault f, s') => (.fault f, s')
      | (.exhausted, s') => (.exhausted, s') := rfl

@[simp] theorem ofOutcome_apply (x : Outcome α) (s : σ) :
    (ofOutcome x : Proc σ α) s = (x, s) := rfl

@[simp] theorem ofExcept_apply (x : Except Fault α) (s : σ) :
    (ofExcept x : Proc σ α) s = (.ofExcept x, s) := rfl

@[simp] theorem reads_apply (f : σ → Outcome α) (s : σ) : reads f s = (f s, s) := rfl

instance : LawfulMonad (Proc σ) := LawfulMonad.mk' (Proc σ)
  (by
    intro α p
    funext s
    show bind p (fun a s => (.value (id a), s)) s = p s
    unfold bind
    rcases h : p s with ⟨x, s'⟩
    cases x <;> rfl)
  (by intros; rfl)
  (by
    intro α β γ p f g
    funext s
    show bind (bind p f) g s = bind p (fun a => bind (f a) g) s
    unfold bind
    rcases h : p s with ⟨x, s'⟩
    cases x <;> rfl)

/-- What is observed of a computation that first observes a deed. -/
theorem observe_bind (p : Proc σ α) (k : Except Fault α → Proc σ β) :
    observe (observe p >>= k) = observe p >>= fun r => observe (k r) := by
  funext s
  simp only [observe, bind_apply]
  rcases p s with ⟨x, t⟩
  cases x <;> rfl

end Proc

end TagTree
