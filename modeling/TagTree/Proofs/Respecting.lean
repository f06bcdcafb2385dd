import Mathlib.Order.Defs.Unbundled
import TagTree.Proofs.Adequacy

/-!
# Runs that respect a relation

A preorder on states holds between the beginning and the end of every run, however the run ends, if
it holds across all that programs do one at a time: what they do by themselves, content attached by
hand, tag calls and builds. One induction on programs, and one on fuel, carry it.
-/

namespace TagTree

/-! ### Procedures that respect a relation -/

/-- Every state is related to the one that a procedure leaves. -/
def Proc.Respects {σ α : Type} (R : σ → σ → Prop) (p : Proc σ α) : Prop :=
  ∀ s, R s (p s).2

namespace Proc

section Respects

variable {σ α β : Type} {R : σ → σ → Prop} [IsPreorder σ R]

@[simp] theorem respects_ofOutcome (x : Outcome α) : Respects R (ofOutcome x : Proc σ α) :=
  fun s => refl_of R s

@[simp] theorem respects_pure (a : α) : Respects R (pure a : Proc σ α) := fun s => refl_of R s

@[simp] theorem respects_get : Respects R (Proc.get : Proc σ σ) := fun s => refl_of R s

@[simp] theorem respects_gets (f : σ → α) : Respects R (gets f) := fun s => refl_of R s

@[simp] theorem respects_reads (f : σ → Outcome α) : Respects R (reads f) :=
  fun s => refl_of R s

@[simp] theorem respects_fail (f : Fault) : Respects R (fail f : Proc σ α) :=
  fun s => refl_of R s

@[simp] theorem respects_ofExcept (x : Except Fault α) : Respects R (ofExcept x : Proc σ α) :=
  fun s => refl_of R s

@[simp] theorem respects_bind {p : Proc σ α} {k : α → Proc σ β} (hp : Respects R p)
    (hk : ∀ a, Respects R (k a)) : Respects R (p >>= k) := by
  intro s
  have hs := hp s
  rw [bind_apply]
  rcases h : p s with ⟨x, t⟩
  rw [h] at hs
  cases x with
  | value a => exact trans_of R hs (hk a t)
  | fault f => exact hs
  | exhausted => exact hs

@[simp] theorem respects_map {p : Proc σ α} (f : α → β) (hp : Respects R p) :
    Respects R (f <$> p) := by
  rw [map_eq_pure_bind]
  exact respects_bind hp fun a => respects_pure (f a)

end Respects

theorem respects_observe {σ α : Type} {R : σ → σ → Prop} {p : Proc σ α} (hp : Respects R p) :
    Respects R (observe p) := by
  intro s
  have hs := hp s
  unfold observe
  rcases h : p s with ⟨x, t⟩
  rw [h] at hs
  cases x <;> exact hs

end Proc

/-! ### Runs that respect a relation -/

/-- A program whose deeds by itself respect a relation. -/
def Program.DeedsRespect (R : State → State → Prop) {α : Type} : Program α → Prop
  | .done _ => True
  | .act p next => p.Respects R ∧ ∀ r, (next r).DeedsRespect R
  | .attach _ _ next => ∀ r, (next r).DeedsRespect R
  | .tag _ _ _ _ next => ∀ r, (next r).DeedsRespect R
  | .build _ _ next => ∀ r, (next r).DeedsRespect R
  | .apply _ _ _ next => ∀ r, (next r).DeedsRespect R

def Code.DeedsRespect (R : State → State → Prop) (code : Code) : Prop :=
  ∀ c args named, (code c args named).DeedsRespect R

def Caller.Respects (R : State → State → Prop) (caller : Caller) : Prop :=
  ∀ c args named, (caller c args named).Respects R

/-- Around the callables that they run, tag calls on a builder and its builds respect a relation. -/
structure BuilderRef.Respects (R : State → State → Prop) (b : BuilderRef) : Prop where
  created : ∀ c s, R s (createElement b c s)
  entered : ∀ s, R s (enterBlock b s)
  left : ∀ e start x, (endBlock b e start x).Respects R
  began : ∀ s, R s (s.onWorld (·.startBuild b))
  ended : ∀ x, (endBuild b x).Respects R

/-- A relation that content attached by hand respects, and tag calls and builds do if the
callables that they run do. -/
structure Upheld (R : State → State → Prop) : Prop where
  attach : ∀ e change, (Program.attachContent e change).Respects R
  tag : ∀ {caller : Caller}, caller.Respects R →
    ∀ b name args named, (tagCall caller b name args named).Respects R
  build : ∀ {caller : Caller}, caller.Respects R → ∀ b block, (build caller b block).Respects R

section Runs

variable {α : Type} {p : Program α} {code : Code} {R R' : State → State → Prop}

theorem Program.Steady.deeds (steady : p.Steady) :
    p.DeedsRespect fun s t => s.world.Leaves t.world := by
  induction p with
  | done x => trivial
  | act d next ih => exact ⟨steady.1, fun r => ih r (steady.2 r)⟩
  | attach e change next ih => exact fun r => ih r (steady r)
  | tag b name args named next ih => exact fun r => ih r (steady r)
  | build b block next ih => exact fun r => ih r (steady r)
  | apply c args named next ih => exact fun r => ih r (steady r)

theorem Code.Steady.deeds (steady : code.Steady) :
    code.DeedsRespect fun s t => s.world.Leaves t.world :=
  fun c args named => Program.Steady.deeds (steady c args named)

theorem Program.DeedsRespect.mono (deeds : p.DeedsRespect R) (imp : ∀ s t, R s t → R' s t) :
    p.DeedsRespect R' := by
  induction p with
  | done x => trivial
  | act d next ih => exact ⟨fun s => imp s _ (deeds.1 s), fun r => ih r (deeds.2 r)⟩
  | attach e change next ih => exact fun r => ih r (deeds r)
  | tag b name args named next ih => exact fun r => ih r (deeds r)
  | build b block next ih => exact fun r => ih r (deeds r)
  | apply c args named next ih => exact fun r => ih r (deeds r)

theorem Code.DeedsRespect.mono (deeds : code.DeedsRespect R) (imp : ∀ s t, R s t → R' s t) :
    code.DeedsRespect R' :=
  fun c args named => Program.DeedsRespect.mono (deeds c args named) imp

variable [IsPreorder State R]

section Operations

variable {caller : Caller} {b : BuilderRef} (around : b.Respects R) (called : caller.Respects R)

include around called

theorem respects_runNested (e : ElementRef) (block : Callable Value) :
    (runNested caller b e block).Respects R := by
  intro s
  have ran := called block [handleFor b (enterBlock b s)] [] (enterBlock b s)
  exact trans_of R (around.entered s) (trans_of R ran (around.left e _ _ _))

theorem respects_tagCall (name : Value) (args : List Value) (named : List (String × Value)) :
    (tagCall caller b name args named).Respects R := by
  intro s
  unfold tagCall
  cases s.world.admitCall b name args named with
  | fault f => exact refl_of R s
  | exhausted => exact refl_of R s
  | value c =>
    have created := around.created c s
    simp only
    cases c.block with
    | none => exact created
    | some block => exact trans_of R created (respects_runNested around called _ block _)

theorem respects_build (block : Value) : (build caller b block).Respects R := by
  intro s
  unfold build
  cases s.world.admitBuild b block with
  | fault f => exact refl_of R s
  | exhausted => exact refl_of R s
  | value c =>
    have ran := called c [handleFor b (s.onWorld (·.startBuild b))] []
      (s.onWorld (·.startBuild b))
    exact trans_of R (around.began s) (trans_of R ran (around.ended _ _))

end Operations

variable (upheld : Upheld R)

include upheld

theorem Program.respects_run {caller : Caller} (called : caller.Respects R)
    (deeds : p.DeedsRespect R) : (p.run caller).Respects R := by
  induction p with
  | done x => exact Proc.respects_ofOutcome x
  | act d next ih =>
    exact Proc.respects_bind (Proc.respects_observe deeds.1) fun r => ih r (deeds.2 r)
  | attach e change next ih =>
    exact Proc.respects_bind (Proc.respects_observe (upheld.attach e change))
      fun r => ih r (deeds r)
  | tag b name args named next ih =>
    exact Proc.respects_bind (Proc.respects_observe (upheld.tag called b name args named))
      fun r => ih r (deeds r)
  | build b block next ih =>
    exact Proc.respects_bind (Proc.respects_observe (upheld.build called b block))
      fun r => ih r (deeds r)
  | apply c args named next ih =>
    exact Proc.respects_bind (Proc.respects_observe (called c args named))
      fun r => ih r (deeds r)

/-- What code does at any fuel, however it ends, respects what its deeds and operations do. -/
theorem respects_callWithin (deeds : code.DeedsRespect R) (n : Nat) :
    (callWithin code n).Respects R := by
  induction n with
  | zero => exact fun c args named s => refl_of R s
  | succ n ih => exact fun c args named => Program.respects_run upheld ih (deeds c args named)

end Runs

end TagTree
