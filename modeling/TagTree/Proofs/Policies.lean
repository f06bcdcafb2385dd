import TagTree.Proofs.Configured
import TagTree.Proofs.Elements
import TagTree.Proofs.Remarks

/-!
# Policies do not matter to what is built

The policy about discarded values decides about remarks, and, where it forbids them, about
faults; whether remarks are wanted decides about remarks. Neither shows in what is built.
-/

namespace TagTree

variable {V : Veil} {B : Bond V} {code : Code} {s : State} {x : Builder}

/-! ### Fair machines -/

/-- Every machine is fair if the runs are even and take tag calls alike. -/
theorem fair_of_even (even : B.Even) (seen : ¬ V.hidden .maxDepth) (m : Machine) :
    m.Fair B where
  calls _ _ ht := ht.world.veiled.admitCall (fun _ => seen) _ _ _
  blocks _ _ := .inl even

/-- Where the first run forbids discarded values, a machine is fair if it raises no such fault. -/
theorem fair_of_unforbidden (strict : B.left.policy = .strict) (seen : ¬ V.hidden .maxDepth)
    {m : Machine} (unforbidden : ∀ tag v shown, ¬ m.Raises (.ambiguousBlock tag v shown)) :
    m.Fair B where
  calls _ _ ht := ht.world.veiled.admitCall (fun _ => seen) _ _ _
  blocks {e start next rest v} stack program := by
    obtain ⟨s, stack', p, h⟩ := m
    simp only at stack program
    subst stack program
    refine .inr ⟨strict, fun tag u shown settled => unforbidden tag u shown (.block ?_ (by simp))⟩
    simp only [endBlock, settled]
    rfl

/-! ### Bonds of policies -/

def Remark.isDiscard : Remark → Bool
  | .discardedValue .. => true
  | .orphans .. => false

/-- The policy, whether remarks are wanted, the remarks and the journal are not seen. -/
def policyVeil (b : BuilderRef) : Veil where
  builder := b
  hidden n := n = .policy ∨ n = .diagnostics
  inner n hn := by rcases hn with rfl | rfl <;> simp
  reports := False

section Bonds

variable (b : BuilderRef) (c : Settings Value)

theorem policyVeil_sees : ¬ (policyVeil b).hidden .maxDepth := by
  rintro (h | h) <;> cases h

/-- Settings that differ in what is hidden only. -/
theorem policyVeil_same (p q : Policy) (v u : Value) (n : SettingName)
    (hn : ¬ (policyVeil b).hidden n) :
    ({ c with policy := q, diagnostics := u } : Settings Value).get n =
      ({ c with policy := p, diagnostics := v } : Settings Value).get n := by
  cases n with
  | policy => exact absurd (.inl rfl) hn
  | diagnostics => exact absurd (.inr rfl) hn
  | _ => rfl

/-- Discarded values pass in silence in the first run and leave remarks in the second one. -/
def silencing : Bond (policyVeil b) where
  left := { c with policy := .silent }
  right := { c with policy := .diagnostic }
  keeps r := !r.isDiscard
  journals := False
  same := policyVeil_same b c _ _ _ _
  orphans w root tags := by
    unfold Settings.due
    split <;> rfl
  reports := False.elim

theorem silencing_even : (silencing b c).Even where
  strict := by simp [silencing]
  discards w tag shown := by
    have silent : (silencing b c).left.dueDiscard w (.discardedValue tag shown) = [] := rfl
    have noted : (silencing b c).right.dueDiscard w (.discardedValue tag shown) =
        (silencing b c).right.due w (.discardedValue tag shown) := rfl
    rw [silent, noted, Settings.due]
    split <;> rfl
  noted := False.elim

/-- Discarded values are forbidden in the first run. -/
def forbidding (p : Policy) : Bond (policyVeil b) where
  left := { c with policy := .strict }
  right := { c with policy := p }
  keeps _ := true
  journals := True
  same := policyVeil_same b c _ _ _ _
  orphans w root tags := by
    unfold Settings.due
    split <;> rfl
  reports := False.elim

/-- Remarks are not wanted in the first run. -/
def muting (v : Value) : Bond (policyVeil b) where
  left := { c with diagnostics := .bool false }
  right := { c with diagnostics := v }
  keeps _ := false
  journals := True
  same := policyVeil_same b c _ _ _ _
  orphans _ _ _ := (List.filter_false _).symm
  reports := False.elim

theorem muting_even (v : Value) : (muting b c v).Even where
  strict := .rfl
  discards w tag shown := by
    have off : (muting b c v).left.due w (.discardedValue tag shown) = [] := rfl
    have none : List.filter (muting b c v).keeps = fun _ => [] := funext List.filter_false
    rw [Settings.dueDiscard, off, none, ite_self]
  noted _ := .rfl

end Bonds

/-- What is built, and what is counted, does not depend on the policy about discarded values: in
silence remarks about them are missing, and where they are forbidden nothing differs as long as
no block is refused for one. Without diagnostics, the remarks only are missing. -/
theorem policies_agree {code : Code} {b : BuilderRef} (blind : code.Blind (policyVeil b))
    (steady : code.Steady) {s : State} {x : Builder} (hx : s.world.builder? b = some x)
    (idle : x.session = none) (k : Callable Value) (c : Settings Value) (n : Nat) :
    let run (d : Settings Value) := build (callWithin code n) b (.callable k) (s.configure b d)
    BuiltSame b (fun silent noted => silent = noted.filter fun r => !r.isDiscard)
        (run { c with policy := .silent }) (run { c with policy := .diagnostic }) ∧
      ((∀ m, Machine.Steps code (.building b k (s.configure b { c with policy := .strict }) []) m →
          ∀ tag v shown, ¬ m.Raises (.ambiguousBlock tag v shown)) →
        ∀ p, BuiltSame b Eq (run { c with policy := .strict }) (run { c with policy := p }) ∧
          (run { c with policy := p }).2.world.journal =
            (run { c with policy := .strict }).2.world.journal) ∧
      ∀ v, BuiltSame b (fun off _ => off = []) (run { c with diagnostics := .bool false })
          (run { c with diagnostics := v }) ∧
        (run { c with diagnostics := v }).2.world.journal =
          (run { c with diagnostics := .bool false }).2.world.journal := by
  have seen := policyVeil_sees b
  refine ⟨?_, fun unforbidden p => ?_, fun v => ?_⟩
  · have ends := configured_builds (B := silencing b c) blind steady hx idle k
      (h := []) (fun m _ => fair_of_even (silencing_even b c) seen m) n
    exact ends.builtSame fun _ => rfl
  · have ends := configured_builds (B := forbidding b c p) blind steady hx idle k
      (fun m hm => fair_of_unforbidden rfl seen (unforbidden m hm)) n
    exact ⟨ends.builtSame fun rs => List.filter_eq_self.mpr fun _ _ => rfl,
      ends.state.world.journal trivial⟩
  · have ends := configured_builds (B := muting b c v) blind steady hx idle k
      (h := []) (fun m _ => fair_of_even (muting_even b c v) seen m) n
    exact ⟨ends.builtSame fun rs => List.filter_false rs, ends.state.world.journal trivial⟩

theorem wordyCode_blind (V : Veil) : wordyCode.Blind V := by
  intro c args named
  unfold wordyCode
  split
  · exact .tag fun _ => .done (.refl _)
  · exact .tag fun _ => .done (.refl _)
  · exact Program.Blind.fail _

theorem wordyCode_steady : wordyCode.Steady := by
  intro c args named
  unfold wordyCode
  split
  · exact fun _ => trivial
  · exact fun _ => trivial
  · trivial

/-- A text is discarded for an element, which is remarked, or else refused and the fault caught.
Where an element alone is made, no policy makes a difference. -/
theorem wordy_policies_agree :
    let run (k : Callable Value) (p : Policy) := build (callWithin wordyCode 3) ⟨0⟩ (.callable k)
      (smallState.configure ⟨0⟩ { Settings.standard with policy := p })
    (∃ x, (run (.factory 1 ⟨0⟩ "a") .diagnostic).2.world.builder? ⟨0⟩ = some x ∧
      x.root = some ⟨0⟩ ∧ x.remarks = [.discardedValue "a" "'x'"]) ∧
    (∃ x, (run (.factory 1 ⟨0⟩ "a") .strict).2.world.builder? ⟨0⟩ = some x ∧ x.remarks = []) ∧
    BuiltSame ⟨0⟩ (fun silent noted => silent = noted.filter fun r => !r.isDiscard)
      (run (.factory 1 ⟨0⟩ "a") .silent) (run (.factory 1 ⟨0⟩ "a") .diagnostic) ∧
    ∀ p, BuiltSame ⟨0⟩ Eq (run (.factory 0 ⟨0⟩ "a") .strict) (run (.factory 0 ⟨0⟩ "a") p) := by
  have agree (k : Callable Value) := policies_agree (wordyCode_blind _) wordyCode_steady
    (b := ⟨0⟩) (s := smallState) (x := .idle (.settings .standard) .none 0) rfl rfl k .standard 3
  refine ⟨⟨_, rfl, rfl, rfl⟩, ⟨_, rfl, rfl⟩, (agree _).1, fun p => ((agree _).2.1 ?_ p).1⟩
  -- The machines of the strict run, one after the other.
  intro m hm tag v shown raises
  rcases hm.of_step (.of_deed (.began rfl) rfl rfl) with rfl | hm
  · cases raises with
    | refusedBuild refused => cases refused
  rcases hm.of_step (.of_deed (.created rfl rfl) rfl rfl) with rfl | hm
  · cases raises with
    | refusedCall refused => cases refused
  rcases hm.of_step (.of_ending .ended) with rfl | hm
  · cases raises with
    | build fails => cases fails
  cases hm.of_over ⟨rfl, _, rfl⟩
  cases raises

end TagTree
