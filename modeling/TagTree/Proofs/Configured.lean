import TagTree.Proofs.Lockstep

/-!
# Builds under two configurations

A builder between builds may be given other settings. Where code is blind to what differs, its
next build goes the same under both.
-/

namespace TagTree

/-! ### Configured runs -/

/-- A state in which a builder takes its settings from given ones. -/
def State.configure (s : State) (b : BuilderRef) (c : Settings Value) : State :=
  s.onWorld (·.updateBuilder b fun x => { x with configuration := .settings c })

/-- A machine that is about to run a build, with what happened before. -/
def Machine.building (b : BuilderRef) (k : Callable Value) (s : State) (h : List Event) :
    Machine :=
  ⟨s, [], .build b (.callable k) ignoring, h⟩

/-- Builds of a builder that ended the same and left the same behind, but for the builder's
settings, its remarks and the journal. -/
structure BuiltSame (b : BuilderRef) (remarks : List Remark → List Remark → Prop)
    (r r' : Outcome ElementRef × State) : Prop where
  outcome : r'.1 = r.1
  store : r'.2.world.store = r.2.world.store
  others : ∀ c, c ≠ b → r'.2.world.builder? c = r.2.world.builder? c
  record : ∃ x y, r.2.world.builder? b = some x ∧ r'.2.world.builder? b = some y ∧
    y.session = x.session ∧ y.root = x.root ∧ y.counters = x.counters ∧
    remarks x.remarks y.remarks
  bindings : r'.2.bindings = r.2.bindings
  builders : r'.2.builders = r.2.builders
  trace : r'.2.trace = r.2.trace

variable {V : Veil} {B : Bond V} {code : Code} {s : State} {x : Builder}

theorem EndsBonded.builtSame {r r' : Outcome ElementRef × State} (h : EndsBonded B r r')
    {remarks : List Remark → List Remark → Prop}
    (kept : ∀ rs, remarks (rs.filter B.keeps) rs) : BuiltSame V.builder remarks r r' where
  outcome := h.ending
  store := h.state.world.store
  others c hc := by
    rcases h.state.world.records c with ⟨hx, hy⟩ | ⟨x, y, hx, hy, hxy⟩
    · rw [hx, hy]
    · rw [Builder.Bonded, if_neg hc] at hxy
      rw [hx, hy, hxy]
  record := by
    obtain ⟨x, y, hx, hy, twins⟩ := h.state.world.self
    refine ⟨x, y, hx, hy, twins.session, twins.root, twins.counters, ?_⟩
    rw [twins.remarks]
    exact kept y.remarks
  bindings := h.state.bindings
  builders := h.state.builders
  trace := h.state.trace

/-- One change of a builder made in two ways, which leave twins. -/
theorem World.Bonded.of_alters {w u u' : World} {f g : Builder → Builder}
    (hx : w.builder? V.builder = some x) (hu : w.Alters V.builder f u)
    (hu' : w.Alters V.builder g u') (twins : (f x).Twins B (g x)) (store : u'.store = u.store)
    (journal : u'.journal = u.journal) : u.Bonded B u' := by
  have hleft : u.builder? V.builder = some (f x) := by rw [hu.self, hx, Option.map_some]
  have hright : u'.builder? V.builder = some (g x) := by rw [hu'.self, hx, Option.map_some]
  refine ⟨store, fun c => ?_, ?_, fun _ => journal⟩
  · by_cases hc : c = V.builder
    · subst hc
      rw [hleft, hright]
      refine .some ?_
      rw [Builder.Bonded, if_pos rfl]
      exact twins
    · rw [hu.other (Ne.symm hc), hu'.other (Ne.symm hc)]
      cases w.builder? c with
      | none => exact .none
      | some y =>
        refine .some ?_
        rw [Builder.Bonded, if_neg hc]
  · rintro c rfl
    rw [hleft]
    rfl

section Configured

variable {b : BuilderRef}

theorem configure_alters (s : State) (b : BuilderRef) (c : Settings Value) :
    s.world.Alters b (fun x => { x with configuration := .settings c }) (s.configure b c).world :=
  .updateBuilder s.world b _

theorem configure_builder (hx : s.world.builder? b = some x) (c : Settings Value) :
    (s.configure b c).world.builder? b = some { x with configuration := .settings c } := by
  rw [(configure_alters s b c).self, hx, Option.map_some]

/-- A builder stands where it stood when it is configured. -/
theorem configure_stands (s : State) (b d : BuilderRef) (c : Settings Value) :
    (s.configure b c).world.Stands d (s.world.session? d) (s.world.root? d)
      (s.world.elementCount d) := by
  have altered := configure_alters s b c d
  constructor
  · simp only [World.session?, altered]
    split
    · cases s.world.builder? d <;> rfl
    · rfl
  · simp only [World.root?, altered]
    split
    · cases s.world.builder? d <;> rfl
    · rfl
  · simp only [World.elementCount, altered]
    split
    · cases s.world.builder? d <;> rfl
    · rfl

/-- Where the bond has all remarks, states under both configurations are bonded. -/
theorem configured_bonded (hx : s.world.builder? V.builder = some x) (B : Bond V)
    (keeps : ∀ r, B.keeps r = true) :
    (s.configure V.builder B.left).Bonded B (s.configure V.builder B.right) := by
  have same : x.remarks = x.remarks.filter B.keeps :=
    (List.filter_eq_self.mpr fun r _ => keeps r).symm
  exact ⟨.of_alters hx (configure_alters s _ _) (configure_alters s _ _)
    ⟨rfl, rfl, rfl, rfl, rfl, rfl, rfl, same⟩ rfl rfl, rfl, rfl, rfl⟩

/-- Builds under both configurations begin in bonded states. -/
theorem started_bonded (hx : s.world.builder? V.builder = some x) (B : Bond V) :
    ((s.configure V.builder B.left).onWorld (·.startBuild V.builder)).Bonded B
      ((s.configure V.builder B.right).onWorld (·.startBuild V.builder)) := by
  have started (c : Settings Value) :=
    (configure_alters s V.builder c).trans (.updateBuilder _ V.builder Builder.start)
  have bonded : ((s.configure V.builder B.left).world.updateBuilder V.builder
      Builder.start).Bonded B
      ((s.configure V.builder B.right).world.updateBuilder V.builder Builder.start) :=
    .of_alters hx (started _) (started _) ⟨rfl, rfl, rfl, rfl, rfl, rfl, rfl, rfl⟩ rfl rfl
  exact ⟨bonded.notice V.builder .started, rfl, rfl, rfl⟩

end Configured

/-! ### Builds -/

/-- Builds under the settings of a bond end the same, up to the bond, if the first run is fair. -/
theorem configured_builds (blind : code.Blind V) (steady : code.Steady)
    (hx : s.world.builder? V.builder = some x) (idle : x.session = none) (k : Callable Value)
    {h : List Event}
    (fair : ∀ m, Machine.Steps code (.building V.builder k (s.configure V.builder B.left) h) m →
      m.Fair B) (n : Nat) :
    EndsBonded B
      (build (callWithin code n) V.builder (.callable k) (s.configure V.builder B.left))
      (build (callWithin code n) V.builder (.callable k) (s.configure V.builder B.right)) := by
  have admission (c : Settings Value) :
      (s.configure V.builder c).world.admitBuild V.builder (.callable k) = .value k := by
    simp [World.admitBuild, configure_builder hx, Builder.isBuilding, idle]
  exact build_bonded_of_started (callsBonded_callWithin blind steady n) (admission _)
    (admission _) (started_bonded hx B) fair

end TagTree
