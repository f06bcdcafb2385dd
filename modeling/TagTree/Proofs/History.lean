import TagTree.Proofs.Origins
import TagTree.Proofs.Parallel

/-!
# History independence

A builder that is idle builds what a fresh one with the same configuration and correlation
builds, whatever it built before and however that ended. The programs considered know some
objects from before, which do not lead to the builder or its handle; all they do to other
objects is to pass on what they are given.
-/

namespace TagTree

/-! ### Idle builders -/

/-- An idle builder with its record. Nothing known leads to it or to its handle. -/
structure Outsider (known : Object → Prop) (w : World) (b : BuilderRef) (x : Builder) : Prop where
  record : w.builder? b = some x
  idle : x.session = none
  handed : x.handleId < w.store.nextId
  unknown : ¬ known (.builder b)
  unshared : ¬ known (.identity x.handleId)

section Starting

variable {known : Object → Prop} {names : String → Prop} {κ : Matching} {caller : Caller}
  {s t : State} {b c : BuilderRef} {x y : Builder} {k l : Callable Value}

theorem Outsider.imp {other : Object → Prop} (h : ∀ o, other o → known o) {w : World}
    (hx : Outsider known w b x) : Outsider other w b x :=
  ⟨hx.record, hx.idle, hx.handed, fun ho => hx.unknown (h _ ho), fun ho => hx.unshared (h _ ho)⟩

theorem Outsider.startBuild {w : World} (h : Outsider known w b x) :
    (w.startBuild b).builder? b = some x.start := by
  rw [(World.startBuild_alters w b).self, h.record, Option.map_some]

theorem Outsider.build (h : Outsider known s.world b x) (k : Callable Value) :
    TagTree.build caller b (.callable k) s =
      let started := s.onWorld (·.startBuild b)
      let ran := caller k [handleFor b started] [] started
      endBuild b ran.1 ran.2 := by
  have building : x.isBuilding = false := by rw [Builder.isBuilding, h.idle]; rfl
  have admitted : s.world.admitBuild b (.callable k) = .value k := by
    simp [World.admitBuild, h.record, building]
  simp only [TagTree.build, admitted, handleFor]

/-- Once idle builders with like configurations have started, they are alike. -/
theorem State.Like.start (h : State.Like names κ s t) (left : Outsider κ.Left s.world b x)
    (right : Outsider κ.Right t.world c y) (near : ∀ o, ¬ κ.apart o)
    (configuration : Configuration.Like κ x.configuration y.configuration)
    (correlation : Value.Like κ x.correlation y.correlation) :
    ∃ σ, κ ≤ σ ∧ σ.Builders b c ∧
      State.Like names σ (s.onWorld (·.startBuild b)) (t.onWorld (·.startBuild c)) := by
  have started : World.Like κ (s.world.startBuild b) (t.world.startBuild c) :=
    h.world.spared (.startBuild _ left.unknown) (.startBuild _ right.unknown) h.world.size
  have ownLeft : ∀ q, ¬ κ.rel (.identity x.handleId) q := fun q hq => left.unshared ⟨q, hq⟩
  have ownRight : ∀ q, ¬ κ.rel q (.identity y.handleId) := fun q hq => right.unshared ⟨q, hq⟩
  let τ := κ.add _ _ ownLeft ownRight (near _)
  have handles : World.Like τ (s.world.startBuild b) (t.world.startBuild c) :=
    started.add ownLeft ownRight (near _) fun _ _ _ => .identity left.handed right.handed
  have newLeft : ∀ q, ¬ τ.rel (.builder b) q := fun q hq =>
    (Matching.left_add ⟨q, hq⟩).elim left.unknown nofun
  have newRight : ∀ q, ¬ τ.rel q (.builder c) := fun q hq =>
    (Matching.right_add ⟨q, hq⟩).elim right.unknown nofun
  have le : κ ≤ τ := Matching.le_add ownLeft ownRight (near _)
  have builders : World.Like (τ.add _ _ newLeft newRight (near _)) (s.world.startBuild b)
      (t.world.startBuild c) := handles.add newLeft newRight (near _) fun σ le' _ =>
    .builder left.startBuild right.startBuild
      { configuration := configuration.mono (le.trans le')
        correlation := correlation.mono (le.trans le')
        handleId := Matching.rel_of_le le' (.inr ⟨rfl, rfl⟩)
        session := .some ⟨.none, .nil, rfl⟩
        root := .none
        remarks := rfl
        counters := rfl }
  have le' : κ ≤ τ.add _ _ newLeft newRight (near _) := le.trans (Matching.le_add _ _ _)
  exact ⟨_, le', .inr ⟨rfl, rfl⟩, h.onWorld le' builders⟩

end Starting

/-! ### Two builds -/

/-- Builds that ended the same, up to the objects that they made: with faults of one kind and
wording about like values, or with like trees that are written the same. -/
inductive SameBuild (names : String → Prop) (κ : Matching) (b c : BuilderRef) :
    Outcome ElementRef × State → Outcome ElementRef × State → Prop
  | exhausted {s t} : SameBuild names κ b c (.exhausted, s) (.exhausted, t)
  | fault {ρ f g s t} (le : κ ≤ ρ) (state : State.Like names ρ s t) (same : Fault.Like ρ f g)
      (kind : f.kind = g.kind) (report : s.world.faultReport f = t.world.faultReport g)
      (accounts : SameAccounts b c s t) : SameBuild names κ b c (.fault f, s) (.fault g, t)
  | value {ρ e f s t} (le : κ ≤ ρ) (state : State.Like names ρ s t)
      (tree : Option.Rel (ElementTree.Like ρ) (s.world.store.tree? e) (t.world.store.tree? f))
      (text : s.world.renderBuilder b = t.world.renderBuilder c)
      (accounts : SameAccounts b c s t) : SameBuild names κ b c (.value e, s) (.value f, t)

section Builds

variable {names : String → Prop} {κ ρ σ : Matching} {code : Code} {caller : Caller}
  {s t : State} {b c : BuilderRef} {x y : Builder} {k l : Callable Value}

theorem builds_alike (same : Code.Alike names (fun _ => False) κ code code)
    (h : State.Like names κ s t) (left : Outsider κ.Left s.world b x)
    (right : Outsider κ.Right t.world c y) (near : ∀ o, ¬ κ.apart o)
    (configuration : Configuration.Like κ x.configuration y.configuration)
    (correlation : Value.Like κ x.correlation y.correlation) (block : Callable.Like κ k l)
    (n : Nat) :
    ∃ ρ, κ ≤ ρ ∧ ρ.Builders b c ∧
      EndsAlike (State.Like names) False Matching.Elements ρ
        (build (callWithin code n) b (.callable k) s)
        (build (callWithin code n) c (.callable l) t) := by
  obtain ⟨ρ, le, hb, started⟩ := h.start left right near configuration correlation
  have calls : CallersAlike names False κ (callWithin code n) (callWithin code n) :=
    callWithin_alike same 0 (fun _ _ _ _ _ no => no.elim) n
  refine ⟨ρ, le, hb, ?_⟩
  rw [left.build, right.build]
  exact endBuild_alike hb (calls ρ _ _ _ _ _ _ _ _ le (block.mono le)
    (.cons (handle_like started hb) .nil) .nil started)

theorem tree_rel {w v : World} {e f : ElementRef} (h : World.Like ρ w v)
    (hr : ρ.Elements e f) (back : ∀ t, v.store.tree? f = some t → (w.store.tree? e).isSome) :
    Option.Rel (ElementTree.Like ρ) (w.store.tree? e) (v.store.tree? f) := by
  cases ht : w.store.tree? e with
  | some t =>
    obtain ⟨t', ht', same⟩ := h.tree hr ht
    rw [ht']
    exact .some same
  | none =>
    cases ht' : v.store.tree? f with
    | none => exact .none
    | some t' =>
      have hsome := back t' ht'
      rw [ht] at hsome
      cases hsome

/-- Builds that end alike in both directions ended the same. -/
theorem SameBuild.of_both {x y : Outcome ElementRef × State} (le : κ ≤ ρ)
    (hb : ρ.Builders b c) (hb' : σ.Builders c b)
    (forth : EndsAlike (State.Like names) False Matching.Elements ρ x y)
    (back : EndsAlike (State.Like names) False Matching.Elements σ y x) :
    SameBuild names κ b c x y := by
  -- one direction alone leaves it open whether the second build ran out of fuel where the first
  -- one ended, and whether the second one's tree and text are there where the first one's are not
  cases forth with
  | spent =>
    cases back with
    | spent => exact .exhausted
    | lost no => exact no.elim
  | lost no => exact no.elim
  | value le₁ state₁ same₁ =>
    cases back with
    | value le₂ state₂ same₂ =>
      have hb₁ := Matching.rel_of_le le₁ hb
      have hb₂ := Matching.rel_of_le le₂ hb'
      refine .value (le.trans le₁) state₁ (tree_rel state₁.world same₁ fun t ht => ?_) ?_
        (.of_like state₁ hb₁)
      · obtain ⟨t', ht', -⟩ := state₂.world.tree same₂ ht
        rw [ht']
        rfl
      · exact (state₁.world.renderBuilderWith (fun _ _ => state₁.world.write) hb₁).antisymm
          (state₂.world.renderBuilderWith (fun _ _ => state₂.world.write) hb₂)
  | fault le₁ state₁ same₁ =>
    cases back with
    | fault le₂ state₂ same₂ =>
      exact .fault (le.trans le₁) state₁ same₁ same₁.kind
        ((state₁.world.faultReport same₁).antisymm (state₂.world.faultReport same₂))
        (.of_like state₁ (Matching.rel_of_le le₁ hb))

end Builds

/-! ### Fresh builders -/

/-- What builds with a new builder come to, given the run of its build. -/
structure EntryPoints (caller : Caller) (settings correlation : Value) (k : Callable Value)
    (s : State) (c : BuilderRef) (ran : Outcome ElementRef × State) : Prop where
  construct : (Run.construct settings correlation (.callable k)).run caller s =
    ((fun _ => c) <$> ran.1, ran.2)
  build : (Run.buildFresh settings correlation (.callable k)).run caller s =
    ((fun e => (c, e)) <$> ran.1, ran.2)
  text : (Run.textFresh settings correlation (.callable k)).run caller s =
    (ran.1 >>= fun _ => ran.2.world.renderBuilder c, ran.2)
  rendered : ∀ e, ran.1 = .value e → ∃ y, ran.2.world.builder? c = some y ∧
    ran.2.world.renderBuilder c = do
      let width ← Outcome.ofExcept (ran.2.world.settingOf y.configuration .indentWidth)
      ran.2.world.render e width 0

section Fresh

variable {known : Object → Prop} {names : String → Prop} {κ : Matching} {code : Code}
  {caller : Caller} {s t : State} {w : World} {b c : BuilderRef} {x y : Builder}
  {k : Callable Value} {settings correlation : Value}

theorem newBuilder_spares (fresh : newBuilder settings correlation s.world = (.value c, w))
    (held : ∀ o, known o → o.In s.world) :
    s.world.Spares known w ∧ w.store.elements = s.world.store.elements := by
  unfold newBuilder at fresh
  simp only at fresh
  split at fresh
  · cases fresh
  · cases fresh
    have named := World.Spares.newId (P := known) s.world
    exact ⟨named.trans (.pushBuilder _ (fun b hb => named.grows _ (held _ hb)) _), rfl⟩

theorem newBuilder_outsider (fresh : newBuilder settings correlation s.world = (.value c, w))
    (held : ∀ o, known o → o.In s.world) (record : w.builder? c = some y) :
    Outsider known w c y := by
  unfold newBuilder at fresh
  simp only at fresh
  split at fresh
  · cases fresh
  · cases fresh
    simp only [World.builder?, Array.getElem?_push_size, Option.some.injEq] at record
    subst record
    exact
      { record := by simp [World.builder?]
        idle := rfl
        handed := Nat.lt_succ_self _
        unknown := fun hc => Nat.lt_irrefl _ (held _ hc)
        unshared := fun hc => Nat.lt_irrefl _ (held _ hc) }

theorem run_fresh {α : Type} (fresh : newBuilder settings correlation s.world = (.value c, w))
    (next : BuilderRef → Program α) :
    (Program.inWorld (newBuilder settings correlation) >>= next).run caller s =
      (next c).run caller { s with world := w } := by
  rw [Program.run_bind, Program.inWorld, Program.run_inState, Proc.bind_apply]
  simp only [World.inState, Proc.onPart, fresh]

theorem run_rendering (c : BuilderRef) (s : State) :
    (Run.rendering c).run caller s = (s.world.renderBuilder c, s) := by
  rw [Run.rendering, Program.inWorld, Program.run_inState]
  rfl

theorem build_root {block : Value} {e : ElementRef}
    (h : build caller b block s = (.value e, t)) :
    ∃ x, t.world.builder? b = some x ∧ x.root = some e := by
  unfold build at h
  split at h
  · cases h
  · cases h
  · simp only at h
    generalize caller _ _ _ _ = ran at h
    obtain ⟨ending, after⟩ := ran
    cases ending with
    | fault f => cases h
    | exhausted => cases h
    | value v =>
      have concluded : after.world.session? b ≠ none := by
        intro hs
        simp only [endBuild, World.concludeBuild, hs] at h
        cases h
      obtain ⟨session, hs⟩ := Option.ne_none_iff_exists'.mp concluded
      obtain ⟨x, hx⟩ : ∃ x, after.world.builder? b = some x := by
        unfold World.session? at hs
        obtain ⟨x, hx, -⟩ := Option.bind_eq_some_iff.mp hs
        exact ⟨x, hx⟩
      obtain ⟨rs, altered⟩ := endBuild_alters hs (.value v)
      have ended := endBuild_ending hs (.value v)
      rw [h] at altered ended
      refine ⟨_, by rw [altered.self, hx]; rfl, ?_⟩
      rw [Function.comp_apply, Builder.root_finish, ← ended]
      rfl

theorem entryPoints (fresh : newBuilder settings correlation s.world = (.value c, w)) :
    EntryPoints caller settings correlation k s c
      (build caller c (.callable k) { s with world := w }) := by
  have built : (Run.buildFresh settings correlation (.callable k)).run caller s =
      ((fun e => (c, e)) <$> (build caller c (.callable k) { s with world := w }).1,
        (build caller c (.callable k) { s with world := w }).2) := by
    rw [Run.buildFresh, run_fresh fresh, Program.run_bind, Program.run_runBuild,
      Proc.bind_apply]
    rcases build caller c (.callable k) { s with world := w } with ⟨ending, t⟩
    cases ending <;> rfl
  refine ⟨?_, built, ?_, fun e he => ?_⟩
  · rw [Run.construct, run_fresh fresh]
    simp only [Value.isNone, Bool.not_false, if_true]
    rw [Program.run_bind, Program.run_runBuild, Proc.bind_apply]
    rcases build caller c (.callable k) { s with world := w } with ⟨ending, t⟩
    cases ending <;> rfl
  · rw [Run.textFresh, Program.run_bind, Proc.bind_apply, built]
    rcases build caller c (.callable k) { s with world := w } with ⟨ending, t⟩
    cases ending with
    | value e => exact run_rendering c t
    | fault f => rfl
    | exhausted => rfl
  · obtain ⟨y, hy, root⟩ := build_root (Prod.ext he rfl)
    refine ⟨y, hy, ?_⟩
    simp only [World.renderBuilder, World.renderBuilderWith, hy, root]
    rfl

end Fresh

/-! ### Independence -/

section Independence

variable {names : String → Prop} {known : Object → Prop} {zero : known (.identity 0)}
  {code : Code} {s start : State} {b c : BuilderRef} {x y origin : Builder}
  {settings correlation : Value} {v w : World} {k : Callable Value}

theorem idle_builds_as_fresh
    (parametric : Code.Alike names (fun _ => False) (.only known zero) code code)
    (closed : State.Like names (.only known zero) s s) (outsider : Outsider known s.world b x)
    (configured : Configuration.Like (.only known zero) x.configuration x.configuration)
    (correlated : Value.Like (.only known zero) x.correlation x.correlation)
    (block : Callable.Like (.only known zero) k k)
    (fresh : newBuilder settings correlation s.world = (.value c, w))
    (record : w.builder? c = some y) (sameConfiguration : y.configuration = x.configuration)
    (sameCorrelation : y.correlation = x.correlation) (n : Nat) :
    SameBuild names (.only known zero) b c (build (callWithin code n) b (.callable k) s)
      (build (callWithin code n) c (.callable k) { s with world := w }) := by
  have held : ∀ o, known o → o.In s.world := fun o ho => closed.world.left_in ⟨ho, rfl⟩
  obtain ⟨spared, elements⟩ := newBuilder_spares fresh held
  have newcomer := newBuilder_outsider fresh held record
  have left : ∀ o, (Matching.only known zero).Left o → known o := fun _ ⟨_, h⟩ => h.1
  have right : ∀ o, (Matching.only known zero).Right o → known o := fun _ ⟨_, h⟩ => h.2 ▸ h.1
  have size : w.store.elements.size = s.world.store.elements.size := congrArg Array.size elements
  have forth : State.Like names (.only known zero) s { s with world := w } :=
    closed.onWorld le_rfl (closed.world.spared (.refl _) (spared.imp right) size.ge)
  have back : State.Like names (.only known zero) { s with world := w } s :=
    closed.onWorld le_rfl (closed.world.spared (spared.imp left) (.refl _) size.le)
  obtain ⟨ρ, le, hb, alike⟩ := builds_alike parametric forth (outsider.imp left)
    (newcomer.imp right) (fun _ => id) (sameConfiguration ▸ configured)
    (sameCorrelation ▸ correlated) block n
  obtain ⟨σ, -, hb', alike'⟩ := builds_alike parametric back (newcomer.imp left)
    (outsider.imp right) (fun _ => id) (sameConfiguration ▸ configured)
    (sameCorrelation ▸ correlated) block n
  exact .of_both le hb hb' alike alike'

/-- Whatever happens to a builder, it stays what it was constructed as. -/
theorem outsider_of_history (made : newBuilder settings correlation v = (.value b, start.world))
    (record : start.world.builder? b = some origin) (history : History start s)
    (idle : s.world.session? b = none) (unknown : ¬ known (.builder b))
    (unshared : ¬ known (.identity origin.handleId)) :
    ∃ x, Outsider known s.world b x ∧ origin.Later x := by
  have passes := history.passes
  obtain ⟨x, hx, later⟩ := passes.builder b origin record
  have newcomer : Outsider (fun _ => False) start.world b origin :=
    newBuilder_outsider (s := { start with world := v }) made (fun _ => False.elim) record
  refine ⟨x, ⟨hx, ?_, ?_, unknown, ?_⟩, later⟩
  · simpa [World.session?, hx] using idle
  · rw [later.handleId]
    exact passes.grows (.identity _) newcomer.handed
  · rw [later.handleId]
    exact unshared

end Independence

/-- History independence: a builder that was constructed, and that is idle after any history,
builds what a fresh one with the same configuration and correlation builds, if blocks know
nothing of before but objects that do not lead to the builder or its handle. The constructor
with a block, a fresh build and its text run the build of the fresh one. -/
theorem history_independent {names : String → Prop} {known : Object → Prop}
    {zero : known (.identity 0)} {code : Code}
    (parametric : Code.Alike names (fun _ => False) (.only known zero) code code)
    {v : World} {given givenCorrelation : Value} {b : BuilderRef} {start s : State}
    {origin : Builder}
    (made : newBuilder given givenCorrelation v = (.value b, start.world))
    (madeAs : start.world.builder? b = some origin) (history : History start s)
    (idle : s.world.session? b = none) (unknown : ¬ known (.builder b))
    (unshared : ¬ known (.identity origin.handleId))
    (closed : State.Like names (.only known zero) s s)
    (configured : Configuration.Like (.only known zero) origin.configuration
      origin.configuration)
    (correlated : Value.Like (.only known zero) origin.correlation origin.correlation)
    {k : Callable Value} (block : Callable.Like (.only known zero) k k)
    {settings correlation : Value} {c : BuilderRef} {w : World} {y : Builder}
    (fresh : newBuilder settings correlation s.world = (.value c, w))
    (freshAs : w.builder? c = some y)
    (sameConfiguration : y.configuration = origin.configuration)
    (sameCorrelation : y.correlation = origin.correlation) (n : Nat) :
    SameBuild names (.only known zero) b c (build (callWithin code n) b (.callable k) s)
        (build (callWithin code n) c (.callable k) { s with world := w }) ∧
      EntryPoints (callWithin code n) settings correlation k s c
        (build (callWithin code n) c (.callable k) { s with world := w }) := by
  obtain ⟨x, outsider, later⟩ := outsider_of_history made madeAs history idle unknown unshared
  have configuration : y.configuration = x.configuration :=
    sameConfiguration.trans later.configuration.symm
  have correlation : y.correlation = x.correlation :=
    sameCorrelation.trans later.correlation.symm
  exact ⟨idle_builds_as_fresh parametric closed outsider (later.configuration ▸ configured)
    (later.correlation ▸ correlated) block fresh freshAs configuration correlation n,
    entryPoints fresh⟩

def brokenBlock : Callable Value := .chain 0 "a" ["", "b"] (.text "x")

/-- The state after a build that failed in a nested block, and then one that succeeded. -/
def used : State :=
  let broken := build (callWithin tagCode 3) ⟨0⟩ (.callable brokenBlock) pristine
  (build (callWithin tagCode 3) ⟨0⟩ (.callable smallBlock) broken.2).2

theorem used_history : History pristine used :=
  have builds := history_upheld.build (history_callWithin tagCode_steady 3) ⟨0⟩
  (builds (.callable brokenBlock) pristine).trans (builds (.callable smallBlock) _)

theorem used_builds_as_fresh :
    (build (callWithin tagCode 3) ⟨0⟩ (.callable brokenBlock) pristine).1 = .fault .emptyTag ∧
    (∃ x, used.world.builder? ⟨0⟩ = some x ∧ x.root = some ⟨1⟩) ∧
    ∃ w, newBuilder .none .none used.world = (.value ⟨1⟩, w) ∧
      SameBuild (fun _ => False) (.only (· = .identity 0) rfl) ⟨0⟩ ⟨1⟩
        (build (callWithin tagCode 3) ⟨0⟩ (.callable smallBlock) used)
        (build (callWithin tagCode 3) ⟨1⟩ (.callable smallBlock) { used with world := w }) ∧
      EntryPoints (callWithin tagCode 3) .none .none smallBlock used ⟨1⟩
        (build (callWithin tagCode 3) ⟨1⟩ (.callable smallBlock) { used with world := w }) := by
  have closed : State.Like (fun _ => False) (.only (· = .identity 0) rfl) used used :=
    { world := ⟨fun ⟨h, h'⟩ => by subst h h'; exact .identity (by decide) (by decide),
        fun h => h.elim, Nat.le_refl _, rfl⟩
      binding := fun _ => False.elim
      builder := fun _ => False.elim }
  have plain (a : Atom) (h : ∀ i, a ≠ .nan i) :
      Value.Like (.only (· = .identity 0) rfl) (.atom a) (.atom a) := .atom (Atom.Like.refl h)
  have standard : Configuration.Like (.only (· = .identity 0) rfl) (.settings .standard)
      (.settings .standard) := .settings fun n => by cases n <;> exact plain _ (by simp)
  have made : newBuilder .none .none (State.initial .small).world =
    (.value ⟨0⟩, pristine.world) := rfl
  have madeAs : pristine.world.builder? ⟨0⟩ =
    some (.idle (.settings .standard) .none 1) := rfl
  refine ⟨rfl, ⟨_, rfl, rfl⟩, _, rfl, ?_⟩
  exact history_independent (tagCode_alike _ _ _) made madeAs used_history rfl nofun nofun closed
    standard (plain _ (by simp)) (.chain ⟨rfl, rfl⟩ (plain _ (by simp)))
    (y := .idle (.settings .standard) .none used.world.store.nextId) rfl rfl rfl rfl 3

end TagTree
