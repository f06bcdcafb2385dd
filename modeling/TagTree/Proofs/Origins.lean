import TagTree.Proofs.Respecting
import TagTree.Proofs.Spares

/-!
# Builders over time

Calls, blocks, builds, content attached by hand and what steady code does by itself may follow
one another in any order, and end in any way. A builder stays what it was constructed as: its
configuration, its correlation and its handle are the same in every later state.
-/

namespace TagTree

/-! ### Records of one builder -/

/-- A record of the same builder at a later time. -/
structure Builder.Later (x y : Builder) : Prop where
  configuration : y.configuration = x.configuration
  correlation : y.correlation = x.correlation
  handleId : y.handleId = x.handleId

namespace Builder.Later

variable {x y z : Builder}

theorem refl (x : Builder) : x.Later x := ⟨rfl, rfl, rfl⟩

theorem trans (h : x.Later y) (h' : y.Later z) : x.Later z :=
  ⟨h'.configuration.trans h.configuration, h'.correlation.trans h.correlation,
    h'.handleId.trans h.handleId⟩

theorem annotated (x : Builder) (remarks : List Remark) (scalars : Nat) :
    x.Later (x.annotated remarks scalars) := ⟨rfl, rfl, rfl⟩

theorem start (x : Builder) : x.Later x.start := ⟨rfl, rfl, rfl⟩

theorem finish (x : Builder) (root : Option ElementRef) : x.Later (x.finish root) :=
  ⟨rfl, rfl, rfl⟩

theorem logElement (x : Builder) (e : ElementRef) : x.Later (x.logElement e) := by
  unfold Builder.logElement
  cases x.session with
  | none => exact refl x
  | some s => exact ⟨rfl, rfl, rfl⟩

theorem enterBlock (x : Builder) : x.Later x.enterBlock := by
  unfold Builder.enterBlock
  cases x.session with
  | none => exact refl x
  | some s => exact ⟨rfl, rfl, rfl⟩

theorem leaveBlock (x : Builder) : x.Later x.leaveBlock := by
  unfold Builder.leaveBlock
  cases x.session with
  | none => exact refl x
  | some s => exact ⟨rfl, rfl, rfl⟩

end Builder.Later

/-! ### What a history passes on -/

/-- Every object is still there, and every builder is what it was constructed as. -/
structure World.Passes (w v : World) : Prop where
  grows : ∀ o : Object, o.In w → o.In v
  builder : ∀ b x, w.builder? b = some x → ∃ y, v.builder? b = some y ∧ x.Later y

namespace World

variable {u v w : World} {b : BuilderRef}

theorem Passes.refl (w : World) : w.Passes w := ⟨fun _ h => h, fun _ x hx => ⟨x, hx, .refl x⟩⟩

theorem Passes.trans (h : u.Passes v) (h' : v.Passes w) : u.Passes w where
  grows o ho := h'.grows o (h.grows o ho)
  builder b x hx := by
    obtain ⟨y, hy, hxy⟩ := h.builder b x hx
    obtain ⟨z, hz, hyz⟩ := h'.builder b y hy
    exact ⟨z, hz, hxy.trans hyz⟩

theorem Leaves.passes (h : w.Leaves v) : w.Passes v :=
  ⟨h.grows, fun b x hx => ⟨x, h.builder b x hx, .refl x⟩⟩

theorem Alters.passes {f : Builder → Builder} (h : w.Alters b f v)
    (later : ∀ x : Builder, x.Later (f x)) (grows : ∀ o : Object, o.In w → o.In v) :
    w.Passes v where
  grows := grows
  builder c x hx := by
    rw [h c, hx]
    by_cases hb : b = c
    · exact ⟨f x, by rw [if_pos hb]; rfl, later x⟩
    · exact ⟨x, by rw [if_neg hb], .refl x⟩

end World

/-! ### Histories -/

/-- A step of a history. A step need not be one that a call or a build makes there. -/
inductive Happening : State → State → Prop
  | acted {s t : State} (leaves : s.world.Leaves t.world) : Happening s t
  | attached (s : State) (e : ElementRef) (change : Element → Except Fault Element) :
      Happening s (Program.attachContent e change s).2
  | created (s : State) (b : BuilderRef) (c : TagCall) : Happening s (createElement b c s)
  | entered (s : State) (b : BuilderRef) : Happening s (enterBlock b s)
  | left (s : State) (b : BuilderRef) (e : ElementRef) (start : Nat) (ending : Outcome Value) :
      Happening s (endBlock b e start ending s).2
  | began (s : State) (b : BuilderRef) : Happening s (s.onWorld (·.startBuild b))
  | ended (s : State) (b : BuilderRef) (ending : Outcome Value) :
      Happening s (endBuild b ending s).2

abbrev History : State → State → Prop := Relation.ReflTransGen Happening

section Histories

variable {s t : State} {b : BuilderRef}

/-- Nothing reserved: what is left of sparing it is that no object is gone. -/
theorem State.Spares.grows (h : s.Spares ⟨fun _ => False, fun _ => False⟩ t) :
    ∀ o : Object, o.In s.world → o.In t.world := h.world.grows

theorem endBuild_passes (s : State) (b : BuilderRef) (ending : Outcome Value) :
    s.world.Passes (endBuild b ending s).2.world := by
  cases hs : s.world.session? b with
  | some session =>
    obtain ⟨rs, alters⟩ := endBuild_alters hs ending
    exact alters.passes (fun x => (Builder.Later.annotated x rs 0).trans (.finish _ _))
      (endBuild_spares s id ending).grows
  | none =>
    -- without a session only the ending of a block that returned is told apart
    cases ending with
    | value v =>
      have unchanged : (endBuild b (.value v) s).2.world = s.world := by
        simp only [endBuild, World.concludeBuild, hs]
      rw [unchanged]
      exact .refl s.world
    | fault f =>
      exact (World.failBuild_alters s.world b f).passes (fun x => .finish x none)
        (endBuild_spares s id (.fault f)).grows
    | exhausted =>
      exact (World.Alters.updateBuilder s.world b _).passes (fun x => .finish x none)
        (endBuild_spares s id .exhausted).grows

theorem Happening.passes (h : Happening s t) : s.world.Passes t.world := by
  cases h with
  | acted leaves => exact leaves.passes
  | attached e change =>
    have untouched := World.changeElement_builders s.world e change
    exact (World.Alters.of_builders s.world ⟨0⟩ untouched).passes .refl
      (attachContent_spares s id change).grows
  | created b c =>
    exact (World.create_alters s.world b c).passes (fun x => .logElement x _)
      (createElement_spares (fun _ => False.elim) id c).grows
  | entered b =>
    exact (World.Alters.updateBuilder s.world b _).passes .enterBlock
      (enterBlock_spares s id).grows
  | left b e start ending =>
    obtain ⟨rs, n, alters⟩ := endBlock_alters b e start ending s
    exact alters.passes (fun x => (Builder.Later.annotated x rs n).trans (.leaveBlock _))
      (endBlock_spares s id id start ending).grows
  | began b =>
    exact (World.startBuild_alters s.world b).passes .start (startBuild_spares s id).grows
  | ended b ending => exact endBuild_passes s b ending

theorem History.passes (h : History s t) : s.world.Passes t.world := by
  induction h with
  | refl => exact .refl s.world
  | tail _ step ih => exact ih.trans step.passes

end Histories

/-! ### Runs are histories -/

section Runs

theorem history_around (b : BuilderRef) : b.Respects History where
  created c s := .single (.created s b c)
  entered s := .single (.entered s b)
  left e start x s := .single (.left s b e start x)
  began s := .single (.began s b)
  ended x s := .single (.ended s b x)

theorem history_upheld : Upheld History where
  attach e change s := .single (.attached s e change)
  tag called b := respects_tagCall (history_around b) called
  build called b := respects_build (history_around b) called

theorem history_callWithin {code : Code} (steady : code.Steady) (n : Nat) :
    (callWithin code n).Respects History :=
  respects_callWithin history_upheld (steady.deeds.mono fun _ _ leaves => .single (.acted leaves)) n

end Runs

end TagTree
