import Mathlib.Data.Option.Basic
import TagTree.Proofs.Course
import TagTree.Proofs.Showing

/-!
# Veils

A veil hides settings of one builder, and perhaps its remarks and the journal. Worlds that are
the same but for what a veil hides show, write and settle everything else alike.
-/

namespace TagTree

/-- What is not seen of a builder: settings that no reading of a tree depends on, and its
remarks and the journal unless reports are seen. -/
structure Veil where
  builder : BuilderRef
  hidden : SettingName → Prop
  inner : ∀ n, hidden n → n = .policy ∨ n = .maxDepth ∨ n = .diagnostics
  reports : Prop

/-- Records of a veiled builder that differ in what is hidden at most. -/
structure Builder.Veiled (V : Veil) (x y : Builder) : Prop where
  settings : ∃ c d, x.configuration = .settings c ∧ y.configuration = .settings d ∧
    ∀ n, ¬ V.hidden n → d.get n = c.get n
  correlation : y.correlation = x.correlation
  handleId : y.handleId = x.handleId
  session : y.session = x.session
  root : y.root = x.root
  counters : y.counters = x.counters
  remarks : V.reports → y.remarks = x.remarks

/-- Records of one builder in two worlds, behind a veil. -/
def Builder.Beside (V : Veil) (c : BuilderRef) (x y : Builder) : Prop :=
  if c = V.builder then x.Veiled V y else y = x

/-- Worlds with one store and related builders, some of which there must be, and one journal as
far as this is asked. -/
structure World.Related (R : BuilderRef → Builder → Builder → Prop) (there : BuilderRef → Prop)
    (journals : Prop) (w w' : World) : Prop where
  store : w'.store = w.store
  builders : ∀ c, Option.Rel (R c) (w.builder? c) (w'.builder? c)
  present : ∀ c, there c → (w.builder? c).isSome
  journal : journals → w'.journal = w.journal

abbrev World.Veiled (V : Veil) : World → World → Prop :=
  World.Related (Builder.Beside V) (fun _ => False) V.reports

/-- States with related worlds that are the same otherwise. -/
structure State.Related (W : World → World → Prop) (s t : State) : Prop where
  world : W s.world t.world
  bindings : t.bindings = s.bindings
  builders : t.builders = s.builders
  trace : t.trace = s.trace

abbrev State.Veiled (V : Veil) : State → State → Prop := State.Related (World.Veiled V)

namespace World.Related

variable {R S : BuilderRef → Builder → Builder → Prop} {T U : BuilderRef → Prop} {J K : Prop}
  {w w' : World}

theorem records (h : w.Related R T J w') (c : BuilderRef) :
    (w.builder? c = none ∧ w'.builder? c = none) ∨
      ∃ x y, w.builder? c = some x ∧ w'.builder? c = some y ∧ R c x y := by
  have hr := h.builders c
  generalize w.builder? c = p at hr ⊢
  generalize w'.builder? c = q at hr ⊢
  cases hr with
  | none => exact .inl ⟨rfl, rfl⟩
  | some hxy => exact .inr ⟨_, _, rfl, rfl, hxy⟩

theorem mono (h : w.Related R T J w') (hr : ∀ c x y, R c x y → S c x y) (ht : ∀ c, U c → T c)
    (hj : K → J) : w.Related S U K w' := by
  refine ⟨h.store, fun c => ?_, fun c hc => h.present c (ht c hc), fun hk => h.journal (hj hk)⟩
  rcases h.records c with ⟨hx, hy⟩ | ⟨x, y, hx, hy, hxy⟩
  · rw [hx, hy]
    exact .none
  · rw [hx, hy]
    exact .some (hr c x y hxy)

/-- A builder whose record changes in related ways in both worlds stays related. -/
theorem of_alters {u u' : World} (h : w.Related R T J w') {c : BuilderRef}
    {f g : Builder → Builder} (hu : w.Alters c f u) (hu' : w'.Alters c g u')
    (hfg : ∀ x y, R c x y → R c (f x) (g y)) (store : u'.store = u.store)
    (journal : J → u'.journal = u.journal) : u.Related R T J u' := by
  refine ⟨store, fun d => ?_, fun d hd => ?_, journal⟩
  · rw [hu d, hu' d]
    rcases h.records d with ⟨hx, hy⟩ | ⟨x, y, hx, hy, hxy⟩
    · rw [hx, hy]
      split <;> exact .none
    · rw [hx, hy]
      split
      · subst c
        exact .some (hfg x y hxy)
      · exact .some hxy
  · rw [hu d]
    split
    · rw [Option.isSome_map]
      exact h.present d hd
    · exact h.present d hd

theorem updateBuilder (h : w.Related R T J w') {c : BuilderRef} {f g : Builder → Builder}
    (hfg : ∀ x y, R c x y → R c (f x) (g y)) :
    (w.updateBuilder c f).Related R T J (w'.updateBuilder c g) :=
  h.of_alters (.updateBuilder w c f) (.updateBuilder w' c g) hfg h.store h.journal

theorem withStore (h : w.Related R T J w') (s : Store) :
    Related R T J { w with store := s } { w' with store := s } :=
  ⟨rfl, h.builders, h.present, h.journal⟩

/-- A change of an element ends alike in related worlds. -/
theorem changeElement (h : w.Related R T J w') (e : ElementRef)
    (f : Element → Except Fault Element) :
    (w'.changeElement e f).1 = (w.changeElement e f).1 ∧
      (w.changeElement e f).2.Related R T J (w'.changeElement e f).2 := by
  unfold World.changeElement
  rw [h.store]
  cases w.store.element? e with
  | none => exact ⟨rfl, h⟩
  | some x =>
    simp only
    cases f x with
    | error _ => exact ⟨rfl, h⟩
    | ok y => exact ⟨rfl, h.withStore _⟩

end World.Related

/-! ### What the records share -/

namespace Builder.Beside

variable {V : Veil} {c : BuilderRef} {x y : Builder}

theorem of_self (h : x.Veiled V y) : Beside V V.builder x y := by
  rw [Beside, if_pos rfl]
  exact h

theorem of_other (hc : c ≠ V.builder) (x : Builder) : Beside V c x x := by
  rw [Beside, if_neg hc]

theorem cases (h : Beside V c x y) : (c = V.builder ∧ x.Veiled V y) ∨ y = x := by
  by_cases hc : c = V.builder
  · rw [Beside, if_pos hc] at h
    exact .inl ⟨hc, h⟩
  · rw [Beside, if_neg hc] at h
    exact .inr h

theorem correlation (h : Beside V c x y) : y.correlation = x.correlation := by
  rcases h.cases with ⟨-, h⟩ | rfl
  · exact h.correlation
  · rfl

theorem handleId (h : Beside V c x y) : y.handleId = x.handleId := by
  rcases h.cases with ⟨-, h⟩ | rfl
  · exact h.handleId
  · rfl

theorem session (h : Beside V c x y) : y.session = x.session := by
  rcases h.cases with ⟨-, h⟩ | rfl
  · exact h.session
  · rfl

theorem root (h : Beside V c x y) : y.root = x.root := by
  rcases h.cases with ⟨-, h⟩ | rfl
  · exact h.root
  · rfl

theorem counters (h : Beside V c x y) : y.counters = x.counters := by
  rcases h.cases with ⟨-, h⟩ | rfl
  · exact h.counters
  · rfl

theorem isBuilding (h : Beside V c x y) : y.isBuilding = x.isBuilding := by
  rw [Builder.isBuilding, Builder.isBuilding, h.session]

theorem face (h : Beside V c x y) : y.face = x.face := by
  rw [Builder.face, Builder.face, h.root, h.isBuilding]

end Builder.Beside

namespace World.Veiled

variable {V : Veil} {w w' : World}

/-! ### Reading behind a veil -/

theorem face (h : w.Veiled V w') (c : BuilderRef) :
    (w'.builder? c).map Builder.face = (w.builder? c).map Builder.face := by
  rcases h.records c with ⟨hx, hy⟩ | ⟨x, y, hx, hy, hxy⟩
  · rw [hx, hy]
  · rw [hx, hy, Option.map_some, Option.map_some, hxy.face]

theorem shows (h : w.Veiled V w') : w.Shows w' := ⟨h.store, h.face⟩

theorem session? (h : w.Veiled V w') (c : BuilderRef) : w'.session? c = w.session? c := by
  unfold World.session?
  rcases h.records c with ⟨hx, hy⟩ | ⟨x, y, hx, hy, hxy⟩
  · rw [hx, hy]
  · rw [hx, hy, Option.bind_some, Option.bind_some, hxy.session]

theorem size (h : w.Veiled V w') : w'.builders.size = w.builders.size := by
  have hsame (i : Nat) : i < w.builders.size ↔ i < w'.builders.size := by
    have hnone (u : World) : u.builder? ⟨i⟩ = none ↔ u.builders.size ≤ i := by
      simp [World.builder?]
    rcases h.records ⟨i⟩ with ⟨hx, hy⟩ | ⟨x, y, hx, hy, -⟩
    · have hle := (hnone w).mp hx
      have hle' := (hnone w').mp hy
      omega
    · have hlt : ¬ w.builders.size ≤ i := by rw [← hnone w, hx]; simp
      have hlt' : ¬ w'.builders.size ≤ i := by rw [← hnone w', hy]; simp
      omega
  have hle := hsame w.builders.size
  have hge := hsame w'.builders.size
  omega

theorem correlationOf (h : w.Veiled V w') (c : BuilderRef) :
    w'.correlationOf c = w.correlationOf c := by
  unfold World.correlationOf
  rcases h.records c with ⟨hx, hy⟩ | ⟨x, y, hx, hy, hxy⟩
  · simp only [hx, hy, Option.map_none]
  · rw [hx, hy, Option.map_some, Option.map_some, hxy.correlation]
    exact h.shows.read x.correlation

theorem handle (h : w.Veiled V w') (c : BuilderRef) : w'.handle c = w.handle c := by
  unfold World.handle
  rcases h.records c with ⟨hx, hy⟩ | ⟨x, y, hx, hy, hxy⟩
  · rw [hx, hy]
  · rw [hx, hy, Option.map_some, Option.map_some, hxy.handleId]

theorem seen {n : SettingName} (hn : n = .indentWidth ∨ n = .unreserve ∨ n = .correlation) :
    ¬ V.hidden n := by
  intro hv
  rcases V.inner n hv with rfl | rfl | rfl <;> simp at hn

/-! ### Names and settings behind a veil -/

theorem unreservesWithin (h : w.Veiled V w') (n : Nat) (c : Configuration) :
    w'.unreservesWithin n c = w.unreservesWithin n c := by
  induction n generalizing c with
  | zero => cases c <;> simp only [World.unreservesWithin, World.truthy, h.store]
  | succ n ih =>
    cases c with
    | settings s => simp only [World.unreservesWithin, World.truthy, h.store]
    | other v =>
      cases v with
      | handle g =>
        unfold World.unreservesWithin
        rcases h.records g.builder with ⟨hx, hy⟩ | ⟨x, y, hx, hy, hxy⟩
        · rw [hx, hy]
        · rw [hx, hy]
          rcases hxy.cases with ⟨-, hv⟩ | rfl
          · obtain ⟨c, d, hc, hd, -⟩ := hv.settings
            cases n <;> simp only [hc, hd, World.unreservesWithin, Except.map]
          · simp only [ih]
      | _ => rfl

theorem unreserves (h : w.Veiled V w') (c : Configuration) :
    w'.unreserves c = w.unreserves c := by
  unfold World.unreserves
  rw [h.size, h.unreservesWithin]

/-- Whether names lose their underscore is the same for records of one builder. -/
theorem unreserves_record (h : w.Veiled V w') {c : BuilderRef} {x y : Builder}
    (hxy : Builder.Beside V c x y) :
    w'.unreserves y.configuration = w.unreserves x.configuration := by
  rcases hxy.cases with ⟨-, hv⟩ | rfl
  · obtain ⟨c, d, hc, hd, same⟩ := hv.settings
    have hu : d.unreserve = c.unreserve := same .unreserve (seen (by simp))
    rw [hc, hd, World.unreserves_settings, World.unreserves_settings, h.shows.truthy, hu]
  · exact h.unreserves y.configuration

theorem resolveName_record (h : w.Veiled V w') {c : BuilderRef} {x y : Builder}
    (hxy : Builder.Beside V c x y) (name : String) :
    w'.resolveName y.configuration name = w.resolveName x.configuration name := by
  unfold World.resolveName
  rw [h.unreserves_record hxy]

theorem lookupTag (h : w.Veiled V w') (c : BuilderRef) (name : String) :
    w'.lookupTag c name = w.lookupTag c name := by
  unfold World.lookupTag
  rcases h.records c with ⟨hx, hy⟩ | ⟨x, y, hx, hy, hxy⟩
  · rw [hx, hy]
  · rw [hx, hy]
    simp only [h.resolveName_record hxy]

theorem settingOf (h : w.Veiled V w') (c : Configuration) (n : SettingName) :
    w'.settingOf c n = w.settingOf c n := by
  cases c with
  | settings s => rfl
  | other v =>
    cases v with
    | handle g => simp only [World.settingOf, h.lookupTag]
    | builder b =>
      rcases h.records b with ⟨hx, hy⟩ | ⟨x, y, hx, hy, hxy⟩
      · simp only [World.settingOf, hx, hy]
      · cases n <;> simp only [World.settingOf, hx, hy, hxy.correlation]
    | _ => rfl

/-- A setting that is not hidden is the same for records of one builder. -/
theorem settingOf_record (h : w.Veiled V w') {c : BuilderRef} {x y : Builder}
    (hxy : Builder.Beside V c x y) {n : SettingName} (hn : c = V.builder → ¬ V.hidden n) :
    w'.settingOf y.configuration n = w.settingOf x.configuration n := by
  rcases hxy.cases with ⟨hc, hv⟩ | rfl
  · obtain ⟨s, t, hs, ht, same⟩ := hv.settings
    rw [hs, ht, World.settingOf_settings, World.settingOf_settings, same n (hn hc)]
  · exact h.settingOf y.configuration n

theorem resolveNamed_record (h : w.Veiled V w') {c : BuilderRef} {x y : Builder}
    (hxy : Builder.Beside V c x y) (named : List (String × Value)) :
    w'.resolveNamed y.configuration named = w.resolveNamed x.configuration named := by
  unfold World.resolveNamed
  simp only [h.resolveName_record hxy]

/-! ### Writing behind a veil -/

theorem plainText (h : w.Veiled V w') (v : Value) : w'.plainText v = w.plainText v := by
  cases v with
  | atom a => rfl
  | _ => exact congrArg Except.ok (h.shows.shown _)

theorem renderWith (h : w.Veiled V w') (write : Value → Outcome String) (e : ElementRef)
    (width : Value) (depth : Int) :
    w'.renderWith write e width depth = w.renderWith write e width depth := by
  unfold World.renderWith World.indentable
  rw [h.store]

theorem renderBuilderWith (h : w.Veiled V w') (write : Value → Outcome String)
    (b : BuilderRef) : w'.renderBuilderWith write b = w.renderBuilderWith write b := by
  unfold World.renderBuilderWith
  rcases h.records b with ⟨hx, hy⟩ | ⟨x, y, hx, hy, hxy⟩
  · rw [hx, hy]
  · rw [hx, hy]
    simp only [hxy.root, h.renderWith, h.settingOf_record hxy fun _ => seen (.inl rfl)]

theorem writeWithin (h : w.Veiled V w') (n : Nat) (v : Value) :
    w'.writeWithin n v = w.writeWithin n v := by
  induction n generalizing v with
  | zero => rfl
  | succ n ih =>
    have hsame : w'.writeWithin n = w.writeWithin n := funext ih
    unfold World.writeWithin
    cases v with
    | element e => simp only [hsame, h.renderWith]
    | builder b => simp only [hsame, h.renderBuilderWith]
    | _ => exact congrArg Outcome.ofExcept (h.plainText _)

theorem write (h : w.Veiled V w') (v : Value) : w'.write v = w.write v := by
  unfold World.write
  rw [h.store, h.writeWithin]

/-! ### Admission behind a veil -/

theorem admitBuild (h : w.Veiled V w') (c : BuilderRef) (block : Value) :
    w'.admitBuild c block = w.admitBuild c block := by
  unfold World.admitBuild
  rcases h.records c with ⟨hx, hy⟩ | ⟨x, y, hx, hy, hxy⟩
  · rw [hx, hy]
  · rw [hx, hy]
    simp only [hxy.isBuilding]

theorem checkLimit (h : w.Veiled V w') (name limit : Value) (depth : Nat) (hasBlock : Bool) :
    w'.checkLimit name limit depth hasBlock = w.checkLimit name limit depth hasBlock := by
  unfold World.checkLimit World.limitText
  simp only [h.write]

/-- Tag calls are admitted alike if the limit on nesting is not hidden. -/
theorem admitCall (h : w.Veiled V w') {c : BuilderRef}
    (hn : c = V.builder → ¬ V.hidden .maxDepth) (name : Value) (args : List Value)
    (named : List (String × Value)) :
    w'.admitCall c name args named = w.admitCall c name args named := by
  unfold World.admitCall World.admitInSession
  rcases h.records c with ⟨hx, hy⟩ | ⟨x, y, hx, hy, hxy⟩
  · rw [hx, hy]
  · rw [hx, hy]
    simp only [hxy.session, h.write, h.resolveNamed_record hxy, h.settingOf_record hxy hn,
      h.checkLimit, h.store]

end World.Veiled

end TagTree
