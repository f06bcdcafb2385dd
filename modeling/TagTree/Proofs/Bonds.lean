import TagTree.Proofs.Adequacy
import TagTree.Proofs.Veils

/-!
# Bonds

A bond says how two runs of a veiled builder differ: by its settings, by the remarks of the
second run that the first one lacks, and perhaps by the journal. What tag calls and builds do
keeps worlds bonded.
-/

namespace TagTree

/-- How two runs of a veiled builder differ. -/
structure Bond (V : Veil) where
  left : Settings Value
  right : Settings Value
  keeps : Remark → Bool
  journals : Prop
  same : ∀ n, ¬ V.hidden n → right.get n = left.get n
  orphans : ∀ w root tags, left.due w (.orphans root tags) =
    (right.due w (.orphans root tags)).filter keeps
  reports : V.reports → journals ∧ ∀ r, keeps r = true

/-- Both runs deal with discarded values alike, up to the remarks that the first one lacks. -/
structure Bond.Even {V : Veil} (B : Bond V) : Prop where
  strict : B.left.policy = .strict ↔ B.right.policy = .strict
  discards : ∀ w tag shown, B.left.dueDiscard w (.discardedValue tag shown) =
    (B.right.dueDiscard w (.discardedValue tag shown)).filter B.keeps
  noted : B.journals → (B.left.policy = .diagnostic ↔ B.right.policy = .diagnostic)

/-- How the veiled builder's blocks may be settled: if the runs are not even, the first one,
which forbids discarded values, finds none. -/
def Bond.Fair {V : Veil} (B : Bond V) (settled : Outcome Unit) : Prop :=
  B.Even ∨ B.left.policy = .strict ∧ ∀ tag v shown, settled ≠ .fault (.ambiguousBlock tag v shown)

variable {V : Veil} {B : Bond V}

/-- The records of the veiled builder in the two runs. -/
structure Builder.Twins (B : Bond V) (x y : Builder) : Prop where
  left : x.configuration = .settings B.left
  right : y.configuration = .settings B.right
  correlation : y.correlation = x.correlation
  handleId : y.handleId = x.handleId
  session : y.session = x.session
  root : y.root = x.root
  counters : y.counters = x.counters
  remarks : x.remarks = y.remarks.filter B.keeps

def Builder.Bonded (B : Bond V) (c : BuilderRef) (x y : Builder) : Prop :=
  if c = V.builder then x.Twins B y else y = x

abbrev World.Bonded (B : Bond V) : World → World → Prop :=
  World.Related (Builder.Bonded B) (· = V.builder) B.journals

abbrev State.Bonded (B : Bond V) : State → State → Prop := State.Related (World.Bonded B)

/-! ### Records -/

namespace Builder

variable {c : BuilderRef} {x y : Builder}

theorem Bonded.cases (h : Bonded B c x y) :
    (c = V.builder ∧ x.Twins B y) ∨ (c ≠ V.builder ∧ y = x) := by
  by_cases hc : c = V.builder
  · rw [Bonded, if_pos hc] at h
    exact .inl ⟨hc, h⟩
  · rw [Bonded, if_neg hc] at h
    exact .inr ⟨hc, h⟩

theorem Twins.veiled (h : x.Twins B y) : x.Veiled V y where
  settings := ⟨B.left, B.right, h.left, h.right, B.same⟩
  correlation := h.correlation
  handleId := h.handleId
  session := h.session
  root := h.root
  counters := h.counters
  remarks hr := by
    rw [h.remarks, List.filter_eq_self.mpr fun r _ => (B.reports hr).2 r]

theorem Bonded.beside (h : Bonded B c x y) : Beside V c x y := by
  rcases h.cases with ⟨rfl, twins⟩ | ⟨hc, rfl⟩
  · exact .of_self twins.veiled
  · exact .of_other hc y

/-- A change that preserves twins keeps the records of every builder bonded. -/
theorem Bonded.map {f : Builder → Builder} (hf : ∀ x y, x.Twins B y → (f x).Twins B (f y))
    (h : Bonded B c x y) : Bonded B c (f x) (f y) := by
  rcases h.cases with ⟨rfl, twins⟩ | ⟨hc, rfl⟩
  · rw [Bonded, if_pos rfl]
    exact hf x y twins
  · rw [Bonded, if_neg hc]

theorem Twins.start (h : x.Twins B y) : x.start.Twins B y.start :=
  ⟨h.left, h.right, h.correlation, h.handleId, rfl, rfl, rfl, rfl⟩

theorem Twins.finish (root : Option ElementRef) (h : x.Twins B y) :
    (x.finish root).Twins B (y.finish root) :=
  ⟨h.left, h.right, h.correlation, h.handleId, rfl, rfl, h.counters, h.remarks⟩

theorem Twins.countScalar (h : x.Twins B y) : x.countScalar.Twins B y.countScalar :=
  ⟨h.left, h.right, h.correlation, h.handleId, h.session, h.root,
    congrArg Counters.scalarBlock h.counters, h.remarks⟩

theorem Twins.logElement (e : ElementRef) (h : x.Twins B y) :
    (x.logElement e).Twins B (y.logElement e) := by
  unfold Builder.logElement
  rw [h.session]
  cases x.session with
  | none => exact h
  | some s =>
    exact ⟨h.left, h.right, h.correlation, h.handleId, rfl, h.root,
      congrArg Counters.elementCreated h.counters, h.remarks⟩

theorem Twins.enterBlock (h : x.Twins B y) : x.enterBlock.Twins B y.enterBlock := by
  unfold Builder.enterBlock
  rw [h.session]
  cases x.session with
  | none => exact h
  | some s =>
    exact ⟨h.left, h.right, h.correlation, h.handleId, rfl, h.root,
      congrArg (Counters.blockEntered · (s.depth + 1)) h.counters, h.remarks⟩

theorem Twins.leaveBlock (h : x.Twins B y) : x.leaveBlock.Twins B y.leaveBlock := by
  unfold Builder.leaveBlock
  rw [h.session]
  cases x.session with
  | none => exact h
  | some s =>
    exact ⟨h.left, h.right, h.correlation, h.handleId, rfl, h.root, h.counters, h.remarks⟩

theorem Twins.annotated {rs ts : List Remark} (n : Nat) (hrs : rs = ts.filter B.keeps)
    (h : x.Twins B y) : (Builder.annotated rs n x).Twins B (Builder.annotated ts n y) where
  left := h.left
  right := h.right
  correlation := h.correlation
  handleId := h.handleId
  session := h.session
  root := h.root
  counters := by simp only [Builder.annotated, h.counters]
  remarks := by
    simp only [Builder.annotated]
    rw [List.filter_append, ← h.remarks, hrs]

theorem Bonded.annotated {rs ts : List Remark} (n : Nat) (hrs : rs = ts.filter B.keeps)
    (h : Bonded B V.builder x y) :
    Bonded B V.builder (Builder.annotated rs n x) (Builder.annotated ts n y) := by
  rw [Bonded, if_pos rfl] at h ⊢
  exact h.annotated n hrs

end Builder

namespace World.Bonded

variable {w w' : World} {c : BuilderRef}

theorem veiled (h : w.Bonded B w') : w.Veiled V w' :=
  h.mono (fun _ _ _ => Builder.Bonded.beside) (fun _ => False.elim) fun hr => (B.reports hr).1

theorem self (h : w.Bonded B w') : ∃ x y, w.builder? V.builder = some x ∧
    w'.builder? V.builder = some y ∧ x.Twins B y := by
  rcases h.records V.builder with ⟨hx, -⟩ | ⟨x, y, hx, hy, hxy⟩
  · have present := h.present V.builder rfl
    rw [hx] at present
    cases present
  · rw [Builder.Bonded, if_pos rfl] at hxy
    exact ⟨x, y, hx, hy, hxy⟩

theorem update (h : w.Bonded B w') (c : BuilderRef) {f : Builder → Builder}
    (hf : ∀ x y, x.Twins B y → (f x).Twins B (f y)) :
    (w.updateBuilder c f).Bonded B (w'.updateBuilder c f) :=
  h.updateBuilder fun _ _ => Builder.Bonded.map hf

theorem notice (h : w.Bonded B w') (c : BuilderRef) (n : Notice) :
    (w.notice c n).Bonded B (w'.notice c n) := by
  refine ⟨h.store, h.builders, h.present, fun hj => ?_⟩
  rw [journal_notice, journal_notice, h.journal hj, h.veiled.correlationOf]

/-- Tag calls of the veiled builder are admitted alike if the limits of both runs are. -/
theorem admitCall_self (h : w.Bonded B w') (name : Value) (args : List Value)
    (named : List (String × Value))
    (limits : ∀ shape session, Shape.ofArguments args = .ok shape →
      w.session? V.builder = some session →
      w.checkLimit name B.right.maxDepth session.depth shape.block.isSome =
        w.checkLimit name B.left.maxDepth session.depth shape.block.isSome) :
    w'.admitCall V.builder name args named = w.admitCall V.builder name args named := by
  obtain ⟨x, y, hx, hy, twins⟩ := h.self
  have hnamed := h.veiled.resolveNamed_record (Builder.Beside.of_self twins.veiled) named
  rw [twins.left, twins.right] at hnamed
  unfold World.admitCall World.admitInSession
  simp only [hx, hy, twins.session, h.veiled.write, hnamed, twins.left, twins.right,
    settingOf_settings, Settings.get, Outcome.ofExcept_ok, Outcome.value_bind, h.veiled.checkLimit,
    h.store]
  cases hs : x.session with
  | none => rfl
  | some session =>
    have hsession : w.session? V.builder = some session := by
      rw [World.session?, hx, Option.bind_some, hs]
    cases arguments : Shape.ofArguments args with
    | error p => rfl
    | ok shape =>
      simp only [limits shape session arguments hsession]

/-! ### Creation and blocks -/

theorem create (h : w.Bonded B w') (c : BuilderRef) (call : TagCall) :
    (w'.create c call).1 = (w.create c call).1 ∧
      (w.create c call).2.Bonded B (w'.create c call).2 := by
  refine ⟨by rw [create_ref, create_ref, h.store], ?_⟩
  unfold World.create
  simp only [h.store, h.veiled.session? c]
  have stored := h.withStore { w.store with elements := w.store.elements.push call.element }
  have logged := World.Bonded.update stored c
    fun _ _ => Builder.Twins.logElement ⟨w.store.elements.size⟩
  exact World.Bonded.notice logged c _

theorem startBuild (h : w.Bonded B w') (c : BuilderRef) :
    (w.startBuild c).Bonded B (w'.startBuild c) :=
  (h.update c fun _ _ => Builder.Twins.start).notice c .started

theorem fill (h : w.Bonded B w') (c : BuilderRef) (e : ElementRef) (start : Nat) (v : Value) :
    (w'.fill c e start v).1 = (w.fill c e start v).1 ∧
      (w.fill c e start v).2.Bonded B (w'.fill c e start v).2 := by
  have hlogged : w'.loggedSince c start = w.loggedSince c start := by
    rw [World.loggedSince, World.loggedSince, h.veiled.session?]
  unfold World.fill World.giveChildren
  simp only [hlogged, h.veiled.session? c, h.store]
  split
  · exact (h.withStore { w.store with nextId := w.store.nextId + 1 }).changeElement e _
  · split
    · exact h.changeElement e _
    · exact ⟨rfl, h⟩

/-! ### Remarks -/

theorem due_congr (h : w.Shows w') (s : Settings Value) (r : Remark) :
    s.due w' r = s.due w r := by
  rw [Settings.due, Settings.due, h.truthy]

theorem dueDiscard_congr (h : w.Shows w') (s : Settings Value) (r : Remark) :
    s.dueDiscard w' r = s.dueDiscard w r := by
  rw [Settings.dueDiscard, Settings.dueDiscard, due_congr h]

theorem remark (h : w.Bonded B w') (c : BuilderRef) {r : Remark}
    (due : c = V.builder → B.left.due w r = (B.right.due w r).filter B.keeps) :
    (w.remark c r).Bonded B (w'.remark c r) := by
  rcases h.records c with ⟨hx, hy⟩ | ⟨x, y, hx, hy, hxy⟩
  · unfold World.remark
    rw [hx, hy]
    exact h
  · rcases hxy.cases with ⟨rfl, twins⟩ | ⟨hc, rfl⟩
    · have hleft := remark_alters_due hx twins.left r
      have hright := remark_alters_due hy twins.right r
      rw [due_congr h.veiled.shows, hxy.beside.isBuilding] at hright
      refine h.of_alters hleft hright (fun x' y' => .annotated 0 ?_) ?_ fun hj => ?_
      · cases x.isBuilding with
        | true => exact due rfl
        | false => rfl
      · rw [remark_store, remark_store, h.store]
      · rw [remark_journal, remark_journal, h.journal hj]
    · have hwants : w'.wantsRemarks y = w.wantsRemarks y := by
        simp only [wantsRemarks, h.veiled.settingOf, h.veiled.shows.truthy]
      unfold World.remark
      rw [hx, hy]
      simp only [hwants]
      split
      · refine h.updateBuilder fun x' y' hxy' => ?_
        rw [Builder.Bonded, if_neg hc] at hxy' ⊢
        rw [hxy']
      · exact h

/-- Values that another builder discards are reported alike. -/
theorem reportAmbiguous_other (h : w.Bonded B w') (hc : c ≠ V.builder) (e : ElementRef)
    (v : Value) : (w'.reportAmbiguous c e v).1 = (w.reportAmbiguous c e v).1 ∧
      (w.reportAmbiguous c e v).2.Bonded B (w'.reportAmbiguous c e v).2 := by
  have policy : w'.policyOf c = w.policyOf c := by
    rcases h.records c with ⟨hx, hy⟩ | ⟨x, y, hx, hy, hxy⟩
    · simp only [policyOf, hx, hy]
    · rcases hxy.cases with ⟨rfl, -⟩ | ⟨-, rfl⟩
      · exact absurd rfl hc
      · simp only [policyOf, hx, hy, h.veiled.settingOf]
  unfold World.reportAmbiguous
  simp only [policy, h.veiled.shows.tagOf, h.veiled.shows.shown]
  cases w.policyOf c with
  | error f => exact ⟨rfl, h⟩
  | ok p =>
    cases p with
    | strict => exact ⟨rfl, h⟩
    | silent => exact ⟨rfl, h⟩
    | diagnostic =>
      exact ⟨rfl, World.Bonded.remark (h.notice c _) c fun hc' => absurd hc' hc⟩

/-- Values that the veiled builder discards are reported alike, up to the bond, if the runs are
even. -/
theorem reportAmbiguous_self (h : w.Bonded B w') (even : B.Even) (e : ElementRef) (v : Value) :
    (w'.reportAmbiguous V.builder e v).1 = (w.reportAmbiguous V.builder e v).1 ∧
      (w.reportAmbiguous V.builder e v).2.Bonded B (w'.reportAmbiguous V.builder e v).2 := by
  have htag := h.veiled.shows.tagOf e
  have hshown := h.veiled.shows.shown v
  obtain ⟨x, y, hx, hy, twins⟩ := h.self
  have hbuilding : y.isBuilding = x.isBuilding := by
    rw [Builder.isBuilding, Builder.isBuilding, twins.session]
  have hleft := reportAmbiguous_alters_due hx twins.left e v
  have hright := reportAmbiguous_alters_due hy twins.right e v
  rw [htag, hshown, dueDiscard_congr h.veiled.shows, hbuilding] at hright
  refine ⟨?_, h.of_alters hleft hright (fun x' y' => .annotated 0 ?_) ?_ fun hj => ?_⟩
  · rw [reportAmbiguous_outcome hx twins.left, reportAmbiguous_outcome hy twins.right, htag,
      hshown]
    simp only [even.strict]
  · cases x.isBuilding with
    | true => exact even.discards w _ _
    | false => rfl
  · rw [reportAmbiguous_store, reportAmbiguous_store, h.store]
  · rw [reportAmbiguous_journal hx twins.left, reportAmbiguous_journal hy twins.right, htag]
    simp only [even.noted hj, (h.notice V.builder _).journal hj, h.journal hj]

/-! ### Settling -/

/-- A block is settled alike, up to the bond. -/
theorem settle (h : w.Bonded B w') (c : BuilderRef) (e : ElementRef) (start : Nat) (v : Value)
    (fair : c = V.builder → B.Fair (w.settle c e start v).1) :
    (w'.settle c e start v).1 = (w.settle c e start v).1 ∧
      (w.settle c e start v).2.Bonded B (w'.settle c e start v).2 := by
  have hlogged : w'.loggedSince c start = w.loggedSince c start := by
    rw [World.loggedSince, World.loggedSince, h.veiled.session?]
  have hsame : w'.isLogged (w.loggedSince c start) v = w.isLogged (w.loggedSince c start) v :=
    isLogged_congr (by rw [h.store]) _ _
  obtain ⟨hfst, hsnd⟩ := h.fill c e start v
  rw [settle_eq] at fair
  rw [settle_eq, settle_eq]
  rcases hl : w.fill c e start v with ⟨x, u⟩
  rcases hr : w'.fill c e start v with ⟨x', u'⟩
  rw [hl, hr] at hfst hsnd
  simp only at hfst hsnd
  subst hfst
  rw [hl] at fair
  cases x' with
  | fault f => exact ⟨rfl, hsnd⟩
  | exhausted => exact ⟨rfl, hsnd⟩
  | value _ =>
    simp only [judge, hlogged, hsame] at fair ⊢
    split
    · exact ⟨rfl, hsnd⟩
    · split
      · exact ⟨rfl, hsnd.update c fun _ _ => Builder.Twins.countScalar⟩
      · split
        · exact ⟨rfl, hsnd⟩
        · rename_i given entries foreign
          rw [if_neg given, if_neg entries, if_neg foreign] at fair
          by_cases hc : c = V.builder
          · subst hc
            rcases fair rfl with even | ⟨strict, unforbidden⟩
            · exact World.Bonded.reportAmbiguous_self hsnd even e v
            · obtain ⟨x, _, hx, -, twins⟩ := hsnd.self
              refine absurd ?_ (unforbidden (u.tagOf e) v (u.shown v))
              rw [reportAmbiguous_outcome hx twins.left, if_pos strict]
          · exact World.Bonded.reportAmbiguous_other hsnd hc e v

/-! ### Builds -/

theorem countersOf (h : w.Bonded B w') (c : BuilderRef) : w'.countersOf c = w.countersOf c := by
  unfold World.countersOf
  rcases h.records c with ⟨hx, hy⟩ | ⟨x, y, hx, hy, hxy⟩
  · rw [hx, hy]
  · rw [hx, hy, Option.map_some, Option.map_some, hxy.beside.counters]

theorem finish (h : w.Bonded B w') (c : BuilderRef) (root : Option ElementRef) :
    (w.updateBuilder c (Builder.finish · root)).Bonded B
      (w'.updateBuilder c (Builder.finish · root)) :=
  h.update c fun _ _ => Builder.Twins.finish root

theorem failBuild (h : w.Bonded B w') (c : BuilderRef) (f : Fault) :
    (w.failBuild c f).Bonded B (w'.failBuild c f) := by
  unfold World.failBuild
  rw [h.countersOf]
  cases f.isException with
  | true => exact World.Bonded.finish (h.notice c _) c none
  | false => exact h.finish c none

theorem reportOrphans (h : w.Bonded B w') (c : BuilderRef) (s : Session) (root : ElementRef) :
    (w.reportOrphans c s root).Bonded B (w'.reportOrphans c s root) := by
  have htags : w'.tagOf = w.tagOf := funext h.veiled.shows.tagOf
  unfold World.reportOrphans
  simp only [htags]
  split
  · exact h
  · exact World.Bonded.remark (h.notice c _) c fun _ => B.orphans _ _ _

theorem completeBuild (h : w.Bonded B w') (c : BuilderRef) (s : Session) (root : ElementRef) :
    (w.completeBuild c s root).Bonded B (w'.completeBuild c s root) := by
  have reported := h.reportOrphans c s root
  unfold World.completeBuild
  simp only [reported.countersOf c, reported.veiled.shows.tagOf root]
  exact World.Bonded.notice (reported.finish c (some root)) c _

theorem concludeBuild (h : w.Bonded B w') (c : BuilderRef) :
    (w'.concludeBuild c).1 = (w.concludeBuild c).1 ∧
      (w.concludeBuild c).2.Bonded B (w'.concludeBuild c).2 := by
  unfold World.concludeBuild
  rw [h.veiled.session?]
  cases w.session? c with
  | none => exact ⟨rfl, h⟩
  | some s =>
    simp only
    cases s.root with
    | none => exact ⟨rfl, h.failBuild c .noRoot⟩
    | some root => exact ⟨rfl, h.completeBuild c s root⟩

/-! ### Deeds of code -/

/-- Bonded worlds stay so if code leaves them behind the veil and changes no builder. -/
theorem left {u u' : World} (h : w.Bonded B w') (veiled : u.Veiled V u') (hu : w.Leaves u)
    (hu' : w'.Leaves u') (journal : w'.journal = w.journal → u'.journal = u.journal) :
    u.Bonded B u' := by
  obtain ⟨x, y, hx, hy, twins⟩ := h.self
  have kept := hu.builder V.builder x hx
  have kept' := hu'.builder V.builder y hy
  refine ⟨veiled.store, fun c => ?_, ?_, fun hj => journal (h.journal hj)⟩
  · by_cases hc : c = V.builder
    · subst hc
      rw [kept, kept']
      refine .some ?_
      rw [Builder.Bonded, if_pos rfl]
      exact twins
    · rcases veiled.records c with ⟨hx, hy⟩ | ⟨x, y, hx, hy, hxy⟩
      · rw [hx, hy]
        exact .none
      · rw [Builder.Beside, if_neg hc] at hxy
        rw [hx, hy, hxy]
        refine .some ?_
        rw [Builder.Bonded, if_neg hc]
  · rintro c rfl
    rw [kept]
    rfl

end World.Bonded

/-! ### States -/

namespace State.Bonded

variable {s t : State} {c : BuilderRef}

theorem veiled (h : s.Bonded B t) : s.Veiled V t :=
  ⟨h.world.veiled, h.bindings, h.builders, h.trace⟩

theorem withWorld (h : s.Bonded B t) {w w' : World} (hw : w.Bonded B w') :
    State.Bonded B { s with world := w } { t with world := w' } :=
  ⟨hw, h.bindings, h.builders, h.trace⟩

theorem handleFor (h : s.Bonded B t) (c : BuilderRef) :
    TagTree.handleFor c t = TagTree.handleFor c s := by
  rw [TagTree.handleFor, TagTree.handleFor, h.world.veiled.handle]

theorem createElement (h : s.Bonded B t) (c : BuilderRef) (call : TagCall) :
    (TagTree.createElement c call s).Bonded B (TagTree.createElement c call t) :=
  h.withWorld (h.world.create c call).2

theorem logLength (h : s.Bonded B t) (c : BuilderRef) :
    t.world.logLength c = s.world.logLength c := by
  rw [World.logLength, World.logLength, h.world.veiled.session?]

theorem startBuild (h : s.Bonded B t) (c : BuilderRef) :
    (s.onWorld (·.startBuild c)).Bonded B (t.onWorld (·.startBuild c)) :=
  h.withWorld (h.world.startBuild c)

theorem enterBlock (h : s.Bonded B t) (c : BuilderRef) :
    (TagTree.enterBlock c s).Bonded B (TagTree.enterBlock c t) :=
  h.withWorld (h.world.update c fun _ _ => Builder.Twins.enterBlock)

theorem leaveBlock (h : s.Bonded B t) (c : BuilderRef) :
    (TagTree.leaveBlock c s).Bonded B (TagTree.leaveBlock c t) :=
  h.withWorld (h.world.update c fun _ _ => Builder.Twins.leaveBlock)

theorem attachContent (h : s.Bonded B t) (e : ElementRef)
    (change : Element → Except Fault Element) :
    (Program.attachContent e change t).1 = (Program.attachContent e change s).1 ∧
      (Program.attachContent e change s).2.Bonded B (Program.attachContent e change t).2 := by
  obtain ⟨hfst, hsnd⟩ := h.world.changeElement e change
  exact ⟨hfst, h.withWorld hsnd⟩

/-- A block ends alike, up to the bond, if it is settled fairly. -/
theorem endBlock (h : s.Bonded B t) (e : ElementRef) (start : Nat) (x : Outcome Value)
    (fair : c = V.builder → ∀ v, x = .value v → B.Fair (s.world.settle c e start v).1) :
    (TagTree.endBlock c e start x t).1 = (TagTree.endBlock c e start x s).1 ∧
      (TagTree.endBlock c e start x s).2.Bonded B (TagTree.endBlock c e start x t).2 := by
  cases x with
  | value v =>
    obtain ⟨hfst, hsnd⟩ := h.world.settle c e start v fun hc => fair hc v rfl
    simp only [TagTree.endBlock, hfst]
    exact ⟨trivial, State.Bonded.leaveBlock (h.withWorld hsnd) c⟩
  | fault f => exact ⟨rfl, h.leaveBlock c⟩
  | exhausted => exact ⟨rfl, h.leaveBlock c⟩

theorem endBuild (h : s.Bonded B t) (c : BuilderRef) (x : Outcome Value) :
    (TagTree.endBuild c x t).1 = (TagTree.endBuild c x s).1 ∧
      (TagTree.endBuild c x s).2.Bonded B (TagTree.endBuild c x t).2 := by
  cases x with
  | value v =>
    obtain ⟨hfst, hsnd⟩ := h.world.concludeBuild c
    exact ⟨hfst, h.withWorld hsnd⟩
  | fault f => exact ⟨rfl, h.withWorld (h.world.failBuild c f)⟩
  | exhausted => exact ⟨rfl, h.withWorld (h.world.finish c none)⟩

end State.Bonded

end TagTree
