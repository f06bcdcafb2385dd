import TagTree.Proofs.Counters
import TagTree.Proofs.Showing

/-!
# The remarks of a build

A builder that wants remarks has one for every block whose value was discarded, in order of the
ends of the blocks, and then one for outermost elements outside of the tree. Where values must
not be discarded, just these blocks fail.
-/

namespace TagTree

/-! ### Discarded values -/

/-- Whether a value is one of some elements, or a list or tuple of them that is not empty. -/
def Store.Names (s : Store) (made : List ElementRef) (v : Value) : Prop :=
  (∃ e ∈ made, v = .element e) ∨
    ∃ items, s.sequence? v = some items ∧ items ≠ [] ∧ ∀ u ∈ items, ∃ e ∈ made, u = .element e

theorem World.isLogged_iff (w : World) (entries : List (Nat × ElementRef)) (v : Value) :
    w.isLogged entries v = true ↔ w.store.Names (entries.map Prod.snd) v := by
  have logged (u : Value) : (u.element?.any fun e => entries.any fun x => x.2 == e) = true ↔
      ∃ e ∈ entries.map Prod.snd, u = .element e := by
    cases u <;> simp [Value.element?]
  unfold isLogged Store.Names
  cases hs : w.store.sequence? v with
  | none => simp [logged]
  | some items =>
    have hne : ¬ ∃ e ∈ entries.map Prod.snd, v = .element e := by
      rintro ⟨e, -, rfl⟩
      cases hs
    rw [or_iff_right hne]
    simp [logged]

instance (s : Store) (made : List ElementRef) (v : Value) : Decidable (s.Names made v) :=
  decidable_of_iff
    (World.isLogged { World.empty s.host with store := s } (made.map fun e => (0, e)) v = true) (by
      rw [World.isLogged_iff, List.map_map]
      simp [Function.comp_def])

namespace Leaving

/-- The elements created while the block ran, at any depth. -/
def inside (b : BuilderRef) (l : Leaving) : List ElementRef :=
  anywhereIn l.element (createdBy b l.before.history)

/-- Whether a value of the block is discarded: elements were created, and it names none but
them. -/
def Discards (b : BuilderRef) (l : Leaving) (v : Value) : Prop :=
  l.inside b ≠ [] ∧ v.isNone = false ∧ ¬ l.before.state.world.store.Names (l.inside b) v

instance (b : BuilderRef) (l : Leaving) (v : Value) : Decidable (l.Discards b v) :=
  inferInstanceAs (Decidable (_ ∧ _ ∧ _))

def tag (l : Leaving) : String := l.after.state.world.tagOf l.element

def shown (l : Leaving) (v : Value) : String := l.after.state.world.shown v

/-- The remark that a left block is due. -/
def remark? (b : BuilderRef) (l : Leaving) : Option Remark :=
  match l.ending with
  | .value v => if l.Discards b v then some (.discardedValue l.tag (l.shown v)) else none
  | _ => none

/-- How the tag call of a left block ends under a policy. -/
def outcome (b : BuilderRef) (p : Policy) (l : Leaving) : Outcome ElementRef :=
  match l.ending with
  | .value v =>
    if p = .strict ∧ l.Discards b v then .fault (.ambiguousBlock l.tag v (l.shown v))
    else .value l.element
  | .fault f => .fault f
  | .exhausted => .exhausted

end Leaving

/-! ### Elements outside of the tree -/

/-- The elements that were created outside of all blocks. -/
def outermost (created : List (ElementRef × List ElementRef)) : List ElementRef :=
  (created.filter fun x => x.2 = []).map Prod.fst

/-- The remarks that a build whose block returned is due at its end. -/
def orphanRemarks (b : BuilderRef) (m : Machine) : List Remark :=
  match (course? b m.history).map fun c => outermost c.created with
  | some (root :: e :: rest) =>
    [.orphans (m.state.world.tagOf root) ((e :: rest).map m.state.world.tagOf)]
  | _ => []

theorem directly_zero (created : List (ElementRef × List ElementRef)) :
    World.directly 0 (Course.log created) = outermost created := by
  induction created with
  | nil => rfl
  | cons x xs ih =>
    simp only [World.directly, Course.log, outermost, List.map_cons, List.filter_cons] at ih ⊢
    cases x.2 with
    | nil => simpa using ih
    | cons y ys => simpa using ih

/-! ### What is recorded -/

section Leave

variable {code : Code} {b : BuilderRef} {e : ElementRef} {start : Nat} {m m' : Machine}
  {next : Except Fault ElementRef → Program Value} {rest : List Frame} {x x' : Builder}
  {s : Settings Value} {ending : Outcome Value}

theorem Builder.remarks_leaveBlock (x : Builder) : x.leaveBlock.remarks = x.remarks := by
  unfold leaveBlock
  cases x.session <;> rfl

theorem Builder.face_leaveBlock (x : Builder) : x.leaveBlock.face = x.face := by
  unfold leaveBlock
  cases hs : x.session <;> simp [face, isBuilding, hs]

/-- The world after a block shows what the world of the filled element shows. -/
theorem World.Shows.endBlock {st : State} {v : Value} {r : Outcome Unit} {w : World}
    (filled : st.world.fill b e start v = (r, w)) :
    w.Shows (TagTree.endBlock b e start (.value v) st).2.world := by
  have hbuilders := World.fill_builders st.world b e start v
  rw [filled] at hbuilders
  obtain ⟨rs, n, halters⟩ := endBlock_alters b e start (.value v) st
  have halters' : w.Alters b (Builder.leaveBlock ∘ Builder.annotated rs n)
      (TagTree.endBlock b e start (.value v) st).2.world := by
    intro c
    rw [halters c, World.builder?, World.builder?, hbuilders]
  refine .of_alters halters' ?_ ?_
  · have hstore := World.settle_store st.world b e start v
    rw [filled] at hstore
    exact hstore
  · intro x
    exact Builder.face_leaveBlock _

/-- Whether the value of a block is discarded when the block is settled. -/
def World.Discards (w : World) (b : BuilderRef) (start : Nat) (v : Value) : Prop :=
  w.loggedSince b start ≠ [] ∧ v.isNone = false ∧ w.isLogged (w.loggedSince b start) v = false

instance (w : World) (b : BuilderRef) (start : Nat) (v : Value) :
    Decidable (w.Discards b start v) :=
  inferInstanceAs (Decidable (_ ∧ _ ∧ _))

theorem discards_iff {l : Leaving} (hm : Reachable code l.before)
    (stack : l.before.stack = .block b l.element start next :: rest) (v : Value) :
    l.Discards b v ↔ l.before.state.world.Discards b start v := by
  have hinside : l.inside b = (l.before.state.world.loggedSince b start).map Prod.snd :=
    (hm.map_loggedSince stack).symm
  have hnames := World.isLogged_iff l.before.state.world
    (l.before.state.world.loggedSince b start) v
  rw [Leaving.Discards, World.Discards, hinside, ← hnames, Bool.not_eq_true]
  simp only [ne_eq, List.map_eq_nil_iff]

/-- How a block is settled whose element is filled, and what its builder records of it. -/
theorem World.settle_remarks {w u : World} {v : Value} (hx : w.builder? b = some x)
    (hs : x.configuration = .settings s) (building : x.isBuilding = true)
    (filled : w.fill b e start v = (.value (), u)) (on : u.truthy s.diagnostics = true) :
    (w.settle b e start v).1 = (if s.policy = .strict ∧ w.Discards b start v
      then .fault (.ambiguousBlock (u.tagOf e) v (u.shown v)) else .value ()) ∧
    ∃ y, (w.settle b e start v).2.builder? b = some y ∧
      y.remarks = x.remarks ++ (if s.policy = .diagnostic ∧ w.Discards b start v
        then [.discardedValue (u.tagOf e) (u.shown v)] else []) := by
  have hbuilders := fill_builders w b e start v
  rw [filled] at hbuilders
  have hu := builder_of_builders hbuilders hx
  have hset := settling w b e start v
  generalize w.settle b e start v = r at hset ⊢
  cases hset with
  | refused unfilled => exact absurd (congrArg Prod.fst filled) unfilled
  | quiet same plain =>
    cases filled.symm.trans same
    have kept : ¬ w.Discards b start v := by
      rintro ⟨-, given, foreign⟩
      rcases plain with hnone | ⟨-, hlogged⟩
      · rw [hnone] at given
        cases given
      · rw [hlogged] at foreign
        cases foreign
    exact ⟨by simp [kept], x, hu, by simp [kept]⟩
  | scalar same bare given =>
    cases filled.symm.trans same
    have kept : ¬ w.Discards b start v := fun h => h.1 bare
    have counted := builder_of_alters (.updateBuilder u b Builder.countScalar) hu
    exact ⟨by simp [kept], _, counted, by simp [kept, Builder.countScalar]⟩
  | ambiguous same entries given foreign =>
    cases filled.symm.trans same
    have lost : w.Discards b start v := ⟨entries, given, foreign⟩
    have reported := builder_of_alters (reportAmbiguous_alters_due hu hs e v) hu
    refine ⟨?_, _, reported, ?_⟩
    · rw [reportAmbiguous_outcome hu hs]
      simp only [lost, and_true]
    · simp only [Builder.annotated, building, if_true, Settings.dueDiscard, Settings.due, on,
        lost, and_true]

theorem endBlock_remarks {l : Leaving} (hm : Reachable code l.before)
    (stack : l.before.stack = .block b l.element start next :: rest)
    (after : l.after.state = (endBlock b l.element start l.ending l.before.state).2)
    (hx : l.before.state.world.builder? b = some x) (hs : x.configuration = .settings s)
    (building : x.isBuilding = true)
    (hx' : l.after.state.world.builder? b = some x')
    (on : l.after.state.world.truthy s.diagnostics = true) (untouched : l.Untouched) :
    x'.remarks = x.remarks ++ (if s.policy = .diagnostic then (l.remark? b).toList else []) ∧
      (endBlock b l.element start l.ending l.before.state).1 = l.outcome b s.policy := by
  rw [after] at hx'
  cases hending : l.ending with
  | fault f =>
    rw [hending] at hx'
    obtain ⟨y, hy, rfl⟩ := leaveBlock_record hx'
    rw [hx] at hy
    cases hy
    simp [Builder.remarks_leaveBlock, Leaving.remark?, Leaving.outcome, hending, endBlock]
  | exhausted =>
    rw [hending] at hx'
    obtain ⟨y, hy, rfl⟩ := leaveBlock_record hx'
    rw [hx] at hy
    cases hy
    simp [Builder.remarks_leaveBlock, Leaving.remark?, Leaving.outcome, hending, endBlock]
  | value v =>
    rw [hending] at hx' after
    obtain ⟨y, hy, rfl⟩ := leaveBlock_record hx'
    obtain ⟨u, filled⟩ := hm.fill stack untouched v
    have shows := World.Shows.endBlock filled
    rw [← after] at shows
    rw [shows.truthy] at on
    obtain ⟨outcome, z, hz, remarks⟩ := World.settle_remarks hx hs building filled on
    have same : y = z := Option.some.inj (hy.symm.trans hz)
    have tag : l.tag = u.tagOf l.element := shows.tagOf l.element
    have shown : l.shown v = u.shown v := shows.shown v
    rw [Builder.remarks_leaveBlock, same, remarks]
    constructor
    · simp only [Leaving.remark?, hending, discards_iff hm stack, tag, shown, ite_and]
      split_ifs <;> rfl
    · simp only [endBlock, outcome, Leaving.outcome, hending, discards_iff hm stack, tag, shown]
      split_ifs <;> rfl

/-- The outermost elements but the root are those created outside of all blocks after it. -/
theorem orphansOf_session {session : Session} {created : List (ElementRef × List ElementRef)}
    {root : ElementRef} (building : Building b m.state.world m.stack (course? b m.history)
      session created) (hm : Reachable code m) (hroot : session.root = some root) :
    outermost created = root :: World.orphansOf session := by
  have hdistinct : (created.map Prod.fst).Nodup := by
    obtain ⟨traced, spined⟩ := traced_of_reachable hm
    obtain ⟨prior, hprior, -⟩ := spined b created building.course
    have hall := traced.distinct b
    rw [hprior, List.map_append] at hall
    exact hall.of_append_right
  have hfirst := building.root
  rw [hroot] at hfirst
  have hlog := directly_zero created
  rw [← building.log] at hlog
  rw [World.orphansOf, hlog, hroot]
  cases created with
  | nil => cases hfirst
  | cons y ys =>
    have hy : y.1 = root := (Option.some.inj hfirst).symm
    have hyout : y.2 = [] := building.outermost y rfl
    rw [List.map_cons, List.nodup_cons] at hdistinct
    have hnot : ∀ z ∈ outermost ys, (some root != some z) = true := by
      intro z hz
      obtain ⟨u, hu, rfl⟩ := List.mem_map.mp hz
      have hne : root ≠ u.1 := by
        rintro rfl
        exact hdistinct.1 (hy ▸ List.mem_map_of_mem (List.mem_filter.mp hu).1)
      simpa using hne
    have hcons : outermost (y :: ys) = root :: outermost ys := by
      simp [outermost, hyout, hy]
    rw [hcons, List.filter_cons_of_neg (by simp), List.filter_eq_self.mpr hnot]

/-- The end of a build leaves the remarks as they are. -/
theorem World.finish_remarks {w u : World} {root : Option ElementRef}
    (finished : w.Alters b (Builder.finish · root) u) (hx : w.builder? b = some x)
    (hx' : u.builder? b = some x') : x'.remarks = x.remarks := by
  rw [builder_of_alters finished hx, Option.some.injEq] at hx'
  rw [← hx']
  rfl

/-- The remarks that a session is due at the end of its build. -/
def World.orphanRemarks (w : World) (session : Session) : List Remark :=
  match session.root, World.orphansOf session with
  | some root, e :: more => [.orphans (w.tagOf root) ((e :: more).map w.tagOf)]
  | _, _ => []

theorem World.completeBuild_remarks {w : World} {session : Session} {root : ElementRef}
    (hx : w.builder? b = some x) (hs : x.configuration = .settings s)
    (building : x.isBuilding = true) (on : w.truthy s.diagnostics = true)
    (hroot : session.root = some root)
    (hx' : (w.completeBuild b session root).builder? b = some x') :
    x'.remarks = x.remarks ++ w.orphanRemarks session := by
  have hrecord (y : Builder) (hy : (w.reportOrphans b session root).builder? b = some y) :
      x'.remarks = y.remarks := by
    have hfinish : (w.completeBuild b session root).builder? b = some (y.finish (some root)) := by
      simp only [completeBuild, builder?_notice, builder?_updateBuilder, if_true, hy,
        Option.map_some]
    rw [hx', Option.some.injEq] at hfinish
    rw [hfinish, Builder.finish]
  unfold reportOrphans at hrecord
  rw [orphanRemarks, hroot]
  cases ho : World.orphansOf session with
  | nil =>
    rw [hrecord x (by simp [ho, hx])]
    simp
  | cons e more =>
    have hremark := builder_of_alters (remark_alters_due
      (w := w.notice b (.orphaned (w.tagOf root) ((e :: more).map w.tagOf).length)) hx hs
      (.orphans (w.tagOf root) ((e :: more).map w.tagOf))) hx
    have hdue (n : Notice) (r : Remark) : s.due (w.notice b n) r = [r] := if_pos on
    rw [hrecord _ (by simpa [ho] using hremark), building, if_pos rfl, hdue]
    rfl

theorem World.concludeBuild_remarks {w : World} {session : Session}
    (hx : w.builder? b = some x) (hs : x.configuration = .settings s)
    (hsession : w.session? b = some session) (on : w.truthy s.diagnostics = true)
    (hx' : (w.concludeBuild b).2.builder? b = some x') :
    x'.remarks = x.remarks ++ w.orphanRemarks session := by
  have building : x.isBuilding = true := by
    rw [Builder.isBuilding, session_of_builder hx hsession]
    rfl
  simp only [concludeBuild, hsession] at hx'
  cases hroot : session.root with
  | none =>
    simp only [hroot] at hx'
    rw [finish_remarks (failBuild_alters w b .noRoot) hx hx', orphanRemarks, hroot,
      List.append_nil]
  | some root =>
    simp only [hroot] at hx'
    exact completeBuild_remarks hx hs building on hroot hx'

/-- What a session is due can be read off the elements that were created. -/
theorem orphanRemarks_session {session : Session} {created : List (ElementRef × List ElementRef)}
    {ended : Option (Outcome ElementRef)}
    (building : Building b m.state.world m.stack (course? b m.history) session created)
    (hm : Reachable code m) (course : course? b m'.history = some ⟨created, ended⟩)
    (store : m'.state.world.store = m.state.world.store) :
    orphanRemarks b m' = m.state.world.orphanRemarks session := by
  have htags : m'.state.world.tagOf = m.state.world.tagOf := by
    funext e
    rw [World.tagOf, World.tagOf, store]
  rw [orphanRemarks, World.orphanRemarks, course, Option.map_some, htags]
  cases hroot : session.root with
  | none =>
    have hempty : created = [] := by
      have hfirst := building.root
      rw [hroot] at hfirst
      cases created with
      | nil => rfl
      | cons y ys => cases hfirst
    rw [hempty]
    simp [outermost]
  | some root =>
    rw [orphansOf_session building hm hroot]
    cases World.orphansOf session <;> rfl

theorem endBuild_remarks (hm : Reachable code m) (stack : m.stack = .build b next :: rest)
    (program : m.program = .done ending) (after : m'.state = (endBuild b ending m.state).2)
    (event : m'.history = m.history ++ [.ended b (endBuild b ending m.state).1])
    (hx : m.state.world.builder? b = some x) (hs : x.configuration = .settings s)
    (hx' : m'.state.world.builder? b = some x')
    (on : m'.state.world.truthy s.diagnostics = true) :
    x'.remarks = x.remarks ++ (endingAt b m m').flatMap (orphanRemarks b) := by
  have standing := (orderly_of_reachable hm b).2
  have hopen : openBuilds b m.stack ≠ 0 := by
    rw [stack, openBuilds_build_self]
    exact Nat.succ_ne_zero _
  obtain ⟨session, created, building⟩ := standing.building_of_open hopen
  have hsession := building.stands.session
  have hstore : m'.state.world.store = m.state.world.store := by
    rw [after, endBuild_store hsession]
  rw [after] at hx'
  cases ending with
  | fault f =>
    have hnone : endingAt b m m' = [] := by simp [endingAt, program]
    rw [hnone, World.finish_remarks (World.failBuild_alters _ b f) hx hx']
    simp
  | exhausted =>
    have hnone : endingAt b m m' = [] := by simp [endingAt, program]
    rw [hnone, World.finish_remarks (.updateBuilder _ b _) hx hx']
    simp
  | value v =>
    have hend : endingAt b m m' = [m'] := by simp [endingAt, stack, program]
    have htruthy : m.state.world.truthy s.diagnostics = true := by
      rw [World.truthy, ← hstore]
      exact on
    have hcourse := course?_ended building.course (endBuild b (.value v) m.state).1
    rw [← event] at hcourse
    rw [hend, List.flatMap_cons, List.flatMap_nil, List.append_nil,
      orphanRemarks_session building hm hcourse hstore]
    exact World.concludeBuild_remarks hx hs hsession htruthy hx'

end Leave

/-! ### Remarks at every moment -/

/-- The remarks of a record at the latest moment of a build, and how the tag calls of its blocks
ended. -/
structure Remarked (b : BuilderRef) (s : Settings Value) (x : Builder) (path : List Machine) :
    Prop where
  remarks : x.remarks =
    (if s.policy = .diagnostic then (leavings b path).filterMap (Leaving.remark? b) else []) ++
      (endings b path).flatMap (orphanRemarks b)
  raised : ∀ l ∈ leavings b path, ∃ start next,
    l.before.stack = .block b l.element start next :: l.after.stack ∧
      l.before.program = .done l.ending ∧
      l.after.program = .resume next (l.outcome b s.policy)

section Moments

variable {code : Code} {b : BuilderRef} {m m' : Machine} {earlier : List Machine}
  {x x' : Builder} {s : Settings Value}

theorem Builder.lasting_leaveBlock (x : Builder) :
    x.leaveBlock.configuration = x.configuration ∧ x.leaveBlock.correlation = x.correlation := by
  unfold leaveBlock
  cases x.session <;> exact ⟨rfl, rfl⟩

/-- No move changes the configuration of a builder, nor its correlation. -/
theorem Turn.lasting (hm : Reachable code m) (hx : m.state.world.builder? b = some x)
    (t : Turn b m m' x x') :
    x'.configuration = x.configuration ∧ x'.correlation = x.correlation := by
  cases t with
  | still => exact ⟨rfl, rfl⟩
  | created program admitted leaf session =>
    simp only [Builder.logElement, session, and_self]
  | entered program admitted branch session =>
    simp only [Builder.enterBlock, Builder.logElement, session, and_self]
  | @left e start next rest ending _ stack program after record =>
    obtain ⟨rs, n, halters⟩ := endBlock_alters b e start ending m.state
    rw [after, builder_of_alters halters hx, Option.some.injEq] at record
    rw [← record]
    exact Builder.lasting_leaveBlock _
  | @ended next rest ending _ stack program after record =>
    have standing := (orderly_of_reachable hm b).2
    rw [stack] at standing
    obtain ⟨session, created, building⟩ := standing.building_of_build
    obtain ⟨rs, halters⟩ := endBuild_alters building.stands.session ending
    rw [after, builder_of_alters halters hx, Option.some.injEq] at record
    rw [← record]
    exact ⟨rfl, rfl⟩
  | began => exact ⟨rfl, rfl⟩

theorem Turn.configuration (hm : Reachable code m) (hx : m.state.world.builder? b = some x)
    (t : Turn b m m' x x') : x'.configuration = x.configuration := (t.lasting hm hx).1

/-- Remarks as they are due while the build goes on, when no build has ended. -/
structure Remarking (b : BuilderRef) (s : Settings Value) (x : Builder) (path : List Machine) :
    Prop extends Remarked b s x path where
  going : x.session ≠ none → endings b path = []

theorem Remarking.still (h : Remarking b s x (m :: earlier)) (same : x'.remarks = x.remarks)
    (session : x'.session ≠ none → x.session ≠ none) (leaving : leavingAt b m m' = [])
    (ending : endingAt b m m' = []) : Remarking b s x' (m' :: m :: earlier) where
  remarks := by
    rw [same, leavings_cons, endings_cons, leaving, ending, List.append_nil, List.append_nil]
    exact h.remarks
  raised := by
    rw [leavings_cons, leaving, List.append_nil]
    exact h.raised
  going hs := by
    rw [endings_cons, ending, List.append_nil]
    exact h.going (session hs)

theorem Remarking.leave (h : Remarking b s x (m :: earlier)) {e : ElementRef} {start : Nat}
    {next : Except Fault ElementRef → Program Value} {rest : List Frame}
    {ending : Outcome Value} (hm : Reachable code m)
    (stack : m.stack = .block b e start next :: rest) (program : m.program = .done ending)
    (after : m' = ⟨(endBlock b e start ending m.state).2, rest,
      .resume next (endBlock b e start ending m.state).1, m.history ++ [.left b e ending]⟩)
    (hx : m.state.world.builder? b = some x) (hs : x.configuration = .settings s)
    (hx' : m'.state.world.builder? b = some x')
    (on : m'.state.world.truthy s.diagnostics = true)
    (untouched : ∀ l ∈ leavingAt b m m', l.Untouched) :
    Remarking b s x' (m' :: m :: earlier) := by
  have hopen := orderly_of_reachable hm b
  rw [stack] at hopen
  obtain ⟨session, created, building⟩ := hopen.2.building_of_block hopen.1
  have hsession : x.session = some session := session_of_builder hx building.stands.session
  have hbuilding : x.isBuilding = true := by
    rw [Builder.isBuilding, hsession]
    rfl
  have hgoing : endings b (m :: earlier) = [] := h.going (by simp [hsession])
  obtain ⟨l, hl⟩ : ∃ l : Leaving, l = ⟨e, ending, m, m'⟩ := ⟨_, rfl⟩
  have hleaving : leavingAt b m m' = [l] := by simp [leavingAt, stack, program, hl]
  have hending : endingAt b m m' = [] := by simp [endingAt, stack]
  have hlast : [l].filterMap (Leaving.remark? b) = (l.remark? b).toList := by
    cases hr : l.remark? b <;> simp [hr]
  have huntouched := untouched l (by simp [hleaving])
  subst hl
  obtain ⟨hremarks, houtcome⟩ := endBlock_remarks (l := ⟨e, ending, m, m'⟩) hm stack
    (by rw [after]) hx hs hbuilding hx' on huntouched
  have hbefore := h.remarks
  rw [hgoing, List.flatMap_nil, List.append_nil] at hbefore
  have hnone : endings b (m' :: m :: earlier) = [] := by
    rw [endings_cons, hending, hgoing]
    rfl
  refine ⟨⟨?_, ?_⟩, fun _ => hnone⟩
  · rw [hnone, List.flatMap_nil, List.append_nil, leavings_cons, hleaving, hremarks, hbefore,
      List.filterMap_append, hlast]
    split
    · rfl
    · rfl
  · intro l hl
    rw [leavings_cons, hleaving, List.mem_append, List.mem_singleton] at hl
    rcases hl with hl | rfl
    · exact h.raised l hl
    · refine ⟨start, next, ?_, program, ?_⟩
      · rw [stack, after]
      · rw [← houtcome, after]

theorem Remarking.finish (h : Remarking b s x (m :: earlier))
    {next : Except Fault ElementRef → Program Value} {rest : List Frame}
    {ending : Outcome Value} (hm : Reachable code m) (stack : m.stack = .build b next :: rest)
    (program : m.program = .done ending)
    (after : m' = ⟨(endBuild b ending m.state).2, rest,
      .resume next (endBuild b ending m.state).1,
      m.history ++ [.ended b (endBuild b ending m.state).1]⟩)
    (hx : m.state.world.builder? b = some x) (hs : x.configuration = .settings s)
    (hx' : m'.state.world.builder? b = some x')
    (on : m'.state.world.truthy s.diagnostics = true) :
    Remarking b s x' (m' :: m :: earlier) := by
  have standing := (orderly_of_reachable hm b).2
  rw [stack] at standing
  obtain ⟨session, created, building⟩ := standing.building_of_build
  have hsession : x.session = some session := session_of_builder hx building.stands.session
  have hgoing : endings b (m :: earlier) = [] := h.going (by simp [hsession])
  have hleaving : leavingAt b m m' = [] := by simp [leavingAt, stack]
  have hremarks := endBuild_remarks hm stack program (by rw [after]) (by rw [after]) hx hs hx' on
  have hbefore := h.remarks
  rw [hgoing, List.flatMap_nil, List.append_nil] at hbefore
  have hclosed : x'.session = none := by
    have stands := endBuild_stands ending building.stands
    refine session_none_of_builder hx' ?_
    rw [after]
    exact stands.session
  refine ⟨⟨?_, ?_⟩, fun hs => absurd hclosed hs⟩
  · rw [endings_cons, hgoing, List.nil_append, leavings_cons, hleaving, List.append_nil,
      hremarks, hbefore]
  · rw [leavings_cons, hleaving, List.append_nil]
    exact h.raised

theorem Remarking.turn (h : Remarking b s x (m :: earlier)) (hm : Reachable code m)
    (hx : m.state.world.builder? b = some x) (hs : x.configuration = .settings s)
    (hx' : m'.state.world.builder? b = some x') (t : Turn b m m' x x')
    (same : m'.history ≠ m.history ++ [.began b])
    (on : m'.state.world.truthy s.diagnostics = true)
    (untouched : ∀ l ∈ leavingAt b m m', l.Untouched) :
    Remarking b s x' (m' :: m :: earlier) := by
  cases t with
  | still around made course leaving ending => exact h.still rfl id leaving ending
  | created program admitted leaf session depth around event =>
    have deed : m.program.isDone = false := by rw [program]; rfl
    refine h.still ?_ (fun _ => by simp [session]) (leavingAt_of_deed deed)
      (endingAt_of_deed deed)
    simp only [Builder.logElement, session]
  | entered program admitted branch session depth around event =>
    have deed : m.program.isDone = false := by rw [program]; rfl
    refine h.still ?_ (fun _ => by simp [session]) (leavingAt_of_deed deed)
      (endingAt_of_deed deed)
    simp only [Builder.enterBlock, Builder.logElement, session]
  | left stack program after record =>
    exact h.leave hm stack program after hx hs hx' on untouched
  | ended stack program after record =>
    exact h.finish hm stack program after hx hs hx' on
  | began program around event => exact absurd event same

theorem remarking_of_moments (h : Moments code b (m :: earlier))
    (hx : m.state.world.builder? b = some x) (hs : x.configuration = .settings s)
    (on : ∀ n ∈ m :: earlier, n.state.world.truthy s.diagnostics = true)
    (untouched : ∀ l ∈ leavings b (m :: earlier), l.Untouched) :
    Remarking b s x (m :: earlier) := by
  revert hs on untouched
  refine h.of_turns (P := fun x m earlier => x.configuration = .settings s →
    (∀ n ∈ m :: earlier, n.state.world.truthy s.diagnostics = true) →
    (∀ l ∈ leavings b (m :: earlier), l.Untouched) → Remarking b s x (m :: earlier)) hx ?_ ?_
  · intro n n' y reached advance event hy hs on untouched
    refine ⟨⟨?_, ?_⟩, fun _ => rfl⟩
    · simp [Builder.start, leavings, endings, along]
    · simp [leavings, along]
  · intro n n' before y y' past advance same hy hy' t remarking hs on untouched
    have hbefore := (t.configuration past.reachable hy).symm.trans hs
    have remarked := remarking hbefore (fun k hk => on k (List.mem_cons_of_mem _ hk))
      fun l hl => untouched l (List.mem_append_left _ hl)
    exact remarked.turn past.reachable hy hbefore hy' t same (on _ (List.mem_cons_self ..))
      fun l hl => untouched l (List.mem_append_right _ hl)

end Moments

/-- The remarks of a build that wants them are exact at every moment of it and after it, and
where no value may be discarded, the tag calls of just the blocks that discard theirs fail.
Code gives no content by hand to the elements of running blocks. -/
theorem remarks_exact {code : Code} {b : BuilderRef} {m : Machine} {earlier : List Machine}
    {x : Builder} {s : Settings Value} (h : Moments code b (m :: earlier))
    (hx : m.state.world.builder? b = some x) (hs : x.configuration = .settings s)
    (on : ∀ n ∈ m :: earlier, n.state.world.truthy s.diagnostics = true)
    (untouched : ∀ l ∈ leavings b (m :: earlier), l.Untouched) :
    Remarked b s x (m :: earlier) :=
  (remarking_of_moments h hx hs on untouched).toRemarked

/-- Code of functions that make an element around another one and return a text instead. -/
def wordyCode : Code := fun c _ _ =>
  match c with
  | .factory 0 b tag => .tag b (.text tag) [] [] fun _ => .done (.value (.text "x"))
  | .factory _ b tag =>
    .tag b (.text tag) [.callable (.factory 0 b "b")] [] fun _ => .done (.value (.text "x"))
  | _ => Program.fail .notABlock

theorem wordy_remarks_exact : ∃ m earlier x, Moments wordyCode ⟨0⟩ (m :: earlier) ∧
    m.state.world.builder? ⟨0⟩ = some x ∧ Remarked ⟨0⟩ .standard x (m :: earlier) ∧
    x.remarks.length = 1 := by
  have h0 : Reachable wordyCode _ :=
    .initial small_fresh (.build ⟨0⟩ (.callable (.factory 1 ⟨0⟩ "a")) ignoring)
  have h1 : Moments wordyCode ⟨0⟩ [_] :=
    .began h0 (.of_move (.began (c := .factory 1 ⟨0⟩ "a") rfl) rfl) rfl
  have h2 := h1.later (.of_move (.entered (b := ⟨0⟩) rfl rfl) rfl) (by simp)
  have h3 := h2.later (.of_move (.created rfl rfl) rfl) (by simp)
  have h4 := h3.later (.of_move .left rfl) (by simp)
  have h5 := h4.later (.of_move .ended rfl) (by simp)
  obtain ⟨x, c, hx, -⟩ := counted_of_moments h5
  have hs : x.configuration = .settings .standard := by
    cases hx
    rfl
  have hone : x.remarks.length = 1 := by
    cases hx
    rfl
  have remarked := remarks_exact h5 hx hs (by
    intro n hn
    rfl) (by
    intro l hl
    rw [List.mem_singleton.mp (show l ∈ [_] from hl)]
    simp [Leaving.Untouched])
  exact ⟨_, _, x, h5, hx, remarked, hone⟩

end TagTree
