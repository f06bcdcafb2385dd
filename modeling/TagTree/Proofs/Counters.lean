import TagTree.Proofs.Document
import TagTree.Proofs.Moments

/-!
# The counters of a build

At every moment of a build, and after it, the counters of its builder are the numbers of what
happened: elements created, blocks begun, blocks whose value became text, and the most blocks
that ran at once.
-/

namespace TagTree

/-! ### Counters of records -/

namespace Builder

variable {x : Builder} {s : Session}

@[simp] theorem counters_leaveBlock (x : Builder) : x.leaveBlock.counters = x.counters := by
  unfold leaveBlock
  cases x.session <;> rfl

theorem counters_logElement (hs : x.session = some s) (e : ElementRef) :
    (x.logElement e).counters = x.counters.elementCreated := by
  simp only [logElement, hs]

theorem counters_enterBlock (hs : x.session = some s) :
    x.enterBlock.counters = x.counters.blockEntered (s.depth + 1) := by
  simp only [enterBlock, hs]

theorem session_logElement (hs : x.session = some s) (e : ElementRef) :
    (x.logElement e).session =
      some ⟨s.root <|> some e, s.log ++ [(s.depth, e)], s.depth⟩ := by
  simp only [logElement, hs]

end Builder

/-- No counter of the first exceeds that of the second. -/
structure Counters.AtMost (c d : Counters) : Prop where
  elements : c.elementsCreated ≤ d.elementsCreated
  blocks : c.blocksEntered ≤ d.blocksEntered
  scalars : c.scalarBlocks ≤ d.scalarBlocks
  deepest : c.maxDepthReached ≤ d.maxDepthReached

namespace Counters.AtMost

theorem refl (c : Counters) : c.AtMost c :=
  ⟨Nat.le_refl _, Nat.le_refl _, Nat.le_refl _, Nat.le_refl _⟩

theorem trans {c d f : Counters} (h : c.AtMost d) (h' : d.AtMost f) : c.AtMost f :=
  ⟨Nat.le_trans h.elements h'.elements, Nat.le_trans h.blocks h'.blocks,
    Nat.le_trans h.scalars h'.scalars, Nat.le_trans h.deepest h'.deepest⟩

end Counters.AtMost

/-! ### Scalar blocks -/

/-- Whether a block returned a value that is text, for no element was created while it ran. -/
def scalarBlock (b : BuilderRef) (e : ElementRef) (ending : Outcome Value) (h : List Event) :
    Bool :=
  match ending with
  | .value v => !v.isNone && (anywhereIn e (createdBy b h)).isEmpty
  | _ => false

def Leaving.scalar (b : BuilderRef) (l : Leaving) : Bool :=
  scalarBlock b l.element l.ending l.before.history

/-- Code gave the element of the block no content by hand while the block ran. Its tag call has
yet to return it, so that only code that makes up references could. -/
def Leaving.Untouched (l : Leaving) : Prop := .attached l.element ∉ l.before.history

section Leave

variable {code : Code} {b : BuilderRef} {e : ElementRef} {start : Nat} {m : Machine}
  {next : Except Fault ElementRef → Program Value} {rest : List Frame} {x x' : Builder}
  {ending : Outcome Value}

/-- The record that a block leaves is that of its settling with the block closed. -/
theorem leaveBlock_record {s : State} (h : (leaveBlock b s).world.builder? b = some x') :
    ∃ y, s.world.builder? b = some y ∧ x' = y.leaveBlock := by
  have hl : s.world.Alters b Builder.leaveBlock (leaveBlock b s).world := .updateBuilder _ b _
  rw [hl.self] at h
  obtain ⟨y, hy, hx⟩ := Option.map_eq_some_iff.mp h
  exact ⟨y, hy, hx.symm⟩

theorem fill_builder {w w' : World} {v : Value} {r : Outcome Unit} {y : Builder}
    (hf : w.fill b e start v = (r, w')) (hx : w.builder? b = some x)
    (hy : w'.builder? b = some y) : y = x := by
  have hb := World.fill_builders w b e start v
  rw [hf] at hb
  have hsame := builder_of_builders hb hx
  exact Option.some.inj (hy.symm.trans hsame)

theorem endBlock_counters (hm : Reachable code m)
    (stack : m.stack = .block b e start next :: rest)
    (hx : m.state.world.builder? b = some x)
    (hx' : (endBlock b e start ending m.state).2.world.builder? b = some x') :
    (x'.counters = x.counters ∧
        (scalarBlock b e ending m.history = false ∨ .attached e ∈ m.history)) ∨
      (x'.counters = x.counters.scalarBlock ∧ scalarBlock b e ending m.history = true) := by
  cases ending with
  | fault f =>
    obtain ⟨y, hy, rfl⟩ := leaveBlock_record hx'
    rw [hx] at hy
    cases hy
    exact .inl ⟨Builder.counters_leaveBlock x, .inl rfl⟩
  | exhausted =>
    obtain ⟨y, hy, rfl⟩ := leaveBlock_record hx'
    rw [hx] at hy
    cases hy
    exact .inl ⟨Builder.counters_leaveBlock x, .inl rfl⟩
  | value v =>
    obtain ⟨y, hy, rfl⟩ := leaveBlock_record hx'
    simp only [Builder.counters_leaveBlock]
    have hnil := hm.loggedSince_eq_nil stack
    have hset := World.settling m.state.world b e start v
    change (m.state.world.settle b e start v).2.builder? b = some y at hy
    generalize m.state.world.settle b e start v = r at hset hy
    cases hset with
    | refused unfilled =>
      rcases hf : m.state.world.fill b e start v with ⟨r, w'⟩
      rw [hf] at hy
      cases fill_builder hf hx hy
      refine .inl ⟨rfl, .inr ?_⟩
      by_contra ha
      obtain ⟨w, hw⟩ := hm.fill stack ha v
      exact unfilled (by rw [hw])
    | quiet filled plain =>
      cases fill_builder filled hx hy
      refine .inl ⟨rfl, .inl ?_⟩
      rcases plain with hv | ⟨hne, -⟩
      · simp [scalarBlock, hv]
      · have hany : anywhereIn e (createdBy b m.history) ≠ [] := fun h => hne (hnil.mpr h)
        simp [scalarBlock, hany]
    | @scalar w' filled bare given =>
      have hc : w'.Alters b Builder.countScalar (w'.updateBuilder b Builder.countScalar) :=
        .updateBuilder w' b _
      rw [hc.self] at hy
      obtain ⟨z, hz, rfl⟩ := Option.map_eq_some_iff.mp hy
      cases fill_builder filled hx hz
      exact .inr ⟨rfl, by simp [scalarBlock, given, hnil.mp bare]⟩
    | @ambiguous w' filled entries given foreign =>
      obtain ⟨rs, hrs⟩ := World.reportAmbiguous_alters w' b e v
      rw [hrs.self] at hy
      obtain ⟨z, hz, rfl⟩ := Option.map_eq_some_iff.mp hy
      cases fill_builder filled hx hz
      have hany : anywhereIn e (createdBy b m.history) ≠ [] := fun h => entries (hnil.mpr h)
      exact .inl ⟨by simp [Builder.annotated], .inl (by simp [scalarBlock, hany])⟩

theorem endBuild_counters (hm : Reachable code m) (stack : m.stack = .build b next :: rest)
    (hx : m.state.world.builder? b = some x)
    (hx' : (endBuild b ending m.state).2.world.builder? b = some x') :
    x'.counters = x.counters := by
  have standing := (orderly_of_reachable hm b).2
  rw [stack] at standing
  obtain ⟨session, created, building⟩ := standing.building_of_build
  obtain ⟨rs, halters⟩ := endBuild_alters building.stands.session ending
  rw [builder_of_alters halters hx, Option.some.injEq] at hx'
  rw [← hx']
  simp [Builder.finish, Builder.annotated]

end Leave

/-! ### Counting -/

/-- The counters of a builder against the moments of its build. -/
structure Counted (b : BuilderRef) (k : Counters) (created : List (ElementRef × List ElementRef))
    (m : Machine) (earlier : List Machine) : Prop where
  elements : k.elementsCreated = created.length
  depths : ∀ y ∈ created, y.2.length ≤ k.maxDepthReached
  blocks : k.blocksEntered = (enterings b (m :: earlier)).length
  balance : k.blocksEntered = (leavings b (m :: earlier)).length + (running b m.stack).length
  most : k.maxDepthReached = deepest b (m :: earlier)
  scalars : (∀ l ∈ leavings b (m :: earlier), l.Untouched) →
    k.scalarBlocks = ((leavings b (m :: earlier)).filter (Leaving.scalar b)).length
  returned : k.scalarBlocks ≤ (leavings b (m :: earlier)).length
  nested : k.maxDepthReached ≤ k.blocksEntered
  filled : k.blocksEntered ≤ k.elementsCreated

section Counted

variable {code : Code} {b : BuilderRef} {m m' : Machine} {earlier : List Machine}
  {k : Counters} {x x' : Builder} {c : Course} {created : List (ElementRef × List ElementRef)}

theorem Counted.running_le (h : Counted b k created m earlier) :
    (running b m.stack).length ≤ k.maxDepthReached := by
  rw [h.most]
  exact Nat.le_max_right ..

/-- Nothing is counted when no element is created and no block begins or ends. -/
theorem Counted.still (h : Counted b k created m earlier)
    (around : running b m'.stack = running b m.stack) (leaving : leavingAt b m m' = []) :
    Counted b k created m' (m :: earlier) := by
  have hentering : enteringAt b m m' = [] := enteringAt_of_running (Nat.le_of_eq (by rw [around]))
  refine ⟨h.elements, h.depths, ?_, ?_, ?_, ?_, ?_, h.nested, h.filled⟩
  · rw [enterings_cons, hentering, List.append_nil]
    exact h.blocks
  · rw [leavings_cons, leaving, List.append_nil, around]
    exact h.balance
  · have hle := h.running_le
    rw [deepest, around, ← h.most]
    exact (Nat.max_eq_left hle).symm
  · rw [leavings_cons, leaving, List.append_nil]
    exact h.scalars
  · rw [leavings_cons, leaving, List.append_nil]
    exact h.returned

theorem Counted.create (h : Counted b k created m earlier) (e : ElementRef)
    (deed : m.program.isDone = false) (around : running b m'.stack = running b m.stack) :
    Counted b k.elementCreated (created ++ [(e, running b m.stack)]) m' (m :: earlier) := by
  have hstill := h.still around (leavingAt_of_deed deed)
  refine ⟨?_, ?_, hstill.blocks, hstill.balance, hstill.most, hstill.scalars, hstill.returned,
    h.nested, Nat.le_succ_of_le h.filled⟩
  · rw [List.length_append, ← h.elements]
    rfl
  · intro y hy
    rcases List.mem_append.mp hy with hy | hy
    · exact h.depths y hy
    · rw [List.mem_singleton.mp hy]
      exact h.running_le

theorem Counted.enter (h : Counted b k created m earlier) (e : ElementRef)
    (deed : m.program.isDone = false)
    (around : running b m'.stack = e :: running b m.stack) :
    Counted b (k.elementCreated.blockEntered ((running b m.stack).length + 1))
      (created ++ [(e, running b m.stack)]) m' (m :: earlier) := by
  have hle := h.running_le
  have hentering := enteringAt_of_cons around
  have hleaving : leavingAt b m m' = [] := leavingAt_of_deed deed
  have hlength : (running b m'.stack).length = (running b m.stack).length + 1 := by
    rw [around, List.length_cons]
  simp only [Counters.blockEntered, Counters.elementCreated]
  refine ⟨?_, ?_, ?_, ?_, ?_, ?_, ?_, ?_, Nat.succ_le_succ h.filled⟩
  · rw [List.length_append, ← h.elements]
    rfl
  · intro y hy
    rcases List.mem_append.mp hy with hy | hy
    · exact Nat.le_trans (h.depths y hy) (Nat.le_max_left ..)
    · rw [List.mem_singleton.mp hy]
      exact Nat.le_trans hle (Nat.le_max_left ..)
  · rw [enterings_cons, hentering, List.length_append, ← h.blocks]
    rfl
  · rw [leavings_cons, hleaving, List.append_nil, hlength]
    exact congrArg Nat.succ h.balance
  · rw [deepest, hlength, ← h.most]
  · rw [leavings_cons, hleaving, List.append_nil]
    exact h.scalars
  · rw [leavings_cons, hleaving, List.append_nil]
    exact h.returned
  · have hnested := h.nested
    have hbound : (running b m.stack).length ≤ k.blocksEntered := Nat.le_trans hle hnested
    exact Nat.max_le.mpr ⟨Nat.le_succ_of_le hnested, Nat.succ_le_succ hbound⟩

theorem Counted.leave (h : Counted b k created m earlier) {l : Leaving}
    (leaving : leavingAt b m m' = [l]) {e : ElementRef}
    (around : running b m.stack = e :: running b m'.stack) {k' : Counters}
    (counted : (k' = k ∧ (l.scalar b = false ∨ ¬ l.Untouched)) ∨
      (k' = k.scalarBlock ∧ l.scalar b = true)) :
    Counted b k' created m' (m :: earlier) := by
  have hlength : (running b m.stack).length = (running b m'.stack).length + 1 := by
    rw [around, List.length_cons]
  have hentering : enteringAt b m m' = [] := enteringAt_of_running (by omega)
  obtain ⟨n, hn, rfl, hexact⟩ : ∃ n, n ≤ 1 ∧ k' = { k with scalarBlocks := k.scalarBlocks + n } ∧
      (l.Untouched → n = ([l].filter (Leaving.scalar b)).length) := by
    rcases counted with ⟨rfl, hs⟩ | ⟨rfl, hs⟩
    · refine ⟨0, Nat.zero_le _, rfl, fun hu => ?_⟩
      rcases hs with hs | hs
      · simp [hs]
      · exact absurd hu hs
    · exact ⟨1, Nat.le_refl _, rfl, fun _ => by simp [hs]⟩
  refine ⟨h.elements, h.depths, ?_, ?_, ?_, ?_, ?_, h.nested, h.filled⟩
  · rw [enterings_cons, hentering, List.append_nil]
    exact h.blocks
  · have hbalance := h.balance
    rw [leavings_cons, leaving, List.length_append, List.length_singleton]
    simp only
    omega
  · have hle := h.running_le
    have hlater : (running b m'.stack).length ≤ k.maxDepthReached := by omega
    rw [deepest, ← h.most]
    exact (Nat.max_eq_left hlater).symm
  · intro untouched
    rw [leavings_cons, leaving] at untouched ⊢
    have hlast := hexact (untouched l (by simp))
    have hbefore := h.scalars fun l' hl => untouched l' (List.mem_append_left _ hl)
    rw [List.filter_append, List.length_append, ← hbefore, ← hlast]
  · have hreturned := h.returned
    rw [leavings_cons, leaving, List.length_append, List.length_singleton]
    exact Nat.add_le_add hreturned hn

theorem Counted.turn (h : Counted b x.counters c.created m earlier) (hm : Reachable code m)
    (hc : course? b m.history = some c) (hx : m.state.world.builder? b = some x)
    (t : Turn b m m' x x') (same : m'.history ≠ m.history ++ [.began b]) :
    ∃ c', course? b m'.history = some c' ∧
      Counted b x'.counters c'.created m' (m :: earlier) := by
  cases t with
  | still around made course leaving ending =>
    exact ⟨c, course.trans hc, h.still around leaving⟩
  | created program admitted leaf session depth around event =>
    rw [event, Builder.counters_logElement session]
    exact ⟨_, course?_created hc _ _, h.create _ (by rw [program]; rfl) around⟩
  | entered program admitted branch session depth around event =>
    rw [event, Builder.counters_enterBlock (Builder.session_logElement session _),
      Builder.counters_logElement session, depth]
    exact ⟨_, course?_created hc _ _, h.enter _ (by rw [program]; rfl) around⟩
  | @left e start next rest ending _ stack program after record =>
    have hleaving : leavingAt b m m' = [⟨e, ending, m, m'⟩] := by
      simp [leavingAt, stack, program]
    have haround : running b m.stack = e :: running b m'.stack := by
      rw [stack, running_block_self, after]
    rw [after] at record
    refine ⟨c, ?_, h.leave hleaving haround ?_⟩
    · rw [after, course?_append, hc]
      rfl
    · rcases endBlock_counters hm stack hx record with ⟨hcounters, hs⟩ | hs
      · exact .inl ⟨hcounters, hs.imp_right fun ha hu => hu ha⟩
      · exact .inr hs
  | @ended next rest ending _ stack program after record =>
    have hcourse : course? b m'.history = some ⟨c.created, some (endBuild b ending m.state).1⟩ := by
      rw [after]
      exact course?_ended hc _
    rw [after] at record
    rw [endBuild_counters hm stack hx record]
    refine ⟨_, hcourse, h.still ?_ ?_⟩
    · rw [stack, after]
      rfl
    · simp [leavingAt, stack]
  | began program around event => exact absurd event same

theorem counted_of_moments (h : Moments code b (m :: earlier)) :
    ∃ x c, m.state.world.builder? b = some x ∧ course? b m.history = some c ∧
      Counted b x.counters c.created m earlier := by
  obtain ⟨x, hx⟩ := h.builder
  obtain ⟨c, hc, counted⟩ : ∃ c, course? b m.history = some c ∧
      Counted b x.counters c.created m earlier := by
    refine h.of_turns (P := fun x m earlier => ∃ c, course? b m.history = some c ∧
      Counted b x.counters c.created m earlier) hx ?_ ?_
    · intro n n' y reached advance event hy
      obtain ⟨block, next, k, -, -, admitted, -, rfl⟩ := advance.move.of_began event
      have houtside := ((orderly_of_reachable reached b).2.idle_of_none
        (idle_of_admitBuild admitted).2).outside
      refine ⟨⟨[], none⟩, by simp [course?_append, Course.after], rfl,
        fun _ hy => absurd hy List.not_mem_nil, rfl, ?_, ?_, fun _ => rfl, Nat.zero_le _,
        Nat.le_refl _, Nat.le_refl _⟩
      · simp [leavings, along, Builder.start, Counters.zero, houtside]
      · simp [deepest, Builder.start, Counters.zero, houtside]
    · rintro n n' before y y' past advance same hy hy' t ⟨c, hc, counted⟩
      exact counted.turn past.reachable hc hy t same
  exact ⟨x, c, hx, hc, counted⟩

end Counted

/-! ### Counters grow -/

section Growth

variable {code : Code} {b : BuilderRef} {m m' : Machine} {earlier : List Machine}
  {x x' : Builder}

theorem Counters.AtMost.elementCreated (k : Counters) : k.AtMost k.elementCreated :=
  ⟨Nat.le_succ _, Nat.le_refl _, Nat.le_refl _, Nat.le_refl _⟩

theorem Counters.AtMost.blockEntered (k : Counters) (depth : Nat) :
    k.AtMost (k.blockEntered depth) :=
  ⟨Nat.le_refl _, Nat.le_succ _, Nat.le_refl _, Nat.le_max_left ..⟩

theorem Counters.AtMost.scalarBlock (k : Counters) : k.AtMost k.scalarBlock :=
  ⟨Nat.le_refl _, Nat.le_refl _, Nat.le_succ _, Nat.le_refl _⟩

theorem Turn.atMost (hm : Reachable code m) (hx : m.state.world.builder? b = some x)
    (t : Turn b m m' x x') (same : m'.history ≠ m.history ++ [.began b]) :
    x.counters.AtMost x'.counters := by
  cases t with
  | still => exact .refl _
  | created program admitted leaf session =>
    rw [Builder.counters_logElement session]
    exact .elementCreated _
  | entered program admitted branch session =>
    rw [Builder.counters_enterBlock (Builder.session_logElement session _),
      Builder.counters_logElement session]
    exact (Counters.AtMost.elementCreated _).trans (.blockEntered _ _)
  | left stack program after record =>
    rw [after] at record
    rcases endBlock_counters hm stack hx record with ⟨hcounters, -⟩ | ⟨hcounters, -⟩
    · rw [hcounters]
      exact .refl _
    · rw [hcounters]
      exact .scalarBlock _
  | ended stack program after record =>
    rw [after] at record
    rw [endBuild_counters hm stack hx record]
    exact .refl _
  | began program around event => exact absurd event same

theorem counters_grow (h : Moments code b (m :: earlier))
    (hx : m.state.world.builder? b = some x) :
    ∀ m₀ ∈ earlier, ∃ x₀, m₀.state.world.builder? b = some x₀ ∧
      x₀.counters.AtMost x.counters := by
  refine h.of_turns (P := fun x _ earlier => ∀ m₀ ∈ earlier, ∃ x₀,
    m₀.state.world.builder? b = some x₀ ∧ x₀.counters.AtMost x.counters) hx ?_ ?_
  · intro n n' y reached advance event hy m₀ hm₀
    cases hm₀
  · intro n n' before y y' past advance same hy hy' t grown m₀ hm₀
    have hlast := t.atMost past.reachable hy same
    rcases List.mem_cons.mp hm₀ with rfl | hm₀
    · exact ⟨y, hy, hlast⟩
    · obtain ⟨x₀, hx₀, hbefore⟩ := grown m₀ hm₀
      exact ⟨x₀, hx₀, hbefore.trans hlast⟩

end Growth

/-! ### The elements of the tree -/

/-- The first element of a session is created outside of all blocks. -/
theorem Building.root_outermost {b : BuilderRef} {w : World} {stack : List Frame}
    {course : Option Course} {session : Session}
    {created : List (ElementRef × List ElementRef)} {root : ElementRef}
    (building : Building b w stack course session created)
    (first : Course.first? created = some root) :
    root ∈ World.directly 0 (Course.log created) := by
  obtain ⟨y, hy, rfl⟩ := Option.map_eq_some_iff.mp first
  have hmem : (0, y.1) ∈ Course.log created :=
    List.mem_map.mpr ⟨y, List.mem_of_mem_head? hy, by simp [building.outermost y hy]⟩
  exact List.mem_map.mpr ⟨_, List.mem_filter.mpr ⟨hmem, rfl⟩, rfl⟩

/-- Where no block failed, the tree of the only outermost element has all elements. -/
theorem Built.single {m : Machine} {b : BuilderRef} {s : Session} {calls : Calls}
    {root : ElementRef} (built : Built m b s calls)
    (returned : ∀ e ∈ s.log.map Prod.snd, ∀ y, .left b e y ∈ m.history → ∃ v, y = .value v)
    (single : World.directly 0 s.log = [root]) :
    ∃ t, m.state.world.store.tree? root = some t ∧
      m.state.world.elementCount b = t.nodes.length := by
  obtain ⟨ts, hts, -, hcount⟩ := built.whole returned
  rw [single, List.mapM_cons] at hts
  simp only [Option.bind_eq_bind, Option.bind_eq_some_iff, List.mapM_nil, Option.pure_def,
    Option.some.injEq] at hts
  obtain ⟨t, ht, _, rfl, rfl⟩ := hts
  refine ⟨t, ht, ?_⟩
  rw [hcount, List.flatMap_cons, List.flatMap_nil, List.append_nil]

/-- The tree of a build in which no block failed, and that has one outermost element, has all
elements that were created. -/
theorem nodes_of_ended {code : Code} {b : BuilderRef} {m m' : Machine} {root : ElementRef}
    {c : Course} (hm : Reachable code m) (move : Move code m m')
    (event : m'.history = m.history ++ [.ended b (.value root)])
    (hc : course? b m'.history = some c)
    (single : (World.directly 0 (Course.log c.created)).length = 1)
    (returned : ∀ y ∈ c.created, ∀ z, .left b y.1 z ∈ m'.history → ∃ v, z = .value v)
    (untouched : ∀ y ∈ c.created, .attached y.1 ∉ m'.history) :
    ∃ t, m'.state.world.store.tree? root = some t ∧ c.created.length = t.nodes.length := by
  obtain ⟨next, rest, x, stack, program, hend, hstate⟩ := move.of_ended event
  have standing := (orderly_of_reachable hm b).2
  rw [stack] at standing
  obtain ⟨session, created, building⟩ := standing.building_of_build
  have hsession := building.stands.session
  have hcreated : c.created = created := by
    have hcourse := course?_ended building.course (.value root)
    rw [← event, hc, Option.some.injEq] at hcourse
    rw [hcourse]
  rw [hcreated] at single returned untouched
  have hvalue : (session.conclusion x).value? = some root := by
    rw [← endBuild_ending hsession x, ← hend]
    rfl
  have hfirst := building.conclusion_value hvalue
  have hmem : ∀ e ∈ session.log.map Prod.snd, ∃ y ∈ created, y.1 = e := by
    intro e he
    rw [building.log, Course.log, List.map_map] at he
    exact List.mem_map.mp he
  have hkept : ∀ ev ∈ m.history, ev ∈ m'.history := by
    intro ev hev
    rw [event]
    exact List.mem_append_left _ hev
  obtain ⟨calls, built⟩ := built_of_reachable hm stack hsession (by
    intro e he ha
    obtain ⟨y, hy, rfl⟩ := hmem e he
    exact untouched y hy (hkept _ ha))
  have honly : World.directly 0 session.log = [root] := by
    obtain ⟨e, he⟩ := List.length_eq_one_iff.mp single
    have hroot := building.root_outermost hfirst
    rw [he, List.mem_singleton] at hroot
    rw [building.log, he, hroot]
  obtain ⟨t, ht, hcount⟩ := built.single (by
    intro e he z hz
    obtain ⟨y, hy, rfl⟩ := hmem e he
    exact returned y hy z (hkept _ hz)) honly
  refine ⟨t, ?_, ?_⟩
  · rw [hstate, endBuild_store hsession]
    exact ht
  · rw [hcreated, ← building.stands.count, hcount]

/-! ### What the counters say -/

/-- The counters of a record at the latest moment of a build. They never decrease, and after a
build in which no block failed the elements of the tree are as many as were created. -/
structure Metered (b : BuilderRef) (x : Builder) (c : Course) (m : Machine)
    (earlier : List Machine) : Prop extends Counted b x.counters c.created m earlier where
  log : ∀ s, x.session = some s →
    s.log = Course.log c.created ∧ x.counters.elementsCreated = s.log.length
  depth : ∀ s, x.session = some s →
    s.depth = (running b m.stack).length ∧ s.depth ≤ x.counters.maxDepthReached
  logged : ∀ y ∈ Course.log c.created, y.1 ≤ x.counters.maxDepthReached
  scalars_le : x.counters.scalarBlocks ≤ x.counters.blocksEntered
  grown : ∀ m₀ ∈ earlier, ∃ x₀, m₀.state.world.builder? b = some x₀ ∧
    x₀.counters.AtMost x.counters
  iterated : ∀ m₀ before root, earlier = m₀ :: before →
    m.history = m₀.history ++ [.ended b (.value root)] →
    (World.directly 0 (Course.log c.created)).length = 1 →
    (∀ y ∈ c.created, ∀ z, .left b y.1 z ∈ m.history → ∃ v, z = .value v) →
    (∀ y ∈ c.created, .attached y.1 ∉ m.history) →
    ∃ t, m.state.world.store.tree? root = some t ∧ x.counters.elementsCreated = t.nodes.length

/-- The counters of a builder are exact at every moment of a build and after it. Scalar blocks
are counted if code gave no content by hand to the element of a running block. -/
theorem counters_exact {code : Code} {b : BuilderRef} {m : Machine} {earlier : List Machine}
    (h : Moments code b (m :: earlier)) :
    ∃ x c, m.state.world.builder? b = some x ∧ course? b m.history = some c ∧
      Metered b x c m earlier := by
  obtain ⟨x, c, hx, hc, counted⟩ := counted_of_moments h
  have standing := (orderly_of_reachable h.reachable b).2
  have building (s : Session) (hs : x.session = some s) :
      ∃ created, Building b m.state.world m.stack (course? b m.history) s created := by
    refine standing.building_of_session ?_
    rw [World.session?, hx]
    exact hs
  refine ⟨x, c, hx, hc, counted, ?_, ?_, ?_, ?_, counters_grow h hx, ?_⟩
  · intro s hs
    obtain ⟨created, built⟩ := building s hs
    have hcreated : c.created = created := by
      have hcourse := hc.symm.trans built.course
      rw [Option.some.injEq] at hcourse
      rw [hcourse]
    have hlog : s.log = Course.log c.created := by rw [hcreated, built.log]
    refine ⟨hlog, ?_⟩
    rw [counted.elements, hlog, Course.log, List.length_map]
  · intro s hs
    obtain ⟨created, built⟩ := building s hs
    refine ⟨built.depth, ?_⟩
    rw [built.depth]
    exact counted.running_le
  · intro y hy
    obtain ⟨z, hz, rfl⟩ := List.mem_map.mp hy
    exact counted.depths z hz
  · have hreturned := counted.returned
    have hbalance := counted.balance
    omega
  · rintro m₀ before root rfl event single returned untouched
    cases h with
    | later past advance same =>
      obtain ⟨t, ht, hcount⟩ :=
        nodes_of_ended past.reachable advance.move event hc single returned untouched
      exact ⟨t, ht, counted.elements.trans hcount⟩

theorem small_counters_exact : ∃ m earlier x c, Moments Script.code ⟨0⟩ (m :: earlier) ∧
    m.state.world.builder? ⟨0⟩ = some x ∧ course? ⟨0⟩ m.history = some c ∧
    Metered ⟨0⟩ x c m earlier ∧ x.counters = ⟨2, 1, 0, 1⟩ := by
  have h0 : Reachable Script.code _ :=
    .initial small_fresh (.build ⟨0⟩ (.callable smallBlock) ignoring)
  have h1 : Moments Script.code ⟨0⟩ [_] :=
    .began h0 (.of_move (.began (c := smallBlock) rfl) rfl) rfl
  have h2 := h1.later (.of_move (.entered (b := ⟨0⟩) rfl rfl) rfl) (by simp)
  have h3 := h2.later (.of_move (.created rfl rfl) rfl) (by simp)
  have h4 := h3.later (.of_move .left rfl) (by simp)
  have h5 := h4.later (.of_move .ended rfl) (by simp)
  obtain ⟨x, c, hx, hc, metered⟩ := counters_exact h5
  refine ⟨_, _, x, c, h5, hx, hc, metered, ?_⟩
  cases hx
  rfl

end TagTree
