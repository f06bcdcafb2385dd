import TagTree.Proofs.Notices

/-!
# What a move records

A move adds to the records of a builder what happened to its build: a record for an element
that was created, one for a block that was ambiguous if the settings ask for it, and one or two
for the end.
-/

namespace TagTree

/-! ### What is recorded -/

/-- A record of a builder as it reads when it is written in a world. -/
def World.said (w : World) (correlation : Value) (level : Level) (message : String)
    (extra : List (String × Atom)) (cause : Option FaultKind) : RecordReport where
  level := level
  logger := Record.builderLogger
  message := message
  component := .text builderComponent
  correlation := w.read correlation
  extra := extra.map fun p => (.text p.1, .atom p.2)
  cause := cause

def Value.isCallable : Value → Bool
  | .callable _ => true
  | _ => false

/-- An element that was created: the blocks of its builder that ran around it, the arguments
of its tag call, and the machine after it. -/
structure Creation : Type 1 where
  element : ElementRef
  around : List ElementRef
  args : List Value
  after : Machine

namespace Creation

/-- The entry of the element in the log of its session. -/
def entry (k : Creation) : Nat × ElementRef := (k.around.length, k.element)

def tag (k : Creation) : String := k.after.state.world.tagOf k.element

def report (correlation : Value) (k : Creation) : RecordReport :=
  k.after.state.world.said correlation .debug "Element created"
    [("depth", .int k.around.length), ("has_block", .bool (k.args.any Value.isCallable)),
      ("tag", .text k.tag)] none

end Creation

def creationAt (b : BuilderRef) (m m' : Machine) : List Creation :=
  match m.program with
  | .tag _ _ args _ _ =>
    ((createdBy b m'.history).drop (createdBy b m.history).length).map fun x =>
      ⟨x.1, x.2, args, m'⟩
  | _ => []

/-- The elements of a builder that were created, in order. -/
def creations (b : BuilderRef) : List Machine → List Creation := along (creationAt b)

namespace Leaving

/-- Whether the block is ambiguous: its element takes the elements created in it, and its value
is discarded. The element takes them unless it was given content by hand. -/
def Ambiguous (b : BuilderRef) (l : Leaving) : Prop :=
  match l.ending with
  | .value v => l.Discards b v ∧ l.before.state.world.isOpen l.element = true
  | _ => False

instance (b : BuilderRef) (l : Leaving) : Decidable (l.Ambiguous b) := by
  unfold Ambiguous
  split <;> infer_instance

def warning (correlation : Value) (l : Leaving) : RecordReport :=
  l.after.state.world.said correlation .warning (Remark.discardedMessage l.tag)
    [("tag", .text l.tag)] none

end Leaving

/-- A build that was ended: its session, how it ended, and the machines around its end. -/
structure Closing : Type 1 where
  session : Session
  ending : Outcome ElementRef
  before : Machine
  after : Machine

namespace Closing

/-- The elements created outside of all blocks after the first one. -/
def orphans (k : Closing) : List ElementRef := (World.directly 0 k.session.log).tail

def orphanWarnings (correlation : Value) (k : Closing) (root : ElementRef) :
    List RecordReport :=
  if k.orphans = [] then []
  else
    [k.before.state.world.said correlation .warning
      (Remark.orphansMessage (k.before.state.world.tagOf root) k.orphans.length)
      [("orphan_count", .int k.orphans.length)] none]

def completion (b : BuilderRef) (correlation : Value) (k : Closing) (root : ElementRef) :
    RecordReport :=
  k.after.state.world.said correlation .info "Build completed"
    [("element_count", .int k.session.log.length),
      ("max_depth", .int (k.after.state.world.countersOf b).maxDepthReached),
      ("root_tag", .text (k.before.state.world.tagOf root))] none

def failure (correlation : Value) (k : Closing) (f : Fault) : RecordReport :=
  k.before.state.world.said correlation .error "Build failed"
    [("element_count", .int k.session.log.length)] (some f.kind)

/-- The records of the end of a build. -/
def reports (b : BuilderRef) (correlation : Value) (k : Closing) : List RecordReport :=
  match k.ending with
  | .value root => k.orphanWarnings correlation root ++ [k.completion b correlation root]
  | .fault f => if f.isException then [k.failure correlation f] else []
  | .exhausted => []

end Closing

def closingAt (b : BuilderRef) (m m' : Machine) : List Closing :=
  match m.stack, m.program, m.state.world.session? b with
  | .build c _ :: _, .done y, some s => if c = b then [⟨s, s.conclusion y, m, m'⟩] else []
  | _, _, _ => []

/-- The ends of the builds of a builder, in order. -/
def closings (b : BuilderRef) : List Machine → List Closing := along (closingAt b)

/-- Whether a builder warns of ambiguous blocks. Without settings it runs no block. -/
def Builder.warns (x : Builder) : Bool :=
  match x.configuration with
  | .settings s => s.policy = .diagnostic
  | .other _ => false

/-- The records of what happens while a build runs. -/
def happeningAt (b : BuilderRef) (x : Builder) (m m' : Machine) : List RecordReport :=
  (creationAt b m m').map (Creation.report x.correlation) ++
    if x.warns then
      ((leavingAt b m m').filter fun l => l.Ambiguous b).map (Leaving.warning x.correlation)
    else []

/-! ### Admitted calls -/

section Admission

variable {w : World} {b : BuilderRef} {name : Value} {args : List Value}
  {named : List (String × Value)} {c : TagCall}

theorem isCallable_of_mapping {v : Value} {d : DictRef} (h : v.mapping? = some d) :
    v.isCallable = false := by
  cases v with
  | callable => cases h
  | _ => rfl

theorem isCallable_of_ne {v : Value} (h : ∀ c, v ≠ .callable c) : v.isCallable = false := by
  cases v with
  | callable c => exact absurd rfl (h c)
  | _ => rfl

theorem block_of_shape {shape : Shape} (h : Shape.ofArguments args = .ok shape) :
    shape.block.isSome = args.any Value.isCallable := by
  unfold Shape.ofArguments at h
  split at h
  · cases h
    rfl
  · rename_i v
    cases h
    cases v <;> rfl
  · split at h
    · cases h
    · split at h
      · cases h
        simp [Value.isCallable]
      · cases h
    · rename_i second _ first _ free _
      split at h
      · rename_i d mapping
        cases h
        simp [isCallable_of_ne free, isCallable_of_mapping mapping]
      · cases h
  · cases h

theorem block_of_admitCall (h : w.admitCall b name args named = .value c) :
    c.block.isSome = args.any Value.isCallable := by
  obtain ⟨x, s, resolved, shape, limit, tag, -, -, -, hshape, -, -, -, rfl⟩ :=
    admitCall_eq_value h
  exact block_of_shape hshape

/-- A builder that takes its settings from anything else runs no block. -/
theorem settings_of_admitCall {x : Builder} {block : Callable Value}
    (h : w.admitCall b name args named = .value c) (hb : c.block = some block)
    (hx : w.builder? b = some x) : ∃ s, x.configuration = .settings s := by
  obtain ⟨y, s, resolved, shape, limit, tag, hy, -, -, -, setting, within, -, rfl⟩ :=
    admitCall_eq_value h
  cases hx.symm.trans hy
  cases hc : x.configuration with
  | settings s => exact ⟨s, rfl⟩
  | other v =>
    have hblock : shape.block = some block := hb
    rw [hc] at setting
    rw [hblock] at within
    cases v with
    | handle g =>
      obtain ⟨t, -, ht⟩ : ∃ t, w.lookupTag g.builder SettingName.maxDepth.text = .ok t ∧
          limit = .callable (.factory 0 g.builder t) := by
        cases ht : w.lookupTag g.builder SettingName.maxDepth.text with
        | error f => simp [World.settingOf, ht, bind, Except.bind] at setting
        | ok t =>
          simp only [World.settingOf, ht, bind, Except.bind, pure, Except.pure,
            Except.ok.injEq] at setting
          exact ⟨t, rfl, setting.symm⟩
      rw [ht] at within
      cases within
    | builder d =>
      simp [World.settingOf] at setting
    | _ => cases setting

end Admission

/-! ### What a move records -/

section Moves

variable {code : Code} {b d : BuilderRef} {e : ElementRef} {start : Nat} {m m' : Machine}
  {next : Except Fault ElementRef → Program Value} {rest : List Frame} {x x' : Builder}
  {y : Outcome Value}

theorem creationAt_of_made (made : createdBy b m'.history = createdBy b m.history) :
    creationAt b m m' = [] := by
  unfold creationAt
  split
  · rw [made, List.drop_length, List.map_nil]
  · rfl

theorem happeningAt_of_made (made : createdBy b m'.history = createdBy b m.history)
    (leaving : leavingAt b m m' = []) : happeningAt b x m m' = [] := by
  rw [happeningAt, creationAt_of_made made, leaving]
  split <;> rfl

theorem closingAt_of_deed (deed : m.program.isDone = false) : closingAt b m m' = [] := by
  unfold closingAt
  split
  · rename_i hp _
    rw [hp] at deed
    cases deed
  · rfl

theorem closingAt_other (stack : m.stack = .build d next :: rest) (hd : d ≠ b) :
    closingAt b m m' = [] := by
  unfold closingAt
  split
  · rename_i hstack _ _
    cases stack.symm.trans hstack
    exact if_neg hd
  · rfl

/-- The records of a builder after a move: what the move is due is written at the end. -/
def Recorded (b : BuilderRef) (x : Builder) (m m' : Machine) : Prop :=
  m'.state.world.records b = m.state.world.records b ++ (happeningAt b x m m' ++
    (closingAt b m m').flatMap (Closing.reports b x.correlation))

theorem Recorded.quiet (records : m'.state.world.records b = m.state.world.records b)
    (made : createdBy b m'.history = createdBy b m.history) (leaving : leavingAt b m m' = [])
    (closing : closingAt b m m' = []) : Recorded b x m m' := by
  rw [Recorded, records, happeningAt_of_made made leaving, closing]
  exact (List.append_nil _).symm

theorem Recorded.of_deed (records : m'.state.world.records b = m.state.world.records b)
    (made : createdBy b m'.history = createdBy b m.history) (deed : m.program.isDone = false) :
    Recorded b x m m' :=
  .quiet records made (leavingAt_of_deed deed) (closingAt_of_deed deed)

theorem Builder.face_enterBlock (x : Builder) : x.enterBlock.face = x.face := by
  unfold enterBlock
  cases hs : x.session <;> simp [face, isBuilding, hs]

theorem creationAt_of_event {name : Value} {args : List Value} {named : List (String × Value)}
    (program : m.program = .tag d name args named next)
    (event : m'.history = m.history ++ [.created b e (running b m.stack)]) :
    creationAt b m m' = [⟨e, running b m.stack, args, m'⟩] := by
  simp [creationAt, program, event, createdBy_append, createdBy_self]

/-- The records of a builder that creates an element are one more. -/
theorem Recorded.of_creation {name : Value} {args : List Value} {named : List (String × Value)}
    {c : TagCall} {s : Session} (program : m.program = .tag b name args named next)
    (admitted : m.state.world.admitCall b name args named = .value c)
    (hx : m.state.world.builder? b = some x) (session : x.session = some s)
    (depth : s.depth = (running b m.stack).length)
    (event : m'.history =
      m.history ++ [.created b (m.state.world.create b c).1 (running b m.stack)])
    (shows : (m.state.world.create b c).2.Shows m'.state.world)
    (journal : m'.state.world.journal = (m.state.world.create b c).2.journal) :
    Recorded b x m m' := by
  have deed : m.program.isDone = false := by rw [program]; rfl
  have hcreated := builder_of_alters (World.create_alters m.state.world b c) hx
  have hcorrelation : (m.state.world.create b c).2.correlationOf b =
      m'.state.world.read x.correlation := by
    rw [World.correlationOf_eq hcreated, shows.read]
    simp only [Builder.logElement, session]
  have htag : m'.state.world.tagOf (m.state.world.create b c).1 = c.tag := by
    rw [shows.tagOf, World.tagOf, World.create_element?_self]
    simp only [TagCall.element, Element.bare]
    split <;> rfl
  have hdepth : ((m.state.world.session? b).map Session.depth).getD 0 =
      (running b m.stack).length := by
    simp [World.session?, hx, session, depth]
  rw [Recorded, World.records_of_journal b journal,
    (World.create_tells m.state.world b c).records_self, happeningAt,
    creationAt_of_event program event, leavingAt_of_deed deed, closingAt_of_deed deed,
    hcorrelation, hdepth, block_of_admitCall admitted]
  simp only [List.map_cons, List.map_nil, List.filter_nil, ite_self, List.append_nil,
    List.flatMap_nil, Creation.report, Creation.tag, htag]
  rfl

/-- The orphans of a build are the elements outside of all blocks after the first one. -/
theorem orphans_of_building {session : Session}
    {created : List (ElementRef × List ElementRef)} {root : ElementRef}
    (building : Building b m.state.world m.stack (course? b m.history) session created)
    (hm : Reachable code m) (hroot : session.root = some root) (z : Outcome ElementRef) :
    (Closing.mk session z m m').orphans = World.orphansOf session := by
  have hlog := directly_zero created
  rw [← building.log, orphansOf_session building hm hroot] at hlog
  rw [Closing.orphans, hlog, List.tail_cons]

theorem Closing.records_failBuild {k : Closing} (f : Fault)
    (hx : k.before.state.world.builder? b = some x)
    (count : (k.before.state.world.countersOf b).elementsCreated = k.session.log.length) :
    (k.before.state.world.failBuild b f).records b = k.before.state.world.records b ++
      if f.isException then [k.failure x.correlation f] else [] := by
  rw [(World.failBuild_tells k.before.state.world b f).records_self, World.correlationOf_eq hx,
    count]
  split <;> rfl

theorem Closing.records_completeBuild {k : Closing} {root : ElementRef}
    (after : k.after.state.world = k.before.state.world.completeBuild b k.session root)
    (orphans : k.orphans = World.orphansOf k.session)
    (hx : k.before.state.world.builder? b = some x)
    (count : (k.before.state.world.countersOf b).elementsCreated = k.session.log.length) :
    k.after.state.world.records b = k.before.state.world.records b ++
      (k.orphanWarnings x.correlation root ++ [k.completion b x.correlation root]) := by
  obtain ⟨rs, halters⟩ := World.completeBuild_alters k.before.state.world b k.session root
  rw [← after] at halters
  have hx' := builder_of_alters halters hx
  have hcorrelation : k.after.state.world.correlationOf b =
      k.after.state.world.read x.correlation := by
    rw [World.correlationOf_eq hx']
    rfl
  have hdeepest : (k.before.state.world.countersOf b).maxDepthReached =
      (k.after.state.world.countersOf b).maxDepthReached := by
    simp [World.countersOf, hx, hx', Builder.finish, Builder.annotated]
  have htells := World.completeBuild_tells k.before.state.world b k.session root
  rw [← after, ← orphans, World.correlationOf_eq hx, count, hcorrelation, hdeepest] at htells
  rw [htells.records_self, List.map_append, Closing.orphanWarnings]
  split <;> rfl

/-- The records of a build that ends are those of its end. -/
theorem Recorded.of_ending (hm : Reachable code m) (stack : m.stack = .build b next :: rest)
    (program : m.program = .done y)
    (after : m' = ⟨(endBuild b y m.state).2, rest, .resume next (endBuild b y m.state).1,
      m.history ++ [.ended b (endBuild b y m.state).1]⟩)
    (hx : m.state.world.builder? b = some x) : Recorded b x m m' := by
  have standing := (orderly_of_reachable hm b).2
  have hopen : openBuilds b m.stack ≠ 0 := by
    rw [stack, openBuilds_build_self]
    exact Nat.succ_ne_zero _
  obtain ⟨session, created, building⟩ := standing.building_of_open hopen
  have hsession := building.stands.session
  have hclosing : closingAt b m m' = [⟨session, session.conclusion y, m, m'⟩] := by
    simp [closingAt, stack, program, hsession]
  have hcount : (m.state.world.countersOf b).elementsCreated = session.log.length := by
    have hstands := building.stands.count
    simp only [World.elementCount, hx, Option.map_some, Option.getD_some] at hstands
    rw [World.countersOf, hx, building.log, Course.log, List.length_map]
    exact hstands
  have hmade : createdBy b m'.history = createdBy b m.history := by
    rw [after, createdBy_snoc rfl]
  have hleaving : leavingAt b m m' = [] := by simp [leavingAt, stack]
  have hstate : m'.state = (endBuild b y m.state).2 := by rw [after]
  rw [Recorded, happeningAt_of_made hmade hleaving, hclosing, List.flatMap_cons, List.flatMap_nil,
    List.append_nil, List.nil_append]
  clear after
  cases y with
  | fault f =>
    rw [hstate]
    exact Closing.records_failBuild (k := ⟨session, .fault f, m, m'⟩) f hx hcount
  | exhausted =>
    rw [hstate]
    exact (List.append_nil _).symm
  | value v =>
    cases hroot : session.root with
    | none =>
      have hend : (endBuild b (.value v) m.state).2.world =
          m.state.world.failBuild b .noRoot := by
        simp only [endBuild, World.concludeBuild, hsession, hroot]
      rw [hstate, hend]
      simp only [Session.conclusion, hroot]
      exact Closing.records_failBuild (k := ⟨session, .fault .noRoot, m, m'⟩) .noRoot hx hcount
    | some root =>
      have hend : m'.state.world = m.state.world.completeBuild b session root := by
        simp only [hstate, endBuild, World.concludeBuild, hsession, hroot]
      simp only [Session.conclusion, hroot]
      exact Closing.records_completeBuild (k := ⟨session, .value root, m, m'⟩) hend
        (orphans_of_building building hm hroot _) hx hcount

theorem World.warns_eq {w : World} {s : Settings Value} (hx : w.builder? b = some x)
    (hs : x.configuration = .settings s) : w.warns b = x.warns := by
  simp only [World.warns, policyOf_settings hx hs, Builder.warns, hs]
  cases s.policy <;> rfl

/-- The notices at the end of a block read as its warning, if it is ambiguous. -/
theorem report_blockNotices {l : Leaving} {s : Settings Value} (hm : Reachable code l.before)
    (stack : l.before.stack = .block b l.element start next :: rest)
    (after : l.after.state = (endBlock b l.element start l.ending l.before.state).2)
    (hx : l.before.state.world.builder? b = some x) (hs : x.configuration = .settings s) :
    (l.before.state.world.blockNotices b l.element start l.ending).map
        (fun n => (Record.notice b n.1 n.2).report) =
      if x.warns then ([l].filter fun l => l.Ambiguous b).map (Leaving.warning x.correlation)
      else [] := by
  cases hending : l.ending with
  | fault f => simp [World.blockNotices, Leaving.Ambiguous, hending]
  | exhausted => simp [World.blockNotices, Leaving.Ambiguous, hending]
  | value v =>
    have hambiguous : l.Ambiguous b ↔ l.before.state.world.Discards b start v ∧
        l.before.state.world.isOpen l.element = true := by
      simp only [Leaving.Ambiguous, hending, discards_iff hm stack]
    rcases hfill : l.before.state.world.fill b l.element start v with ⟨r, u⟩
    have hbuilders := World.fill_builders l.before.state.world b l.element start v
    rw [hfill] at hbuilders
    have hu : u.builder? b = some x := builder_of_builders hbuilders hx
    have shows : u.Shows l.after.state.world := by
      rw [after, hending]
      exact World.Shows.endBlock hfill
    rw [World.blockNotices, hfill]
    by_cases lost : l.Ambiguous b
    · rw [if_pos (hambiguous.mp lost), World.discardNotices, World.warns_eq hu hs,
        World.correlationOf_eq hu, ← shows.read, ← shows.tagOf,
        List.filter_cons_of_pos (by simpa using lost)]
      cases x.warns <;> rfl
    · rw [if_neg fun h => lost (hambiguous.mpr h), List.filter_cons_of_neg (by simpa using lost)]
      cases x.warns <;> rfl

theorem Recorded.of_leaving {ending : Outcome Value} (hm : Reachable code m)
    (stack : m.stack = .block b e start next :: rest) (program : m.program = .done ending)
    (after : m' = ⟨(endBlock b e start ending m.state).2, rest,
      .resume next (endBlock b e start ending m.state).1, m.history ++ [.left b e ending]⟩)
    (hx : m.state.world.builder? b = some x)
    (configured : running b m.stack ≠ [] → ∃ s, x.configuration = .settings s) :
    Recorded b x m m' := by
  obtain ⟨s, hs⟩ := configured (by rw [stack, running_block_self]; exact List.cons_ne_nil _ _)
  have hmade : createdBy b m'.history = createdBy b m.history := by
    rw [after, createdBy_snoc rfl]
  have hleaving : leavingAt b m m' = [⟨e, ending, m, m'⟩] := by simp [leavingAt, stack, program]
  have hclosing : closingAt b m m' = [] := by simp [closingAt, stack]
  have hstate : m'.state = (endBlock b e start ending m.state).2 := by rw [after]
  have hrecords := (endBlock_tells b e start ending m.state).records_self
  have hreports := report_blockNotices (l := ⟨e, ending, m, m'⟩) hm stack hstate hx hs
  rw [Recorded, happeningAt, creationAt_of_made hmade, hleaving, hclosing, hstate, hrecords,
    List.map_nil, List.nil_append, List.flatMap_nil, List.append_nil]
  exact congrArg _ hreports

/-- A move that begins no build of a builder adds to its records what it is due. -/
theorem recorded_of_advance (hm : Reachable code m) (ha : Advance code m m')
    (hx : m.state.world.builder? b = some x)
    (configured : running b m.stack ≠ [] → ∃ s, x.configuration = .settings s)
    (captured : m.program.acts = true → m'.state.world.records b = m.state.world.records b)
    (same : m'.history ≠ m.history ++ [.began b]) : Recorded b x m m' := by
  have standing := (orderly_of_reachable hm b).2
  obtain ⟨move, -⟩ := ha
  cases move with
  | returned => exact .quiet rfl rfl rfl rfl
  | @left s d e start next stack y h =>
    by_cases hd : d = b
    · subst hd
      exact .of_leaving hm rfl rfl rfl hx configured
    · exact .quiet ((endBlock_tells d e start y s).records_other hd) (createdBy_snoc rfl)
        (by simp [leavingAt, hd]) rfl
  | @ended s d next stack y h =>
    obtain ⟨session, created, building⟩ := (orderly_of_reachable hm d).2.building_of_build
    by_cases hd : d = b
    · subst hd
      exact .of_ending hm rfl rfl rfl hx
    · obtain ⟨ns, htells⟩ := endBuild_tells building.stands.session y
      exact .quiet (htells.records_other hd) (createdBy_snoc rfl) rfl (closingAt_other rfl hd)
  | acted kept => exact .of_deed (captured rfl) rfl rfl
  | @attached s stack e change next h =>
    exact .of_deed (World.records_of_journal b (attachContent_journal e change s))
      (createdBy_snoc rfl) rfl
  | refusedCall => exact .of_deed rfl rfl rfl
  | unreadCall => exact .of_deed rfl rfl rfl
  | @created s stack d name args named next h c admitted leaf =>
    by_cases hd : d = b
    · subst hd
      obtain ⟨session, hs⟩ := session_of_admitCall admitted
      obtain ⟨created, building⟩ := standing.building_of_session hs
      exact .of_creation rfl admitted hx (session_of_builder hx hs) building.depth rfl
        ⟨rfl, fun _ => rfl⟩ rfl
    · exact .of_deed ((World.create_tells s.world d c).records_other hd)
        (by rw [createdBy_append, createdBy_other hd, List.append_nil]) rfl
  | @entered s stack d name args named next h c block admitted branch =>
    by_cases hd : d = b
    · subst hd
      obtain ⟨session, hs⟩ := session_of_admitCall admitted
      obtain ⟨created, building⟩ := standing.building_of_session hs
      exact .of_creation rfl admitted hx (session_of_builder hx hs) building.depth rfl
        (.of_alters (.updateBuilder _ d Builder.enterBlock) rfl Builder.face_enterBlock) rfl
    · refine .of_deed ?_ (by rw [createdBy_append, createdBy_other hd, List.append_nil]) rfl
      exact (World.create_tells s.world d c).records_other hd
  | refusedBuild => exact .of_deed rfl rfl rfl
  | unreadBuild => exact .of_deed rfl rfl rfl
  | @began s stack d block next h c admitted =>
    have hd : d ≠ b := by
      rintro rfl
      exact same rfl
    exact .of_deed ((World.startBuild_tells s.world d).records_other hd) (createdBy_snoc rfl) rfl
  | applied => exact .of_deed rfl rfl rfl
  | loaded => exact .quiet rfl rfl rfl rfl

end Moves

end TagTree
