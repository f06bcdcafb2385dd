import TagTree.Proofs.Happenings

/-!
# The records of a build

The journal has one record of a builder for the beginning of its build, one for every element
that it creates, one for every ambiguous block if its settings ask for remarks, and one or two
for the end, in the order in which all this happened. Nothing else adds to them.
-/

namespace TagTree

/-- The records of a build after that of its beginning. -/
def recordsAlong (b : BuilderRef) (x : Builder) (path : List Machine) : List RecordReport :=
  along (happeningAt b x) path ++ (closings b path).flatMap (Closing.reports b x.correlation)

/-- Code by itself writes no records of a builder and drops none. -/
def Captured (b : BuilderRef) (path : List Machine) : Prop :=
  path.IsChain fun m' m =>
    m.program.acts = true → m'.state.world.records b = m.state.world.records b

/-! ### Records and the log -/

section Moments

variable {code : Code} {b : BuilderRef} {m m' : Machine} {earlier : List Machine}
  {x x' : Builder}

theorem creations_cons : creations b (m' :: m :: earlier) =
    creations b (m :: earlier) ++ creationAt b m m' := rfl

theorem closings_cons : closings b (m' :: m :: earlier) =
    closings b (m :: earlier) ++ closingAt b m m' := rfl

/-- All that is recorded precedes the records of the end. -/
theorem recordsAlong_cons (h : closings b (m :: earlier) = [] ∨ happeningAt b x m m' = []) :
    recordsAlong b x (m' :: m :: earlier) = recordsAlong b x (m :: earlier) ++
      (happeningAt b x m m' ++ (closingAt b m m').flatMap (Closing.reports b x.correlation)) := by
  have halong : along (happeningAt b x) (m' :: m :: earlier) =
      along (happeningAt b x) (m :: earlier) ++ happeningAt b x m m' := rfl
  rw [recordsAlong, recordsAlong, halong, closings_cons, List.flatMap_append]
  rcases h with h | h
  · rw [h]
    simp
  · rw [h]
    simp

theorem recordsAlong_congr (same : x'.configuration = x.configuration ∧
      x'.correlation = x.correlation) (path : List Machine) :
    recordsAlong b x' path = recordsAlong b x path := by
  have hhappening : happeningAt b x' = happeningAt b x := by
    have hwarns : x'.warns = x.warns := by rw [Builder.warns, Builder.warns, same.1]
    funext m m'
    rw [happeningAt, happeningAt, hwarns, same.2]
  rw [recordsAlong, recordsAlong, hhappening, same.2]

theorem Move.history_of_build {next : Except Fault ElementRef → Program Value}
    {rest : List Frame} {y : Outcome Value} (hm : Move code m m')
    (stack : m.stack = .build b next :: rest) (program : m.program = .done y) :
    ∃ z, m'.history = m.history ++ [.ended b z] := by
  cases hm with
  | ended =>
    cases stack
    exact ⟨_, rfl⟩
  | returned => cases stack
  | left => cases stack
  | loaded => cases stack
  | _ => cases program

/-- A build that did not end has no end. -/
theorem closingAt_of_course (hm : Reachable code m) (move : Move code m m')
    (course : course? b m'.history = course? b m.history) : closingAt b m m' = [] := by
  unfold closingAt
  split
  · rename_i c next rest y s hstack hprogram hs
    by_cases hc : c = b
    · subst hc
      obtain ⟨z, event⟩ := move.history_of_build hstack hprogram
      obtain ⟨created, building⟩ := (orderly_of_reachable hm c).2.building_of_session hs
      rw [event, course?_ended building.course z, building.course] at course
      cases course
    · exact if_neg hc
  · rfl

/-- The log of a build has an entry for every element on record. The build ends once. -/
structure Mirrored (b : BuilderRef) (x : Builder) (path : List Machine) : Prop where
  going : ∀ s, x.session = some s →
    closings b path = [] ∧ s.log = (creations b path).map Creation.entry
  closed : x.session = none → ∃ k next, closings b path = [k] ∧
    k.session.log = (creations b path).map Creation.entry ∧
    k.before.stack = .build b next :: k.after.stack ∧ k.after.program = .resume next k.ending

section Mirrored

theorem Mirrored.quiet (h : Mirrored b x (m :: earlier))
    (session : x'.session.map Session.log = x.session.map Session.log)
    (creation : creationAt b m m' = []) (closing : closingAt b m m' = []) :
    Mirrored b x' (m' :: m :: earlier) := by
  refine ⟨?_, ?_⟩ <;>
    rw [creations_cons, closings_cons, creation, closing, List.append_nil, List.append_nil]
  · intro s' hs'
    obtain ⟨s, hs, hlog⟩ := Option.map_eq_some_iff.mp (session.symm.trans (by rw [hs']; rfl))
    rw [← hlog]
    exact h.going s hs
  · intro hs'
    rw [hs', Option.map_none, eq_comm, Option.map_eq_none_iff] at session
    exact h.closed session

theorem Mirrored.create (h : Mirrored b x (m :: earlier)) {s s' : Session} {k : Creation}
    (hs : x.session = some s) (hs' : x'.session = some s') (log : s'.log = s.log ++ [k.entry])
    (creation : creationAt b m m' = [k]) (closing : closingAt b m m' = []) :
    Mirrored b x' (m' :: m :: earlier) := by
  obtain ⟨hnone, hlog⟩ := h.going s hs
  refine ⟨?_, ?_⟩
  · intro t ht
    cases hs'.symm.trans ht
    rw [creations_cons, closings_cons, creation, closing, List.append_nil, List.map_append, ← hlog]
    exact ⟨hnone, log⟩
  · intro hnot
    rw [hs'] at hnot
    cases hnot

theorem Mirrored.finish (h : Mirrored b x (m :: earlier)) {k : Closing}
    {next : Except Fault ElementRef → Program Value} (hs : x.session = some k.session)
    (hs' : x'.session = none) (creation : creationAt b m m' = [])
    (closing : closingAt b m m' = [k]) (stack : k.before.stack = .build b next :: k.after.stack)
    (program : k.after.program = .resume next k.ending) :
    Mirrored b x' (m' :: m :: earlier) := by
  obtain ⟨hnone, hlog⟩ := h.going k.session hs
  refine ⟨?_, fun _ => ⟨k, next, ?_, ?_, stack, program⟩⟩
  · intro t ht
    rw [hs'] at ht
    cases ht
  · rw [closings_cons, hnone, closing, List.nil_append]
  · rw [creations_cons, creation, List.append_nil]
    exact hlog

end Mirrored

/-- The records of a builder at the latest moment of a build, from those before it. -/
structure Chronicled (b : BuilderRef) (before first : Machine) (x : Builder) (m : Machine)
    (earlier : List Machine) : Prop extends Mirrored b x (m :: earlier) where
  records : m.state.world.records b = before.state.world.records b ++
    first.state.world.said x.correlation .info "Starting build" [] none ::
      recordsAlong b x (m :: earlier)

/-- Records of a build on the way: only a builder with settings has blocks that run. -/
structure Chronicling (b : BuilderRef) (before first : Machine) (x : Builder) (m : Machine)
    (earlier : List Machine) : Prop extends Chronicled b before first x m earlier where
  configured : running b m.stack ≠ [] → ∃ s, x.configuration = .settings s

variable {before first : Machine}

theorem chronicling_began {y : Builder} (reached : Reachable code m)
    (advance : Advance code m m') (event : m'.history = m.history ++ [.began b])
    (hy : m.state.world.builder? b = some y) : Chronicling b m m' y.start m' [] := by
  obtain ⟨block, next, c, -, -, admitted, -, rfl⟩ := advance.move.of_began event
  have hstart := builder_of_alters (World.startBuild_alters m.state.world b) hy
  have htells := World.startBuild_tells m.state.world b
  have hidle := (orderly_of_reachable reached b).2.idle_of_none (idle_of_admitBuild admitted).2
  refine ⟨⟨⟨?_, fun hs => nomatch hs⟩, ?_⟩, fun hr => absurd hidle.outside hr⟩
  · intro s hs
    cases hs
    exact ⟨rfl, rfl⟩
  · rw [World.correlationOf_eq hstart] at htells
    exact htells.records_self

theorem Turn.happeningAt_of_idle (t : Turn b m m' x x') (hm : Reachable code m)
    (hx : m.state.world.builder? b = some x) (idle : x.session = none)
    (same : m'.history ≠ m.history ++ [.began b]) : happeningAt b x m m' = [] := by
  have standing := orderly_of_reachable hm b
  cases t with
  | still around made course leaving ending => exact happeningAt_of_made made leaving
  | created program admitted leaf session =>
    rw [session] at idle
    cases idle
  | entered program admitted branch session =>
    rw [session] at idle
    cases idle
  | left stack program after record =>
    rw [stack] at standing
    obtain ⟨s, created, building⟩ := standing.2.building_of_block standing.1
    rw [session_of_builder hx building.stands.session] at idle
    cases idle
  | ended stack program after record =>
    rw [stack] at standing
    obtain ⟨s, created, building⟩ := standing.2.building_of_build
    rw [session_of_builder hx building.stands.session] at idle
    cases idle
  | began program around event => exact absurd event same

theorem Turn.configured (t : Turn b m m' x x') (hm : Reachable code m)
    (hx : m.state.world.builder? b = some x)
    (configured : running b m.stack ≠ [] → ∃ s, x.configuration = .settings s)
    (hr : running b m'.stack ≠ []) : ∃ s, x'.configuration = .settings s := by
  rw [t.configuration hm hx]
  cases t with
  | still around => exact configured (by rwa [around] at hr)
  | created program admitted leaf session depth around => exact configured (by rwa [around] at hr)
  | entered program admitted branch => exact settings_of_admitCall admitted branch hx
  | left stack program after record =>
    refine configured ?_
    rw [stack, running_block_self]
    exact List.cons_ne_nil _ _
  | ended stack program after record =>
    refine configured ?_
    rw [stack, running_build]
    rwa [after] at hr
  | began program around event => exact absurd around hr

theorem Mirrored.turn (h : Mirrored b x (m :: earlier)) (t : Turn b m m' x x')
    (hm : Reachable code m) (move : Move code m m') (hx : m.state.world.builder? b = some x)
    (same : m'.history ≠ m.history ++ [.began b]) : Mirrored b x' (m' :: m :: earlier) := by
  have standing := orderly_of_reachable hm b
  cases t with
  | still around made course leaving ending =>
    exact h.quiet rfl (creationAt_of_made made) (closingAt_of_course hm move course)
  | @created name args named next c s program admitted leaf session depth around event =>
    refine h.create session (Builder.session_logElement session _) ?_
      (creationAt_of_event program event) (closingAt_of_deed (by rw [program]; rfl))
    simp only [Creation.entry, depth]
  | @entered name args named next c block s program admitted branch session depth around event =>
    have hlogged := Builder.session_logElement session (m.state.world.create b c).1
    refine h.create session (by rw [Builder.session_enterBlock, hlogged]; rfl) ?_
      (creationAt_of_event program event) (closingAt_of_deed (by rw [program]; rfl))
    simp only [Creation.entry, depth]
  | @left e start next rest ending _ stack program after record =>
    rw [stack] at standing
    obtain ⟨s, created, building⟩ := standing.2.building_of_block standing.1
    have hs := session_of_builder hx building.stands.session
    have hs' := session_of_builder record (by
      rw [after]
      exact (endBlock_stands e start ending building.stands).session)
    refine h.quiet (by rw [hs, hs']; rfl) (creationAt_of_made ?_) (by simp [closingAt, stack])
    rw [after, createdBy_snoc rfl]
  | @ended next rest ending _ stack program after record =>
    rw [stack] at standing
    obtain ⟨s, created, building⟩ := standing.2.building_of_build
    have hsession := building.stands.session
    have hs := session_of_builder hx hsession
    have hs' := session_none_of_builder record (by
      rw [after]
      exact (endBuild_stands ending building.stands).session)
    refine h.finish (k := ⟨s, s.conclusion ending, m, m'⟩) hs hs' (creationAt_of_made ?_)
      (by simp [closingAt, stack, program, hsession]) (by rw [after]; exact stack) ?_
    · rw [after, createdBy_snoc rfl]
    · rw [after, ← endBuild_ending hsession ending]
  | began program around event => exact absurd event same

theorem Chronicling.turn (h : Chronicling b before first x m earlier) (hm : Reachable code m)
    (ha : Advance code m m') (hx : m.state.world.builder? b = some x) (t : Turn b m m' x x')
    (captured : m.program.acts = true → m'.state.world.records b = m.state.world.records b)
    (same : m'.history ≠ m.history ++ [.began b]) :
    Chronicling b before first x' m' (m :: earlier) := by
  have lasting := t.lasting hm hx
  have hrecorded := recorded_of_advance hm ha hx h.configured captured same
  have hapart : closings b (m :: earlier) = [] ∨ happeningAt b x m m' = [] := by
    cases hs : x.session with
    | none => exact .inr (t.happeningAt_of_idle hm hx hs same)
    | some s => exact .inl (h.going s hs).1
  refine ⟨⟨h.toMirrored.turn t hm ha.move hx same, ?_⟩, t.configured hm hx h.configured⟩
  rw [hrecorded, h.records, recordsAlong_congr lasting, recordsAlong_cons hapart, lasting.2,
    List.append_assoc, List.cons_append]

theorem chronicling_of_moments (h : Moments code b (m :: earlier))
    (hx : m.state.world.builder? b = some x) (captured : Captured b (m :: earlier)) :
    ∃ before first, Advance code before first ∧
      first.history = before.history ++ [.began b] ∧
      (m :: earlier).getLast? = some first ∧ Chronicling b before first x m earlier := by
  revert captured
  refine h.of_turns (P := fun x m earlier => Captured b (m :: earlier) →
    ∃ before first, Advance code before first ∧ first.history = before.history ++ [.began b] ∧
      (m :: earlier).getLast? = some first ∧ Chronicling b before first x m earlier) hx ?_ ?_
  · intro n n' y reached advance event hy captured
    exact ⟨n, n', advance, event, rfl, chronicling_began reached advance event hy⟩
  · intro n n' before y y' past advance same hy hy' t chronicled captured
    obtain ⟨hlast, hbefore⟩ := List.isChain_cons_cons.mp captured
    obtain ⟨beginning, first, began, event, hfirst, chronicling⟩ := chronicled hbefore
    exact ⟨beginning, first, began, event, by rwa [List.getLast?_cons_cons],
      chronicling.turn past.reachable advance hy t hlast same⟩

end Moments

/-! ### Tags -/

section Tags

variable {code : Code} {b : BuilderRef} {m m' : Machine} {earlier : List Machine}

theorem World.tagOf_changeElement (w : World) (e d : ElementRef)
    {f : Element → Except Fault Element} (keeps : ∀ x y, f x = .ok y → y.tag = x.tag) :
    (w.changeElement e f).2.tagOf d = w.tagOf d := by
  by_cases hd : e = d
  · subst hd
    cases hx : w.store.element? e with
    | none => simp only [changeElement, hx]
    | some x =>
      cases hy : f x with
      | error fault => simp only [changeElement, hx, hy]
      | ok y =>
        rw [changeElement_self hx hy, tagOf, tagOf, element?_setElement y hx, hx]
        exact keeps x y hy
  · rw [tagOf, tagOf, changeElement_other w f hd]

theorem Element.tag_withContent {x y : Element} {content : Content}
    (h : x.withContent content = .ok y) : y.tag = x.tag := by
  unfold withContent at h
  split at h
  · cases h
  · cases h
    rfl

theorem endBlock_tagOf (b : BuilderRef) (e d : ElementRef) (start : Nat) (ending : Outcome Value)
    (s : State) : (endBlock b e start ending s).2.world.tagOf d = s.world.tagOf d := by
  cases ending with
  | fault f => rfl
  | exhausted => rfl
  | value v =>
    have hfill : (s.world.fill b e start v).2.tagOf d = s.world.tagOf d := by
      unfold World.fill
      simp only
      split
      · exact World.tagOf_changeElement _ e d fun x y => Element.tag_withContent
      · split
        · exact World.tagOf_changeElement _ e d fun x y => Element.tag_withContent
        · rfl
    rw [← hfill, World.tagOf, World.tagOf, ← World.settle_store]
    rfl

/-- A move leaves the tag of an element as it is, unless it gives the element content by hand. -/
theorem tagOf_of_move (hm : Reachable code m) (move : Move code m m') {e : ElementRef}
    (stored : e.index < m.state.world.store.elements.size)
    (untouched : .attached e ∉ m'.history) :
    m'.state.world.tagOf e = m.state.world.tagOf e := by
  cases move with
  | @left s b d start next stack y h => exact endBlock_tagOf b d e start y s
  | @ended s b next stack y h =>
    obtain ⟨session, created, building⟩ := (orderly_of_reachable hm b).2.building_of_build
    rw [World.tagOf, World.tagOf, endBuild_store building.stands.session]
  | acted kept => rw [World.tagOf, World.tagOf, kept.element e stored]
  | @attached s stack d change next h =>
    have hne : d ≠ e := fun hd => untouched (by simp [hd])
    have hsame : (Program.attachContent d change s).2.world.store.element? e =
        s.world.store.element? e := World.changeElement_other s.world change hne
    rw [World.tagOf, World.tagOf, hsame]
  | @created s stack b name args named next h c =>
    rw [World.tagOf, World.tagOf, createElement, World.create_element? s.world b c e stored]
  | @entered s stack b name args named next h c =>
    rw [World.tagOf, World.tagOf, ← World.create_element? s.world b c e stored]
    rfl
  | _ => rfl

theorem mem_creationAt {k : Creation} (hk : k ∈ creationAt b m m') :
    (k.element, k.around) ∈ createdBy b m'.history ∧ k.after = m' := by
  unfold creationAt at hk
  split at hk
  · obtain ⟨y, hy, rfl⟩ := List.mem_map.mp hk
    exact ⟨List.mem_of_mem_drop hy, rfl⟩
  · cases hk

theorem tags_of_moments (h : Moments code b (m :: earlier)) :
    ∀ k ∈ creations b (m :: earlier), (k.element, k.around) ∈ createdBy b m.history ∧
      (.attached k.element ∉ m.history → m.state.world.tagOf k.element = k.tag) := by
  obtain ⟨x, hx⟩ := h.builder
  refine h.of_turns (P := fun _ m earlier => ∀ k ∈ creations b (m :: earlier),
    (k.element, k.around) ∈ createdBy b m.history ∧
      (.attached k.element ∉ m.history → m.state.world.tagOf k.element = k.tag)) hx ?_ ?_
  · intro n n' y reached advance event hy k hk
    cases hk
  · intro n n' before y y' past advance same hy hy' t tags k hk
    rw [creations_cons, List.mem_append] at hk
    rcases hk with hk | hk
    · obtain ⟨hmade, htag⟩ := tags k hk
      obtain ⟨more, hmore⟩ := move_history advance.move
      have stored := (traced_of_reachable past.reachable).1.stored b _ hmade
      rw [hmore, createdBy_append]
      refine ⟨List.mem_append_left _ hmade, fun untouched => ?_⟩
      rw [tagOf_of_move past.reachable advance.move stored (by rwa [hmore])]
      exact htag fun h => untouched (List.mem_append_left _ h)
    · obtain ⟨hmade, hafter⟩ := mem_creationAt hk
      refine ⟨hmade, fun _ => ?_⟩
      rw [Creation.tag, hafter]

end Tags

/-! ### What the records say -/

section Reports

variable {code : Code} {b : BuilderRef} {m m' : Machine} {earlier : List Machine}
  {before first : Machine} {x : Builder}

theorem mem_along {α : Type*} {f : Machine → Machine → List α} {path : List Machine} {y : α}
    (h : y ∈ along f path) : ∃ n ∈ path, ∃ n' ∈ path, y ∈ f n n' := by
  induction path with
  | nil => cases h
  | cons n' path ih =>
    cases path with
    | nil => cases h
    | cons n path =>
      rcases List.mem_append.mp h with h | h
      · obtain ⟨k, hk, k', hk', hy⟩ := ih h
        exact ⟨k, List.mem_cons_of_mem _ hk, k', List.mem_cons_of_mem _ hk', hy⟩
      · exact ⟨n, by simp, n', by simp, h⟩

/-- A record that carries the component of builders and a correlation. -/
def RecordReport.Carries (correlation : Value) (path : List Machine) (r : RecordReport) : Prop :=
  r.logger = Record.builderLogger ∧ r.component = .text builderComponent ∧
    ∃ n ∈ path, r.correlation = n.state.world.read correlation

theorem after_of_leavingAt {l : Leaving} (hl : l ∈ leavingAt b m m') : l.after = m' := by
  unfold leavingAt at hl
  split at hl
  · split at hl
    · rw [List.mem_singleton.mp hl]
    · cases hl
  · cases hl

theorem around_of_closingAt {k : Closing} (hk : k ∈ closingAt b m m') :
    k.before = m ∧ k.after = m' := by
  unfold closingAt at hk
  split at hk
  · split at hk
    · rw [List.mem_singleton.mp hk]
      exact ⟨rfl, rfl⟩
    · cases hk
  · cases hk

theorem carries_of_happeningAt {path : List Machine} (hm' : m' ∈ path) :
    ∀ r ∈ happeningAt b x m m', r.Carries x.correlation path := by
  intro r hr
  rcases List.mem_append.mp hr with hr | hr
  · obtain ⟨k, hk, rfl⟩ := List.mem_map.mp hr
    refine ⟨rfl, rfl, m', hm', ?_⟩
    rw [← (mem_creationAt hk).2]
    rfl
  · split at hr
    · obtain ⟨l, hl, rfl⟩ := List.mem_map.mp hr
      refine ⟨rfl, rfl, m', hm', ?_⟩
      rw [← after_of_leavingAt (List.mem_of_mem_filter hl)]
      rfl
    · cases hr

theorem Closing.carries {k : Closing} {v : Value} {path : List Machine}
    (hbefore : k.before ∈ path) (hafter : k.after ∈ path) :
    ∀ r ∈ k.reports b v, r.Carries v path := by
  intro r hr
  unfold reports at hr
  split at hr
  · rcases List.mem_append.mp hr with hr | hr
    · unfold orphanWarnings at hr
      split at hr
      · cases hr
      · rw [List.mem_singleton.mp hr]
        exact ⟨rfl, rfl, k.before, hbefore, rfl⟩
    · rw [List.mem_singleton.mp hr]
      exact ⟨rfl, rfl, k.after, hafter, rfl⟩
  · split at hr
    · rw [List.mem_singleton.mp hr]
      exact ⟨rfl, rfl, k.before, hbefore, rfl⟩
    · cases hr
  · cases hr

theorem carries_of_recordsAlong {path : List Machine} :
    ∀ r ∈ recordsAlong b x path, r.Carries x.correlation path := by
  intro r hr
  rcases List.mem_append.mp hr with hr | hr
  · obtain ⟨n, -, n', hn', hr⟩ := mem_along hr
    exact carries_of_happeningAt hn' r hr
  · obtain ⟨k, hk, hr⟩ := List.mem_flatMap.mp hr
    obtain ⟨n, hn, n', hn', hk⟩ := mem_along hk
    obtain ⟨rfl, rfl⟩ := around_of_closingAt hk
    exact k.carries hn hn' r hr

/-- A call that is refused leaves all records as they are. -/
theorem journal_of_eventless (move : Move code m m') (asks : m.program.acts = false)
    (eventless : m'.history = m.history) : m'.state.world.journal = m.state.world.journal := by
  cases move with
  | acted => cases asks
  | left => simp at eventless
  | ended => simp at eventless
  | attached => simp at eventless
  | created => simp at eventless
  | entered => simp at eventless
  | began => simp at eventless
  | _ => rfl

/-- The records of a build mirror it: their places are those of what happened, each carries the
builder's component and correlation, and elements still have the tags on record unless they were
given content by hand. -/
structure Chronicle (b : BuilderRef) (before first : Machine) (x : Builder) (m : Machine)
    (earlier : List Machine) : Prop extends Chronicled b before first x m earlier where
  carried : ∀ r ∈ first.state.world.said x.correlation .info "Starting build" [] none ::
    recordsAlong b x (m :: earlier), r.Carries x.correlation (m :: earlier)
  tags : ∀ k ∈ creations b (m :: earlier), .attached k.element ∉ m.history →
    m.state.world.tagOf k.element = k.tag

end Reports

/-- At every moment of a build, and after it, the records of its builder are those from before
and those of the build, if nothing but builds writes or drops such records. Calls that are
refused write none. -/
theorem records_exact {code : Code} {b : BuilderRef} {m : Machine} {earlier : List Machine}
    (h : Moments code b (m :: earlier)) (captured : Captured b (m :: earlier)) :
    (∃ before first x, Advance code before first ∧
      first.history = before.history ++ [.began b] ∧
      (m :: earlier).getLast? = some first ∧ m.state.world.builder? b = some x ∧
      Chronicle b before first x m earlier) ∧
    ∀ n n', Move code n n' → n.program.acts = false → n'.history = n.history →
      n'.state.world.journal = n.state.world.journal := by
  obtain ⟨x, hx⟩ := h.builder
  obtain ⟨before, first, began, event, hfirst, chronicling⟩ :=
    chronicling_of_moments h hx captured
  refine ⟨⟨before, first, x, began, event, hfirst, hx, chronicling.toChronicled, ?_, ?_⟩, ?_⟩
  · intro r hr
    rcases List.mem_cons.mp hr with rfl | hr
    · exact ⟨rfl, rfl, first, List.mem_of_getLast? hfirst, rfl⟩
    · exact carries_of_recordsAlong r hr
  · intro k hk untouched
    exact (tags_of_moments h k hk).2 untouched
  · intro n n' move asks eventless
    exact journal_of_eventless move asks eventless

theorem wordy_records_exact : ∃ m earlier before first x,
    Moments wordyCode ⟨0⟩ (m :: earlier) ∧
    m.state.world.builder? ⟨0⟩ = some x ∧ Chronicle ⟨0⟩ before first x m earlier ∧
    (m.state.world.records ⟨0⟩).map RecordReport.level =
      [.info, .debug, .debug, .warning, .info] := by
  have h0 : Reachable wordyCode _ :=
    .initial small_fresh (.build ⟨0⟩ (.callable (.factory 1 ⟨0⟩ "a")) ignoring)
  have h1 : Moments wordyCode ⟨0⟩ [_] :=
    .began h0 (.of_move (.began (c := .factory 1 ⟨0⟩ "a") rfl) rfl) rfl
  have h2 := h1.later (.of_move (.entered (b := ⟨0⟩) rfl rfl) rfl) (by simp)
  have h3 := h2.later (.of_move (.created rfl rfl) rfl) (by simp)
  have h4 := h3.later (.of_move .left rfl) (by simp)
  have h5 := h4.later (.of_move .ended rfl) (by simp)
  obtain ⟨⟨before, first, x, -, -, -, hx, chronicle⟩, -⟩ := records_exact h5 (by
    refine List.isChain_cons_cons.mpr ⟨?_, List.isChain_cons_cons.mpr ⟨?_,
      List.isChain_cons_cons.mpr ⟨?_, List.isChain_cons_cons.mpr ⟨?_, .singleton _⟩⟩⟩⟩
    all_goals
      intro acts
      cases acts)
  exact ⟨_, _, before, first, x, h5, hx, chronicle, rfl⟩

end TagTree
