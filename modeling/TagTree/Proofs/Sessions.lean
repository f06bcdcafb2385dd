import TagTree.Proofs.Course

/-!
# The discipline of sessions

A builder builds exactly while a build of it is open. Its session then counts the running
blocks and keeps the root at the head of a log that only grows; afterwards the builder keeps
the root if the build returned it.
-/

namespace TagTree

/-! ### Histories -/

theorem move_history {code : Code} {m m' : Machine} (hm : Move code m m') :
    ∃ events, m'.history = m.history ++ events := by
  cases hm with
  | left | ended | attached | created | entered | began => exact ⟨_, rfl⟩
  | _ => exact ⟨[], (List.append_nil _).symm⟩

theorem moves_history {code : Code} {m m' : Machine} (hm : Moves code m m') :
    ∃ events, m'.history = m.history ++ events := by
  induction hm with
  | refl => exact ⟨[], (List.append_nil _).symm⟩
  | tail _ hs ih =>
    obtain ⟨events, he⟩ := ih
    obtain ⟨more, hmore⟩ := move_history hs
    exact ⟨events ++ more, by rw [hmore, he, List.append_assoc]⟩

theorem created_after {b : BuilderRef} {c : Course} {ev : Event} (hev : ev ≠ .began b) :
    ∃ c', Course.after b (some c) ev = some c' ∧ c.created <+: c'.created := by
  cases ev with
  | began d =>
    have hd : d ≠ b := fun hd => hev (by rw [hd])
    exact ⟨c, by simp [Course.after, hd], List.prefix_rfl⟩
  | created d e around =>
    by_cases hd : d = b
    · exact ⟨⟨c.created ++ [(e, around)], c.ending⟩, by simp [Course.after, hd],
        List.prefix_append _ _⟩
    · exact ⟨c, by simp [Course.after, hd], List.prefix_rfl⟩
  | left d e x => exact ⟨c, rfl, List.prefix_rfl⟩
  | ended d x =>
    by_cases hd : d = b
    · exact ⟨⟨c.created, some x⟩, by simp [Course.after, hd], List.prefix_rfl⟩
    · exact ⟨c, by simp [Course.after, hd], List.prefix_rfl⟩
  | attached e => exact ⟨c, rfl, List.prefix_rfl⟩

theorem created_grows {b : BuilderRef} {h events : List Event} {c : Course}
    (hc : course? b h = some c) (hb : Event.began b ∉ events) :
    ∃ c', course? b (h ++ events) = some c' ∧ c.created <+: c'.created := by
  unfold course? at hc ⊢
  rw [List.foldl_append, hc]
  clear hc
  induction events generalizing c with
  | nil => exact ⟨c, rfl, List.prefix_rfl⟩
  | cons ev events ih =>
    rw [List.mem_cons, not_or] at hb
    obtain ⟨c₁, h₁, hp⟩ := created_after (c := c) (Ne.symm hb.1)
    obtain ⟨c', h', hp'⟩ := ih (c := c₁) hb.2
    refine ⟨c', ?_, hp.trans hp'⟩
    rw [List.foldl_cons, h₁]
    exact h'

/-! ### Sessions -/

/-- A later session of the same build: the log only grew at its end, and a root stays. -/
def Session.Extends (s s' : Session) : Prop :=
  s.log <+: s'.log ∧ ∀ e, s.root = some e → s'.root = some e

/-- The first entry of the log is the root, outside of all blocks. -/
def Session.Rooted (s : Session) : Prop :=
  (s.root = none ↔ s.log = []) ∧
    ∀ entry rest, s.log = entry :: rest → s.root = some entry.2 ∧ entry.1 = 0

section Sessions

variable {b : BuilderRef} {w w' : World} {stack stack' : List Frame}
  {session session' : Session} {created created' : List (ElementRef × List ElementRef)}
  {c c' : Option Course}

theorem Building.rooted (h : Building b w stack c session created) : session.Rooted := by
  unfold Session.Rooted
  rw [h.root, h.log]
  cases hc : created with
  | nil => simp [Course.first?, Course.log]
  | cons x xs =>
    have hx : x.2 = [] := h.outermost x (by rw [hc]; rfl)
    refine ⟨by simp [Course.first?, Course.log], ?_⟩
    intro entry rest he
    simp only [Course.log, List.map_cons, List.cons.injEq] at he
    obtain ⟨rfl, -⟩ := he
    exact ⟨rfl, by simp [hx]⟩

theorem Building.extends (h : Building b w stack c session created)
    (h' : Building b w' stack' c' session' created') (hp : created <+: created') :
    session.Extends session' := by
  obtain ⟨more, rfl⟩ := hp
  constructor
  · rw [h.log, h'.log, Course.log_append]
    exact List.prefix_append _ _
  · intro e he
    rw [h'.root, Course.first?_append]
    rw [h.root] at he
    rw [he]
    rfl

theorem Standing.isBuilding_iff (h : Standing b w stack c) :
    w.isBuilding b = true ↔ openBuilds b stack = 1 := by
  rw [World.isBuilding_eq]
  rcases h with h | ⟨session, created, h⟩
  · simp [h.session, h.closed]
  · simp [h.stands.session, h.opened]

theorem Standing.openBuilds_le (h : Standing b w stack c) : openBuilds b stack ≤ 1 := by
  rcases h with h | ⟨session, created, h⟩
  · rw [h.closed]
    exact Nat.zero_le 1
  · exact Nat.le_of_eq h.opened

theorem Standing.root_iff (h : Standing b w stack c) (e : ElementRef) :
    w.root? b = some e ↔
      openBuilds b stack = 0 ∧ ∃ x, c = some x ∧ x.ending = some (.value e) := by
  have hv (x : Outcome ElementRef) : x.value? = some e ↔ x = .value e := by
    cases x <;> simp [Outcome.value?]
  rcases h with h | ⟨session, created, h⟩
  · rw [h.root, h.closed]
    cases c with
    | none => simp
    | some x => simp [Course.root?, Option.bind_eq_some_iff, hv]
  · rw [h.stands.root, h.opened]
    simp

theorem Standing.first (h : Standing b w stack c) {x : Course} {e : ElementRef}
    (hx : c = some x) (he : x.ending = some (.value e)) :
    Course.first? x.created = some e := by
  rcases h with h | ⟨session, created, h⟩
  · exact h.first x hx e (by simp [Course.root?, he, Outcome.value?])
  · rw [h.course, Option.some.injEq] at hx
    rw [← hx] at he
    cases he

end Sessions

/-! ### The discipline of sessions -/

theorem ended_program {code : Code} {m m' : Machine} {b : BuilderRef}
    {next : Except Fault ElementRef → Program Value} {stack : List Frame} {x : Outcome Value}
    {session : Session} (hstack : m.stack = .build b next :: stack) (hp : m.program = .done x)
    (hs : m.state.world.session? b = some session) (hm : Move code m m') :
    m'.stack = stack ∧ m'.program = .resume next (session.conclusion x) ∧
      m'.state = (endBuild b x m.state).2 := by
  cases hm with
  | ended =>
    simp only [List.cons.injEq, Frame.build.injEq, Program.done.injEq] at hstack hp
    obtain ⟨⟨rfl, rfl⟩, rfl⟩ := hstack
    subst hp
    rw [endBuild_ending hs]
    exact ⟨rfl, rfl, rfl⟩
  | _ => simp_all

/-- What holds of a builder in every state that programs lead to. -/
structure SessionDiscipline (code : Code) (m : Machine) (b : BuilderRef) : Prop where
  building : m.state.world.isBuilding b = true ↔ openBuilds b m.stack = 1
  single : openBuilds b m.stack ≤ 1
  depth : ∀ s, m.state.world.session? b = some s → s.depth = (running b m.stack).length
  rooted : ∀ s, m.state.world.session? b = some s → s.Rooted
  /-- Until another build of the builder begins, its session only extends. -/
  extending : ∀ m', Moves code m m' → ∃ events, m'.history = m.history ++ events ∧
    (.began b ∉ events → ∀ s s', m.state.world.session? b = some s →
      m'.state.world.session? b = some s' → s.Extends s')
  /-- The root is kept when no build is open and the last one returned it. -/
  kept : ∀ e, m.state.world.root? b = some e ↔ openBuilds b m.stack = 0 ∧
    ∃ c, course? b m.history = some c ∧ c.ending = some (.value e)
  first : ∀ c e, course? b m.history = some c → c.ending = some (.value e) →
    Course.first? c.created = some e
  unrendered : ∀ x, m.state.world.builder? b = some x → x.root = none →
    m.state.world.renderBuilder b = .fault .noRoot
  rendered : ∀ x e, m.state.world.builder? b = some x → x.root = some e →
    m.state.world.renderBuilder b = do
      let width ← Outcome.ofExcept (m.state.world.settingOf x.configuration .indentWidth)
      m.state.world.render e width 0
  /-- A build whose block ended is over, as its block ended or for want of a root. -/
  concluded : ∀ next stack x, m.stack = .build b next :: stack → m.program = .done x →
    ∃ s, m.state.world.session? b = some s ∧ (∃ m', Move code m m') ∧
      ∀ m', Move code m m' → m'.stack = stack ∧
        m'.program = .resume next (s.conclusion x) ∧
        m'.state.world.isBuilding b = false ∧
        m'.state.world.root? b = (s.conclusion x).value?
  /-- A build that fails raises the very fault that left its block. -/
  reraised : ∀ next stack f m', m.stack = .build b next :: stack →
    m.program = .done (.fault f) → Move code m m' → m'.program = next (.error f)

theorem session_discipline {code : Code} {m : Machine} (hm : Reachable code m)
    (b : BuilderRef) : SessionDiscipline code m b := by
  obtain ⟨-, standing⟩ := orderly_of_reachable hm b
  exact {
    building := standing.isBuilding_iff
    single := standing.openBuilds_le
    depth := by
      intro s hs
      obtain ⟨created, building⟩ := standing.building_of_session hs
      exact building.depth
    rooted := by
      intro s hs
      obtain ⟨created, building⟩ := standing.building_of_session hs
      exact building.rooted
    extending := by
      intro m' hm'
      obtain ⟨events, hev⟩ := moves_history hm'
      refine ⟨events, hev, ?_⟩
      intro hb s s' hs hs'
      obtain ⟨-, standing'⟩ := orderly_of_reachable (hm.moves hm') b
      obtain ⟨created, building⟩ := standing.building_of_session hs
      obtain ⟨created', building'⟩ := standing'.building_of_session hs'
      obtain ⟨c', hc', hp⟩ := created_grows building.course hb
      rw [← hev, building'.course, Option.some.injEq] at hc'
      subst hc'
      exact building.extends building' hp
    kept := standing.root_iff
    first := fun c e hc he => standing.first hc he
    unrendered := by
      intro x hx hr
      simp only [World.renderBuilder, World.renderBuilderWith, hx, hr]
    rendered := by
      intro x e hx hr
      simp only [World.renderBuilder, World.renderBuilderWith, World.render, hx, hr]
    concluded := by
      intro next stack x hstack hp
      rw [hstack] at standing
      obtain ⟨s, created, building⟩ := standing.building_of_build
      refine ⟨s, building.stands.session, ?_, ?_⟩
      · obtain ⟨state, k, p, h⟩ := m
        subst hstack hp
        exact ⟨_, .ended⟩
      · intro m' hm'
        obtain ⟨hs, hprog, hstate⟩ := ended_program hstack hp building.stands.session hm'
        have stands := endBuild_stands x building.stands
        rw [← hstate] at stands
        refine ⟨hs, hprog, ?_, stands.root⟩
        rw [World.isBuilding_eq, stands.session]
        rfl
    reraised := by
      intro next stack f m' hstack hp hm'
      rw [hstack] at standing
      obtain ⟨s, created, building⟩ := standing.building_of_build
      exact (ended_program hstack hp building.stands.session hm').2.1 }

theorem small_session_discipline : ∃ m, Reachable Script.code m ∧
    m.state.world.isBuilding ⟨0⟩ = true ∧ SessionDiscipline Script.code m ⟨0⟩ := by
  obtain ⟨s, next, session, hm, -⟩ := small_left
  have discipline := session_discipline hm ⟨0⟩
  exact ⟨_, hm, discipline.building.mpr (by simp [openBuilds]), discipline⟩

end TagTree
