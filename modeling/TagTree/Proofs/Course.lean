import TagTree.Proofs.Machine

/-!
# The course of builds

What happened to a builder decides where it stands: whether it builds, with which log and at
which depth, and the root that it keeps. One build of a builder is open at a time, below all
blocks of the builder.
-/

namespace TagTree

/-! ### Courses -/

/-- The most recently started build of a builder: the elements that it created, each with the
running blocks of the builder around it, and how it ended. -/
structure Course where
  created : List (ElementRef × List ElementRef)
  ending : Option (Outcome ElementRef)

namespace Course

def log (created : List (ElementRef × List ElementRef)) : List (Nat × ElementRef) :=
  created.map fun x => (x.2.length, x.1)

def first? (created : List (ElementRef × List ElementRef)) : Option ElementRef :=
  created.head?.map Prod.fst

def root? (c : Course) : Option ElementRef := c.ending.bind Outcome.value?

def after (b : BuilderRef) (c : Option Course) : Event → Option Course
  | .began d => if d = b then some ⟨[], none⟩ else c
  | .created d e around =>
    if d = b then c.map fun c => { c with created := c.created ++ [(e, around)] } else c
  | .ended d x => if d = b then c.map fun c => { c with ending := some x } else c
  | .left .. | .attached _ => c

theorem log_append (xs ys : List (ElementRef × List ElementRef)) :
    log (xs ++ ys) = log xs ++ log ys := List.map_append

theorem first?_append (xs ys : List (ElementRef × List ElementRef)) :
    first? (xs ++ ys) = (first? xs <|> first? ys) := by
  cases xs <;> simp [first?]

end Course

def course? (b : BuilderRef) (h : List Event) : Option Course :=
  h.foldl (Course.after b) none

theorem course?_append (b : BuilderRef) (h : List Event) (ev : Event) :
    course? b (h ++ [ev]) = Course.after b (course? b h) ev := by
  simp [course?]

theorem course?_created {b : BuilderRef} {h : List Event} {c : Course}
    (hc : course? b h = some c) (e : ElementRef) (around : List ElementRef) :
    course? b (h ++ [.created b e around]) =
      some ⟨c.created ++ [(e, around)], c.ending⟩ := by
  simp [course?_append, hc, Course.after]

theorem course?_ended {b : BuilderRef} {h : List Event} {c : Course}
    (hc : course? b h = some c) (x : Outcome ElementRef) :
    course? b (h ++ [.ended b x]) = some ⟨c.created, some x⟩ := by
  simp [course?_append, hc, Course.after]

/-! ### Where builders stand -/

/-- Builds of a builder are open one at a time, and below all its blocks. -/
def Nested (b : BuilderRef) : List Frame → Prop
  | [] => True
  | .plain _ :: rest => Nested b rest
  | .block c .. :: rest => (c = b → openBuilds b rest = 1) ∧ Nested b rest
  | .build c _ :: rest =>
    (c = b → openBuilds b rest = 0 ∧ running b rest = []) ∧ Nested b rest

/-- A builder between builds. It keeps the root of the last one. -/
structure Idle (b : BuilderRef) (w : World) (stack : List Frame) (c : Option Course) :
    Prop where
  closed : openBuilds b stack = 0
  outside : running b stack = []
  session : w.session? b = none
  root : w.root? b = c.bind Course.root?
  first : ∀ x, c = some x → ∀ e, x.root? = some e → Course.first? x.created = some e
  finished : ∀ x, c = some x → x.ending ≠ none

/-- A builder that builds. Its session is what the created elements make it. -/
structure Building (b : BuilderRef) (w : World) (stack : List Frame) (c : Option Course)
    (session : Session) (created : List (ElementRef × List ElementRef)) : Prop where
  opened : openBuilds b stack = 1
  course : c = some ⟨created, none⟩
  stands : w.Stands b (some session) none created.length
  log : session.log = Course.log created
  depth : session.depth = (running b stack).length
  root : session.root = Course.first? created
  outermost : ∀ x, created.head? = some x → x.2 = []
  started : running b stack ≠ [] → created ≠ []

/-- A builder stands where its course led. -/
def Standing (b : BuilderRef) (w : World) (stack : List Frame) (c : Option Course) : Prop :=
  Idle b w stack c ∨ ∃ session created, Building b w stack c session created

section Standing

variable {b d : BuilderRef} {w w' : World} {stack stack' : List Frame} {c : Option Course}
  {session : Session} {created : List (ElementRef × List ElementRef)}

theorem Standing.frame (h : Standing b w stack c)
    (hw : w'.Stands b (w.session? b) (w.root? b) (w.elementCount b))
    (ho : openBuilds b stack' = openBuilds b stack) (hr : running b stack' = running b stack) :
    Standing b w' stack' c := by
  rcases h with h | ⟨session, created, h⟩
  · refine .inl ⟨ho.trans h.closed, hr.trans h.outside, hw.session.trans h.session,
      hw.root.trans h.root, h.first, h.finished⟩
  · have stands : w'.Stands b (some session) none created.length := by
      rw [h.stands.session, h.stands.root, h.stands.count] at hw
      exact hw
    exact .inr ⟨session, created, ho.trans h.opened, h.course, stands, h.log, by rw [hr, h.depth],
      h.root, h.outermost, by rw [hr]; exact h.started⟩

theorem Standing.building_of_open (h : Standing b w stack c) (ho : openBuilds b stack ≠ 0) :
    ∃ session created, Building b w stack c session created := by
  rcases h with h | h
  · exact absurd h.closed ho
  · exact h

theorem Standing.building_of_session {s : Session} (h : Standing b w stack c)
    (hs : w.session? b = some s) : ∃ created, Building b w stack c s created := by
  rcases h with h | ⟨session, created, h⟩
  · rw [h.session] at hs
    cases hs
  · have hsession := h.stands.session.symm.trans hs
    cases hsession
    exact ⟨created, h⟩

theorem Standing.idle_of_none (h : Standing b w stack c) (hs : w.session? b = none) :
    Idle b w stack c := by
  rcases h with h | ⟨session, created, h⟩
  · exact h
  · rw [h.stands.session] at hs
    cases hs

theorem Standing.building_of_build {next : Except Fault ElementRef → Program Value}
    (h : Standing b w (.build b next :: stack) c) :
    ∃ session created, Building b w (.build b next :: stack) c session created := by
  apply h.building_of_open
  rw [openBuilds_build_self]
  exact Nat.succ_ne_zero _

theorem Standing.building_of_block {e : ElementRef} {start : Nat}
    {next : Except Fault ElementRef → Program Value}
    (h : Standing b w (.block b e start next :: stack) c)
    (nested : Nested b (.block b e start next :: stack)) :
    ∃ session created, Building b w (.block b e start next :: stack) c session created := by
  apply h.building_of_open
  rw [openBuilds_block, nested.1 rfl]
  exact Nat.one_ne_zero

theorem Building.create (h : Building b w stack c session created) (call : TagCall) :
    Building b (w.create b call).2 stack
      (Course.after b c (.created b (w.create b call).1 (running b stack)))
      ⟨session.root <|> some (w.create b call).1,
        session.log ++ [(session.depth, (w.create b call).1)], session.depth⟩
      (created ++ [((w.create b call).1, running b stack)]) where
  opened := h.opened
  course := by simp [Course.after, h.course]
  stands := by
    simpa using World.create_stands call h.stands
  log := by
    rw [Course.log_append, h.log, h.depth]
    rfl
  depth := h.depth
  root := by
    rw [Course.first?_append, h.root]
    rfl
  outermost := by
    intro x hx
    cases created with
    | nil =>
      have hr : running b stack = [] := by
        cases hr : running b stack with
        | nil => rfl
        | cons e es => exact absurd rfl (h.started (by simp [hr]))
      simp only [List.nil_append, List.head?_cons, Option.some.injEq] at hx
      rw [← hx, hr]
    | cons y ys => exact h.outermost x (by simpa using hx)
  started := by simp

theorem Building.enter {s : State} {e : ElementRef}
    (h : Building b s.world stack c session (created ++ [(e, running b stack)])) (start : Nat)
    (next : Except Fault ElementRef → Program Value) :
    Building b (enterBlock b s).world (.block b e start next :: stack) c
      ⟨session.root, session.log, session.depth + 1⟩ (created ++ [(e, running b stack)]) where
  opened := h.opened
  course := h.course
  stands := enterBlock_stands h.stands
  log := h.log
  depth := by rw [running_block_self, List.length_cons, h.depth]
  root := h.root
  outermost := h.outermost
  started := by simp

theorem Building.leave {s : State} {e : ElementRef} {start : Nat}
    {next : Except Fault ElementRef → Program Value}
    (h : Building b s.world (.block b e start next :: stack) c session created)
    (x : Outcome Value) :
    Building b (endBlock b e start x s).2.world stack c
      ⟨session.root, session.log, session.depth - 1⟩ created where
  opened := h.opened
  course := h.course
  stands := endBlock_stands e start x h.stands
  log := h.log
  depth := by
    have hd := h.depth
    rw [running_block_self, List.length_cons] at hd
    simp only [hd, Nat.add_sub_cancel]
  root := h.root
  outermost := h.outermost
  started := fun _ => h.started (by rw [running_block_self]; exact List.cons_ne_nil _ _)

theorem Idle.start {x : Builder} (h : Idle b w stack c) (hx : w.builder? b = some x)
    (next : Except Fault ElementRef → Program Value) :
    Building b (w.startBuild b) (.build b next :: stack) (Course.after b c (.began b)) .empty
      [] where
  opened := by rw [openBuilds_build_self, h.closed]
  course := by simp [Course.after]
  stands := World.startBuild_stands hx
  log := rfl
  depth := by rw [running_build, h.outside]; rfl
  root := rfl
  outermost := by simp
  started := fun hr => absurd h.outside (by simpa using hr)

theorem Building.conclusion_value (h : Building b w stack c session created) {x : Outcome Value}
    {e : ElementRef} (he : (session.conclusion x).value? = some e) :
    Course.first? created = some e := by
  rw [← h.root]
  cases x with
  | value v =>
    cases hr : session.root with
    | none => simp [Session.conclusion, hr, Outcome.value?] at he
    | some root => simpa [Session.conclusion, hr, Outcome.value?] using he
  | fault f => simp [Session.conclusion, Outcome.value?] at he
  | exhausted => simp [Session.conclusion, Outcome.value?] at he

theorem Building.finish {s : State} {next : Except Fault ElementRef → Program Value}
    (h : Building b s.world (.build b next :: stack) c session created)
    (below : openBuilds b stack = 0 ∧ running b stack = []) (x : Outcome Value) :
    Idle b (endBuild b x s).2.world stack
      (Course.after b c (.ended b (endBuild b x s).1)) := by
  have he := endBuild_ending h.stands.session x
  have hs := endBuild_stands x h.stands
  have hc : Course.after b c (.ended b (endBuild b x s).1) =
      some ⟨created, some (session.conclusion x)⟩ := by
    simp [Course.after, h.course, he]
  rw [hc]
  refine ⟨below.1, below.2, hs.session, hs.root, ?_, ?_⟩
  · rintro y hy e hr
    cases hy
    exact h.conclusion_value hr
  · rintro y hy
    cases hy
    simp

theorem Standing.other {f : Builder → Builder} (h : Standing b w stack c)
    (ha : w.Alters d f w') (hd : d ≠ b) (ho : openBuilds b stack' = openBuilds b stack)
    (hr : running b stack' = running b stack) : Standing b w' stack' c :=
  h.frame (ha.stands_other hd (w.stands b)) ho hr

end Standing

/-! ### Admission -/

section Admission

variable {w : World} {b : BuilderRef}

theorem eq_of_ofExcept {α : Type} {x : Except Fault α} {a : α}
    (h : Outcome.ofExcept x = .value a) : x = .ok a := by
  cases x with
  | ok y =>
    cases h
    rfl
  | error f => cases h

/-- What an admitted tag call went through, and what it makes. -/
theorem admitCall_eq_value {name : Value} {args : List Value} {named : List (String × Value)}
    {c : TagCall} (h : w.admitCall b name args named = .value c) :
    ∃ x s resolved shape limit tag, w.builder? b = some x ∧ x.session = some s ∧
      w.resolveNamed x.configuration named = .ok resolved ∧ Shape.ofArguments args = .ok shape ∧
      w.settingOf x.configuration .maxDepth = .ok limit ∧
      w.checkLimit name limit s.depth shape.block.isSome = .value () ∧
      Element.tagOf name = .ok tag ∧
      c = ⟨tag, Shape.mergeAttributes (shape.mapping.map w.store.entries) resolved, shape.text,
        shape.block⟩ := by
  unfold World.admitCall at h
  cases hx : w.builder? b with
  | none => simp [hx] at h
  | some x =>
    cases hs : x.session with
    | none =>
      simp only [hx, hs] at h
      obtain ⟨text, -, h⟩ := bind_eq_value h
      cases h
    | some s =>
      simp only [hx, hs, World.admitInSession] at h
      obtain ⟨resolved, hresolved, h⟩ := bind_eq_value h
      cases hshape : Shape.ofArguments args with
      | error p =>
        rw [hshape] at h
        obtain ⟨text, -, h⟩ := bind_eq_value h
        cases h
      | ok shape =>
        rw [hshape] at h
        obtain ⟨limit, hlimit, h⟩ := bind_eq_value h
        obtain ⟨u, hcheck, h⟩ := bind_eq_value h
        obtain ⟨tag, htag, h⟩ := bind_eq_value h
        cases h
        exact ⟨x, s, resolved, shape, limit, tag, rfl, hs, eq_of_ofExcept hresolved, rfl,
          eq_of_ofExcept hlimit, hcheck, eq_of_ofExcept htag, rfl⟩

theorem session_of_admitCall {name : Value} {args : List Value}
    {named : List (String × Value)} {c : TagCall}
    (h : w.admitCall b name args named = .value c) : ∃ s, w.session? b = some s := by
  obtain ⟨x, s, resolved, shape, limit, tag, hx, hs, -⟩ := admitCall_eq_value h
  exact ⟨s, by simp [World.session?, hx, hs]⟩

theorem idle_of_admitBuild {block : Value} {c : Callable Value}
    (h : w.admitBuild b block = .value c) :
    (∃ x, w.builder? b = some x) ∧ w.session? b = none := by
  unfold World.admitBuild at h
  cases hx : w.builder? b with
  | none => simp [hx] at h
  | some x =>
    refine ⟨⟨x, rfl⟩, ?_⟩
    simp only [hx] at h
    cases hs : x.session with
    | none => simp [World.session?, hx, hs]
    | some s => simp [Builder.isBuilding, hs] at h

theorem text_of_shape {args : List Value} {shape : Shape} {block : Callable Value}
    (h : Shape.ofArguments args = .ok shape) (hb : shape.block = some block) :
    shape.text = .none := by
  unfold Shape.ofArguments at h
  split at h
  · cases h
    cases hb
  · rename_i v
    cases h
    cases v with
    | callable c => rfl
    | dict d => cases hb
    | view d => cases hb
    | _ => cases hb
  · split at h
    · cases h
    · split at h
      · cases h
        rfl
      · cases h
    · split at h
      · cases h
        cases hb
      · cases h
  · cases h

theorem text_of_admitCall {name : Value} {args : List Value} {named : List (String × Value)}
    {c : TagCall} {block : Callable Value} (h : w.admitCall b name args named = .value c)
    (hb : c.block = some block) : c.text = .none := by
  obtain ⟨x, s, resolved, shape, limit, tag, -, -, -, hshape, -, -, -, rfl⟩ :=
    admitCall_eq_value h
  exact text_of_shape hshape hb

theorem element_of_admitCall {name : Value} {args : List Value}
    {named : List (String × Value)} {c : TagCall} {block : Callable Value}
    (h : w.admitCall b name args named = .value c) (hb : c.block = some block) :
    c.element = .bare c.tag c.attributes := by
  simp [TagCall.element, text_of_admitCall h hb, Value.isNone]

end Admission

/-! ### Runs -/

def Machine.Orderly (m : Machine) : Prop :=
  ∀ b, Nested b m.stack ∧ Standing b m.state.world m.stack (course? b m.history)

theorem attachContent_builders (e : ElementRef) (change : Element → Except Fault Element)
    (s : State) :
    (Program.attachContent e change s).2.world.builders = s.world.builders :=
  World.changeElement_builders s.world e change

theorem orderly_initial {s : State} (fresh : s.Fresh) (p : Program Value) :
    (Machine.initial s p).Orderly := by
  intro b
  obtain ⟨hs, hr⟩ := fresh b
  refine ⟨trivial, .inl ⟨rfl, rfl, hs, hr, ?_, ?_⟩⟩
  · rintro x hx
    cases hx
  · rintro x hx
    cases hx

theorem orderly_move {code : Code} {m m' : Machine} (h : m.Orderly) (hm : Move code m m') :
    m'.Orderly := by
  intro b
  obtain ⟨nested, standing⟩ := h b
  cases hm with
  | returned => exact ⟨nested, standing.frame (World.stands _ b) rfl rfl⟩
  | @left s d e start next stack x h' =>
    refine ⟨nested.2, ?_⟩
    rw [course?_append]
    by_cases hd : d = b
    · subst hd
      obtain ⟨session, created, building⟩ := standing.building_of_block nested
      exact .inr ⟨_, _, building.leave x⟩
    · obtain ⟨rs, n, ha⟩ := endBlock_alters d e start x s
      exact standing.other ha hd rfl (running_block_other hd).symm
  | @ended s d next stack x h' =>
    refine ⟨nested.2, ?_⟩
    obtain ⟨session, created, building⟩ := (h d).2.building_of_build
    rw [course?_append]
    by_cases hd : d = b
    · subst hd
      exact .inl (building.finish (nested.1 rfl) x)
    · obtain ⟨rs, ha⟩ := endBuild_alters building.stands.session x
      simp only [Course.after, hd, if_false]
      exact standing.other ha hd (openBuilds_build_other hd).symm rfl
  | acted kept =>
    exact ⟨nested, standing.frame ⟨kept.session b, kept.root b, kept.count b⟩ rfl rfl⟩
  | @attached s stack e change next h' =>
    have hb := attachContent_builders e change s
    refine ⟨nested, ?_⟩
    rw [course?_append]
    refine standing.frame ⟨?_, ?_, ?_⟩ rfl rfl
    · simp only [World.session?, World.builder?, hb]
    · simp only [World.root?, World.builder?, hb]
    · simp only [World.elementCount, World.builder?, hb]
  | refusedCall => exact ⟨nested, standing.frame (World.stands _ b) rfl rfl⟩
  | unreadCall => exact ⟨nested, standing.frame (World.stands _ b) rfl rfl⟩
  | @created s stack d name args named next h' c admitted leaf =>
    refine ⟨nested, ?_⟩
    rw [course?_append]
    by_cases hd : d = b
    · subst hd
      obtain ⟨session, hs⟩ := session_of_admitCall admitted
      obtain ⟨created, building⟩ := standing.building_of_session hs
      exact .inr ⟨_, _, building.create c⟩
    · simp only [Course.after, hd, if_false]
      exact standing.other (World.create_alters s.world d c) hd rfl rfl
  | @entered s stack d name args named next h' c block admitted branch =>
    obtain ⟨session, hs⟩ := session_of_admitCall admitted
    obtain ⟨created, building⟩ := (h d).2.building_of_session hs
    refine ⟨⟨fun hd => hd ▸ building.opened, nested⟩, ?_⟩
    rw [course?_append]
    by_cases hd : d = b
    · subst hd
      exact .inr ⟨_, _, (building.create c).enter (s := createElement d c s) _ next⟩
    · have ha := (World.create_alters s.world d c).trans
        (.updateBuilder (s.world.create d c).2 d Builder.enterBlock)
      simp only [Course.after, hd, if_false]
      exact standing.other ha hd rfl (running_block_other hd)
  | refusedBuild => exact ⟨nested, standing.frame (World.stands _ b) rfl rfl⟩
  | unreadBuild => exact ⟨nested, standing.frame (World.stands _ b) rfl rfl⟩
  | @began s stack d block next h' c admitted =>
    obtain ⟨⟨x, hx⟩, hs⟩ := idle_of_admitBuild admitted
    have idle := (h d).2.idle_of_none hs
    refine ⟨⟨fun hd => hd ▸ ⟨idle.closed, idle.outside⟩, nested⟩, ?_⟩
    rw [course?_append]
    by_cases hd : d = b
    · subst hd
      exact .inr ⟨_, _, idle.start hx next⟩
    · simp only [Course.after, hd, if_false]
      exact standing.other (World.startBuild_alters s.world d) hd (openBuilds_build_other hd) rfl
  | applied => exact ⟨nested, standing.frame (World.stands _ b) rfl rfl⟩
  | loaded => exact ⟨nested, standing.frame (World.stands _ b) rfl rfl⟩

theorem orderly_of_reachable {code : Code} {m : Machine} (h : Reachable code m) :
    m.Orderly := by
  induction h with
  | initial fresh p => exact orderly_initial fresh p
  | move _ hm ih => exact orderly_move ih hm

end TagTree
